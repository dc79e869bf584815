import BraceLisp.Draft.Basic
import BraceLisp.Eval.Basic

/-!
# Evaluation of drafts

A draft evaluates to what the value that it shows evaluates to. What it carries goes with it as long as the
draft itself is passed on: a draft that is its own value stays as it is, the list of the arguments of a call
becomes the value of `list`, and the result of arithmetic carries what the first number carries. Binding a
name makes a copy, so names have to do with finished values only. The body of a closure is copied as well, and
whatever it is becomes an S-expression.
-/

namespace BraceLisp.Draft

/-- The draft that an operation makes of its list of arguments: it shows the value of the operation. -/
def compute (op : Operation) (args : Draft) : Except Fault Draft :=
  (op.compute (finishedAll args.cells)).map fun v =>
    match op, args.cells with
    | .list, _ => args.asData
    | .head, first :: _ => first.withCells (first.cells.take 1)
    | .tail, first :: _ => first.withCells (first.cells.drop 1)
    | .join, first :: rest => first.withCells (first.cells ++ rest.flatMap cells)
    | .arith _, first :: _ => .atom v first.cells
    | _, _ => ofValue v

def chooseBranch (args : List Draft) : Except Fault Draft := do
  let (condition, _, _) ← Arguments.numberAndTwoLists Builtin.branch.name (finishedAll args)
  return args.getD (if condition = 0 then 2 else 1) default

def evalChecked (ev : Draft → EvalM Draft) : Except Fault Draft → EvalM Draft
  | .ok code => ev code.asCode
  | .error fault => return ofValue fault.toValue

/--
Applies a builtin to a list of evaluated arguments; `ev` evaluates drafts, and `finish` finished values.
-/
def apply (files : Files) (finish : Value → EvalM Value) (ev : Draft → EvalM Draft) (b : Builtin)
    (args : Draft) : EvalM Draft :=
  match b with
  | .operation op =>
      match compute op args with
      | .ok d => return d
      | .error fault => return ofValue fault.toValue
  | .eval =>
      evalChecked ev ((Arguments.oneList b.name (finishedAll args.cells)).map fun _ => args.cells.headD default)
  | .branch => evalChecked ev (chooseBranch args.cells)
  | _ => return ofValue (← b.apply files finish (finishedAll args.cells))

/-! ## Calls -/

def formalNames (formals : Draft) : List Value :=
  formals.cells.map fun formal => .symbol formal.symbolName

/--
Calls a function with a list of evaluated arguments; the function comes back as the call leaves it. The list
may be any draft, and so may the function if it was one before it became a list.
-/
def call (files : Files) (finish : Value → EvalM Value) (ev : Draft → EvalM Draft) (function args : Draft) :
    EvalM (Draft × Draft) :=
  match function.origin? with
  | some (.atom (.builtin b) _) => do
      let result ← apply files finish ev b args
      return (result, function)
  | some (.closure formals body own entered _) =>
      let leaving (count : Nat) (own : Frame) (entered : Bool) : Draft :=
        let left := formals.withCells (formals.cells.drop (formals.cells.length - count))
        function.withOrigin (.closure left body own entered [])
      match Bound.ofCall formals.formalNames (finishedAll args.cells) own with
      | .failed fault left own => return (ofValue fault.toValue, leaving left.length own entered)
      | .waiting left own =>
          let waiting := leaving left.length own entered
          return (ofValue waiting.finished, waiting)
      | .saturated own => do
          EvalM.enter own
          let result ← ev (ofValue body.finished).asCode
          let own ← EvalM.leave
          return (result, leaving 0 own true)
  | _ => return (ofValue (Fault.notFunction (.text function.type.name)).toValue, function)

/--
Whether a function can be its own list of arguments. A call uses up that list once the arguments are bound: a
closure that would go on after that is gone, unless the list has been bound to a variadic formal.
-/
def canTakeItself (function : Draft) : Bool :=
  match function with
  | .closure formals _ own _ args =>
      match Bound.ofCall formals.formalNames (finishedAll args) own with
      | .failed .. => true
      | _ =>
          let names := formals.cells.map symbolName
          names.contains variadicMark && (names.takeWhile (· != variadicMark)).length < args.length
  | _ => true

/-! ## Evaluation -/

def evalCells (ev : Draft → EvalM Draft) : List Draft → EvalM (Except Draft (List Draft))
  | [] => return .ok []
  | d :: rest => do
      let r ← ev d
      if r.isError then return .error r
      match ← evalCells ev rest with
      | .ok rs => return .ok (r :: rs)
      | .error e => return .error e

def eval (files : Files) : (depth : Nat) → Draft → EvalM Draft
  | 0, _ => EvalM.tooDeep
  | _ + 1, .atom (.symbol name) _ => return ofValue (← EvalM.lookup name)
  | depth + 1, .sexpr origin code => do
      match ← evalCells (eval files depth) code with
      | .error e => return e
      | .ok [] => return .sexpr origin []
      | .ok [d] => return d
      | .ok (function :: args) =>
          if function.type = .function then
            let (result, _) ←
              call files (BraceLisp.eval files depth) (eval files depth) function (.sexpr origin args)
            return result
          else return ofValue (Fault.notFunction (.text function.type.name)).toValue
  | _ + 1, d => return d

def evalEach (ev : Draft → EvalM Draft) : List Draft → EvalM (List Draft)
  | [] => return []
  | d :: rest => do
      let r ← ev d
      let rs ← evalEach ev rest
      return r :: rs

end BraceLisp.Draft
