import BraceLisp.Eval.Binding
import BraceLisp.Eval.Builtin

/-!
# Evaluation

Symbols are looked up, S-expressions are applied, and every other value is its own value. The cells of an
S-expression are evaluated from the left up to the first that gives an error, which is then the result. A
closure that has all its arguments is evaluated in a frame of its own, hung below the scope of the call:
free names of its body mean what they mean to the caller.

One step of evaluation is `reduce`, which is given the evaluator for what is nested inside; `eval` ties the
knot up to a given depth.
-/

namespace BraceLisp

/-- The values of the cells of an S-expression, or the first error among them. -/
def evalCells (ev : Value → EvalM Value) : List Value → EvalM (Except Value (List Value))
  | [] => return .ok []
  | v :: rest => do
      let r ← ev v
      if r.isError then return .error r
      match ← evalCells ev rest with
      | .ok rs => return .ok (r :: rs)
      | .error e => return .error e

/--
Calls a function with evaluated arguments. The result comes with the function as the call leaves it: a
closure has used up formals, has new bindings, and is marked as entered if its body was evaluated.
-/
def call (files : Files) (ev : Value → EvalM Value) (function : Value) (args : List Value) :
    EvalM (Value × Value) :=
  match function with
  | .builtin b => do
      let result ← b.apply files ev args
      return (result, function)
  | .closure formals body own entered =>
      match Bound.ofCall formals.cells args own with
      | .failed fault left own =>
          return (fault.toValue, .closure (formals.withCells left) body own entered)
      | .waiting left own =>
          let waiting := .closure (formals.withCells left) body own entered
          return (waiting, waiting)
      | .saturated own => do
          EvalM.enter own
          let result ← ev (.sexpr body.cells)
          let own ← EvalM.leave
          return (result, .closure (formals.withCells []) body own true)
  | v => return ((Fault.notFunction (.text v.type.name)).toValue, v)

def applyCells (files : Files) (ev : Value → EvalM Value) : List Value → EvalM Value
  | [] => return .sexpr []
  | [v] => return v
  | function :: args => do
      let (result, _) ← call files ev function args
      return result

/-- One step of evaluation; `ev` evaluates what is nested inside. -/
def reduce (files : Files) (ev : Value → EvalM Value) : Value → EvalM Value
  | .symbol name => EvalM.lookup name
  | .sexpr cells => do
      match ← evalCells ev cells with
      | .ok values => applyCells files ev values
      | .error e => return e
  | v => return v

/-- Evaluates a value, with nesting up to a given depth. -/
def eval (files : Files) : (depth : Nat) → Value → EvalM Value
  | 0, _ => EvalM.tooDeep
  | depth + 1, v => reduce files (eval files depth) v

/-- How deep evaluation may nest where there is no reason to say otherwise. -/
def defaultDepth : Nat := 1000000000

end BraceLisp
