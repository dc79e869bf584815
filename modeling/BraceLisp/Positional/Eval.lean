import BraceLisp.Eval.Basic
import BraceLisp.Positional.Operation
import BraceLisp.Positional.Parse
import BraceLisp.Positional.Read

/-!
# Evaluation by position

Evaluation once more, with cells, formals and arguments popped and looked at by position. Whatever breaks down
inside an evaluation breaks it down as a whole.
-/

namespace BraceLisp.Positional

/-- A computation that changes the state and has a result, unless it breaks down or goes too deep. -/
abbrev FragileM := StateT State (ExceptT Breakdown Option)

def firm {α : Type} (m : EvalM α) : FragileM α :=
  fun s => (m s).map Except.ok

instance : MonadLift EvalM FragileM := ⟨firm⟩

def settled {α : Type} (outcome : Except Breakdown α) : FragileM α :=
  fun s => some (outcome.map fun a => (a, s))

instance : MonadLift (Except Breakdown) FragileM := ⟨settled⟩

def tooDeep {α : Type} : FragileM α := fun _ => none

/-! ## Binding -/

inductive Binding where
  | saturated (own : Frame)
  | waiting (formals : List Value) (own : Frame)
  | failed (error : Value)

/-- Binds all arguments that are left to the formal behind the mark. -/
def bindRest (formals args : List Value) (own : Frame) : Except Breakdown Binding := do
  let (_, formals) ← pop formals 0
  if formals.length ≠ 1 then
    let e ← raise (Bytes.of "call/variadic/a") []
    return .failed e
  else
    let (formal, _) ← pop formals 0
    return .saturated (Bindings.put formal.symbolName (.qexpr args) own)

def bindExhausted (formals : List Value) (own : Frame) : Except Breakdown Binding :=
  if formals.length = 0 then return .saturated own
  else do
    let first ← cell formals 0
    if first.symbolName ≠ variadicMark then return .waiting formals own
    else if formals.length ≠ 2 then
      let e ← raise (Bytes.of "call/variadic/b") []
      return .failed e
    else
      let (_, formals) ← pop formals 0
      let (formal, _) ← pop formals 0
      return .saturated (Bindings.put formal.symbolName (.qexpr []) own)

/-- Binds arguments to formals one by one. `given` and `total` are how many of each there were at the start. -/
def bindNext (given total : Nat) (formals args : List Value) (own : Frame) : Except Breakdown Binding :=
  if args.length = 0 then bindExhausted formals own
  else if formals.length = 0 then do
    let e ← raise (Bytes.of "call/arity") [.int given, .int total]
    return .failed e
  else do
    let first ← cell formals 0
    if first.symbolName = variadicMark then bindRest formals args own
    else
      match _h : pop formals 0 with
      | .error b => .error b
      | .ok (formal, formals) =>
          let (arg, args) ← pop args 0
          bindNext given total formals args (Bindings.put formal.symbolName arg own)
termination_by formals.length
decreasing_by exact length_lt_of_pop _h

/-! ## Builtins -/

def guarded {α : Type} (check : Checked α) (go : α → FragileM Value) : FragileM Value := do
  match ← settled check.run with
  | .ok x => go x
  | .error e => return e

def chooseBranch (args : List Value) : Checked (List Value) := do
  checkCount Builtin.branch.name args 3
  checkType Builtin.branch.name args 0 .number
  checkType Builtin.branch.name args 1 .qexpr
  checkType Builtin.branch.name args 2 .qexpr
  let condition ← cell args 0
  let (branch, _) ← pop args (if numberOf condition ≠ 0 then 1 else 2)
  return branch.cells

def bindable (b : Builtin) (symbols : List Value) (given : Nat) : Checked (List Value) := do
  checkSymbols (Bytes.of "built/var/symbols") [.text b.name] symbols
  if symbols.length = given then return symbols
  else complain (Bytes.of "built/var/count") [.text b.name, .int given, .int symbols.length]

def definedSymbols (b : Builtin) (args : List Value) : Checked (List Value) := do
  if args.length = 0 then complain (Bytes.of "built/var/none") [.text b.name]
  else
    checkType b.name args 0 .qexpr
    let symbols ← cell args 0
    bindable b symbols.cells (args.length - 1)

/-- Binds symbols one after another, each to the argument at its own position behind the list of them. -/
def bindEach (bind : List (Bytes × Value) → Scope → Scope) (args : List Value) :
    List Value → (i : Nat) → FragileM Unit
  | [], _ => return ()
  | symbol :: rest, i => do
      let v ← settled (cell args (i + 1))
      firm (EvalM.modifyScope (bind [(symbol.symbolName, v)]))
      bindEach bind args rest (i + 1)

def parseFile (files : Files) (path : Bytes) : FragileM (Except Source.ParseError ParsedFile) := do
  match (files path).contents path with
  | .error reason => return .error (ParseCache.unreadable path reason)
  | .ok (content, modified) =>
      let s ← get
      match s.cache.find? ⟨path, content.length, modified⟩ with
      | some entry =>
          set { s with cache := s.cache.touch entry }
          return .ok entry
      | none =>
          match ← settled (parse path (Utf8.decode content)) with
          | .error e => return .error e
          | .ok root =>
              let entry : ParsedFile := ⟨⟨path, content.length, modified⟩, s.cache.parsed, root⟩
              set { s with cache := s.cache.add entry }
              return .ok entry

section

variable (files : Files) (ev : Value → FragileM Value)

/-- The values of some forms, popped one after another. -/
def evalEach (forms : List Value) : FragileM (List Value) :=
  drain (fun results v => do return results ++ [← ev v]) [] forms

def runProgram (forms : List Value) : FragileM Unit := do
  let results ← evalEach ev forms
  let lines ← settled (renderLines (results.filter Value.isError))
  firm (EvalM.emit lines)

def loadFile (path : Bytes) : FragileM Value := do
  match ← parseFile files path with
  | .error e => settled (raise (Bytes.of "built/load") [.text e.message])
  | .ok parsed =>
      let forms ← settled (readCells parsed.root.forms)
      runProgram ev forms
      return .sexpr []

def apply (b : Builtin) (args : List Value) : FragileM Value :=
  match b with
  | .operation op => guarded (compute op args) fun v => return v
  | .eval => guarded (oneList b.name args) fun code => ev (.sexpr code)
  | .branch => guarded (chooseBranch args) fun code => ev (.sexpr code)
  | .define => guarded (definedSymbols b args) fun symbols => do
      bindEach (fun bindings scope => scope.define bindings) args symbols 0
      return .sexpr []
  | .assign => guarded (definedSymbols b args) fun symbols => do
      bindEach (fun bindings scope => scope.assign bindings) args symbols 0
      return .sexpr []
  | .print => do
      let texts ← settled (renderAll args)
      firm (EvalM.emit (Layout.separate (Bytes.of " ") texts ++ Bytes.of "\n"))
      return .sexpr []
  | .load => guarded (oneString b.name args) fun path => loadFile files ev path

/-! ## Evaluation -/

def lookup (name : Bytes) : FragileM Value := do
  let s ← get
  match s.scope.get? name with
  | some v => return v
  | none => settled (raise (Bytes.of "eval/sym/unbound") [.text name])

def call (function : Value) (args : List Value) : FragileM Value :=
  match function with
  | .builtin b => apply files ev b args
  | .closure formals body own entered => do
      match ← settled (bindNext args.length formals.cells.length formals.cells args own) with
      | .failed e => return e
      | .waiting left own => return .closure (formals.withCells left) body own entered
      | .saturated own => do
          firm (EvalM.enter own)
          let result ← ev (.sexpr body.cells)
          let _ ← firm EvalM.leave
          return result
  | _ => settled (.error .notCallable)

/-- Puts values in the place of cells from a position on, up to the first error, which is then popped. -/
def evalFrom (cells : List Value) (i : Nat) : FragileM (Except Value (List Value)) :=
  if i < cells.length then do
    let v ← settled (cell cells i)
    let r ← ev v
    if r.isError then
      let (e, _) ← settled (pop (cells.set i r) i)
      return .error e
    else evalFrom (cells.set i r) (i + 1)
  else return .ok cells
termination_by cells.length - i
decreasing_by
  rw [List.length_set]
  omega

def reduce : Value → FragileM Value
  | .symbol name => lookup name
  | .sexpr cells => do
      match ← evalFrom ev cells 0 with
      | .error e => return e
      | .ok cells =>
          if cells.length = 0 then return .sexpr cells
          else if cells.length = 1 then
            let (v, _) ← settled (pop cells 0)
            return v
          else
            let (function, args) ← settled (pop cells 0)
            if function.type ≠ .function then
              settled (raise (Bytes.of "eval/sexpr/func") [.text function.type.name])
            else call files ev function args
  | v => return v

end

def eval (files : Files) : (depth : Nat) → Value → FragileM Value
  | 0, _ => tooDeep
  | depth + 1, v => reduce files (eval files depth) v

end BraceLisp.Positional
