import BraceLisp.Eval.Operation
import BraceLisp.Eval.Program
import BraceLisp.Source.Read

/-!
# What builtins do

Besides the operations there are builtins that evaluate code, bind names, print, and load files. They are given
the evaluator, and act on the scope of the call.
-/

namespace BraceLisp.Builtin

def chooseBranch (args : List Value) : Except Fault (List Value) := do
  let (condition, yes, no) ← Arguments.numberAndTwoLists branch.name args
  return if condition = 0 then no else yes

def definitions (b : Builtin) : List Value → Except Fault (List (Bytes × Value))
  | [] => .error (.varNone (.text b.name))
  | names :: values => do
      let symbols ← Arguments.list b.name 0 names
      match firstNonSymbol? symbols with
      | some symbol => .error (.varSymbols (.text b.name) (.text symbol.type.name))
      | none =>
          if symbols.length = values.length then
            return (symbols.map Value.symbolName).zip values
          else .error (.varCount (.text b.name) (.int values.length) (.int symbols.length))

def printedLine (args : List Value) : Bytes :=
  Layout.separate (Bytes.of " ") (Value.renderAll args) ++ Bytes.of "\n"

def guarded {α : Type} (check : Except Fault α) (go : α → EvalM Value) : EvalM Value :=
  match check with
  | .ok x => go x
  | .error fault => return fault.toValue

/-- Evaluates the forms of a file in the calling scope. -/
def loadFile (files : Files) (ev : Value → EvalM Value) (path : Bytes) : EvalM Value := do
  match ← EvalM.parseFile files path with
  | .error e => return (Fault.load (.text e.message)).toValue
  | .ok parsed =>
      runProgram ev parsed.root.program
      return .sexpr []

def apply (files : Files) (ev : Value → EvalM Value) (b : Builtin) (args : List Value) : EvalM Value :=
  match b with
  | .operation op => guarded (op.compute args) fun v => return v
  | .eval => guarded (Arguments.oneList b.name args) fun code => ev (.sexpr code)
  | .branch => guarded (chooseBranch args) fun code => ev (.sexpr code)
  | .define => guarded (b.definitions args) fun bindings => do
      EvalM.modifyScope fun scope => scope.define bindings
      return .sexpr []
  | .assign => guarded (b.definitions args) fun bindings => do
      EvalM.modifyScope fun scope => scope.assign bindings
      return .sexpr []
  | .print => do
      EvalM.emit (printedLine args)
      return .sexpr []
  | .load => guarded (Arguments.oneString b.name args) fun path => loadFile files ev path

end BraceLisp.Builtin
