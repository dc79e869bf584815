import BraceLisp.Eval.State

/-!
# Programs

A program is a list of forms, which are evaluated one after another whatever their values are. When all have
been evaluated, a line is printed for each that gave an error.
-/

namespace BraceLisp

def evalEach (ev : Value → EvalM Value) : List Value → EvalM (List Value)
  | [] => return []
  | v :: rest => do
      let r ← ev v
      let rs ← evalEach ev rest
      return r :: rs

def errorLines (results : List Value) : Bytes :=
  (results.filter Value.isError).flatMap fun v => v.render ++ Bytes.of "\n"

/-- Evaluates the forms of a program, then prints a line for each that gave an error. -/
def runProgram (ev : Value → EvalM Value) (forms : List Value) : EvalM Unit := do
  let results ← evalEach ev forms
  EvalM.emit (errorLines results)

end BraceLisp
