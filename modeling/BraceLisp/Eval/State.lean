import BraceLisp.Environment.Scope
import BraceLisp.Fault.Basic
import BraceLisp.Files.ParseCache
import BraceLisp.Text.Output
import BraceLisp.Value.Print

/-!
# What evaluation changes

Evaluation runs in a state: the scope, what has been printed, and the parsed files. A computation may also
fail to come to an end within the depth it is allowed, and then has no result at all.
-/

namespace BraceLisp

structure State where
  scope : Scope
  output : Output
  cache : ParseCache
  deriving Inhabited, Repr

/-- A computation that changes the state and has a result, unless it goes too deep. -/
abbrev EvalM := StateT State Option

namespace EvalM

def tooDeep {α : Type} : EvalM α := fun _ => none

def emit (s : Bytes) : EvalM Unit :=
  modify fun state => { state with output := state.output.add s }

def modifyScope (f : Scope → Scope) : EvalM Unit :=
  modify fun state => { state with scope := f state.scope }

def lookup (name : Bytes) : EvalM Value := do
  match (← get).scope.get? name with
  | some v => return v
  | none => return (Fault.unbound (.text name)).toValue

def enter (frame : Frame) : EvalM Unit :=
  modifyScope fun scope => scope.enter frame

def leave : EvalM Frame :=
  modifyGet fun state =>
    let (frame, scope) := state.scope.leave
    (frame, { state with scope })

def parseFile (files : Files) (path : Bytes) : EvalM (Except Source.ParseError ParsedFile) :=
  modifyGet fun state =>
    let (result, cache) := state.cache.parseFile files path
    (result, { state with cache })

end EvalM

end BraceLisp
