import BraceLisp.Prelude

/-!
# Sessions

A session is a global environment with what it has printed so far and the files it has parsed. Lines,
programs and batches of source text are evaluated in it one after another. How deep evaluation may nest is
for the caller to say; evaluation that goes deeper has no result.
-/

namespace BraceLisp

open Source

/-- A global environment, the output so far, and the parsed files. -/
structure Session where
  globals : Frame
  output : Output
  cache : ParseCache
  deriving Inhabited, Repr

namespace Session

def builtins : Frame :=
  Bindings.putAll (Builtin.bound.map fun (name, b) => (name, Value.builtin b)) []

def bare : Session := ⟨builtins, .empty, .empty⟩

def state (s : Session) : State := ⟨⟨[], s.globals⟩, s.output, s.cache⟩

def ofState (state : State) : Session := ⟨state.scope.root, state.output, state.cache⟩

def run {α : Type} (s : Session) (m : EvalM α) : Option (α × Session) :=
  (m s.state).map fun (a, state) => (a, ofState state)

def eval (files : Files) (depth : Nat) (s : Session) (v : Value) : Option (Value × Session) :=
  s.run (BraceLisp.eval files depth v)

def printed (s : Session) : Bytes := s.output.text

def print (s : Session) (text : Bytes) : Session :=
  { s with output := s.output.add text }

def clearOutput (s : Session) : Session :=
  { s with output := .empty }

/-! ## Source text -/

def parse (source text : Bytes) : Except ParseError Root :=
  Root.parse source (Utf8.decode text)

def evalForms (files : Files) (depth : Nat) (s : Session) (forms : List Value) :
    Option (List Value × Session) :=
  s.run (evalEach (BraceLisp.eval files depth) forms)

/-- Evaluates a line, the whole of which is one S-expression. -/
def evalLine (files : Files) (depth : Nat) (s : Session) (source line : Bytes) :
    Except ParseError (Option (Value × Session)) :=
  (parse source line).map fun root => s.eval files depth root.read

def evalProgram (files : Files) (depth : Nat) (s : Session) (source text : Bytes) :
    Except ParseError (Option (List Value × Session)) :=
  (parse source text).map fun root => s.evalForms files depth root.program

def batchSource : Bytes := Bytes.of "standard input"

/-- Evaluates the forms of a program and prints the errors among their values. -/
def runBatch (files : Files) (depth : Nat) (s : Session) (text : Bytes) :
    Except ParseError (Option Session) :=
  (parse batchSource text).map fun root =>
    (s.run (runProgram (BraceLisp.eval files depth) root.program)).map Prod.snd

/-! ## The prelude -/

def preludeComplaint? (results : List Value) : Option Bytes :=
  results.findSome? fun v => match v with
    | .error _ _ message => some (Bytes.of "error in prelude: " ++ message)
    | _ => none

/-- Evaluates the forms of a prelude, and tells what went wrong with it if anything did. -/
def loadForms (files : Files) (depth : Nat) (s : Session) :
    Except ParseError (List Value) → Option (Option Bytes × Session)
  | .error e => some (some (Bytes.of "can't parse prelude: " ++ e.message), s)
  | .ok forms => do
      let (results, s) ← s.evalForms files depth forms
      return (preludeComplaint? results, s)

def loadPrelude (files : Files) (depth : Nat) (s : Session) : Option (Option Bytes × Session) :=
  s.loadForms files depth Prelude.forms

def start (depth : Nat) (withPrelude : Bool) : Option Session :=
  if withPrelude then (bare.loadPrelude (fun _ => .missing) depth).map Prod.snd else some bare

end Session

end BraceLisp
