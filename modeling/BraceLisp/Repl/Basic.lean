import BraceLisp.Repl.Completion
import BraceLisp.Session.Basic

/-!
# The prompt

A line given to the prompt is evaluated in the session and its value printed. Lines that start with a colon
are commands to the prompt itself.
-/

namespace BraceLisp

/-- A session at the prompt: the last error that was printed and not yet explained, and whether to use colours. -/
structure Repl where
  session : Session
  lastError : Option Value
  colours : Bool
  deriving Inhabited, Repr

namespace Repl

def ofSession (session : Session) (colours : Bool) : Repl := ⟨session, none, colours⟩

def print (r : Repl) (text : Bytes) : Repl :=
  { r with session := r.session.print text }

def red (r : Repl) (text : Bytes) : Bytes := Banner.paint r.colours .red text

def lineSource : Bytes := Bytes.of "REPL input"

def commands : Bytes :=
  Bytes.of "\n" ++
    Banner.bullet ++ Bytes.of ":why  explain the last error\n" ++
    Banner.bullet ++ Bytes.of ":env  list the global names\n" ++
    Banner.bullet ++ Bytes.of ":help show this\n" ++
    Banner.bullet ++ Bytes.of ":quit leave\n\n"

def remark (text : Bytes) : Bytes :=
  Layout.wrap Banner.bulletWidth (Banner.rightMargin - Banner.bulletWidth) text ++ Bytes.of "\n"

def explain (r : Repl) : Repl :=
  match r.lastError with
  | some e =>
      let message := match e with
        | .error _ _ message => message
        | _ => []
      { r.print (Bytes.of "\n" ++ r.red (Bytes.of "Error: ") ++ message ++ Bytes.of "\n\n" ++
          remark e.explain) with lastError := none }
  | none => r.print (Banner.bullet ++ Bytes.of "There have been no errors.\n")

def printValue (r : Repl) (v : Value) : Repl :=
  if v.isError then
    { r.print (r.red v.render ++ Bytes.of "\n") with lastError := some v }
  else r.print (v.render ++ Bytes.of "\n")

inductive Command where
  | quit
  | why
  | env
  | help
  deriving DecidableEq, Repr

def Command.ofLine? (line : Bytes) : Option Command :=
  if line = Bytes.of ":quit" ∨ line = Bytes.of ":q" then some .quit
  else if line = Bytes.of ":why" then some .why
  else if line = Bytes.of ":env" then some .env
  else if line = Bytes.of ":help" ∨ line = Bytes.of ":h" then some .help
  else none

/-- Carries out a command, and says whether it was the last. -/
def command (r : Repl) (line : Bytes) : Bool × Repl :=
  match Command.ofLine? line with
  | some .quit => (true, r.print (Banner.paint r.colours .cyan (Bytes.of "Bye!") ++ Bytes.of "\n"))
  | some .why => (false, r.explain)
  | some .env =>
      let names := Completion.sorted (Bindings.names r.session.globals)
      (false, r.print (remark (Layout.separate (Bytes.of " ") names)))
  | some .help => (false, r.print commands)
  | none =>
      (false, r.print
        (r.red (Bytes.of "Unknown command " ++ Banner.emphasize line ++ Bytes.of ".") ++
          Bytes.of " Try " ++ Banner.emphasize (Bytes.of ":help") ++ Bytes.of ".\n"))

def colon : UInt8 := 0x3A

def line (files : Files) (depth : Nat) (r : Repl) (input : Bytes) : Option (Bool × Repl) :=
  match Layout.trim input with
  | [] => some (false, r)
  | b :: rest =>
      if b = colon then some (r.command (b :: rest))
      else match r.session.evalLine files depth lineSource (b :: rest) with
        | .error e => some (false, r.print (r.red e.message ++ Bytes.of "\n"))
        | .ok outcome => outcome.map fun (v, session) => (false, { r with session }.printValue v)

def complete? (r : Repl) (line : List Char) (cursor : Int) : Option (Bytes × List Bytes) :=
  Completion.complete? (Bindings.names r.session.globals) line cursor

end Repl

end BraceLisp
