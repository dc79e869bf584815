import BraceLisp.Positional.Eval
import BraceLisp.Proofs.Session.Reachable
import BraceLisp.Repl.Basic

/-!
# Sessions by position

What a session makes of its inputs, and the prompt of a line, by evaluation that can break down. What is shown at
the prompt in a paragraph of its own is filled between margins, which breaks down if the left one is negative.
-/

namespace BraceLisp.Positional

open Source

def run {α : Type} (s : Session) (c : FragileM α) : Option (Except Breakdown (α × Session)) :=
  (c s.state).run.map fun outcome => outcome.map fun (a, state) => (a, Session.ofState state)

/-- Runs a computation with the values of the forms of a text; a text that cannot be parsed changes nothing. -/
def runForms (s : Session) (source : Bytes) (text : List Char) (c : List Value → FragileM (List Value)) :
    Option (Except Breakdown (List Value × Session)) :=
  match parse source text with
  | .error b => some (.error b)
  | .ok (.error _) => some (.ok ([], s))
  | .ok (.ok root) => run s (settled (readCells root.forms) >>= c)

def respond (files : Files) (depth : Nat) (s : Session) : Input → Option (Except Breakdown (List Value × Session))
  | .line source text => runForms s source (Utf8.decode text) fun values => do
      let v ← eval files depth (.sexpr values)
      return [v]
  | .program source text => runForms s source (Utf8.decode text) fun forms => evalEach (eval files depth) forms
  | .batch text => runForms s Session.batchSource (Utf8.decode text) fun forms => do
      runProgram (eval files depth) forms
      return []
  | .load path => run s do
      let v ← apply files (eval files depth) .load [.string path]
      return [v]
  | .prelude => runForms s Prelude.sourceName Prelude.text fun forms => do
      let _ ← evalEach (eval files depth) forms
      return []

/-! ## The prompt -/

def remark (text : Bytes) : Except Breakdown Bytes :=
  match Layout.wrap? (Int64.ofNat Banner.bulletWidth) (Int64.ofInt Banner.rightMargin) text with
  | some filled => .ok (filled ++ Bytes.of "\n")
  | none => .error .negativeCount

def explain (r : Repl) (e : Value) : Except Breakdown Repl := do
  let message := match e with
    | .error _ _ message => message
    | _ => []
  let explanation ← remark e.explain
  return { r.print (Bytes.of "\n" ++ r.red (Bytes.of "Error: ") ++ message ++ Bytes.of "\n\n" ++ explanation) with
    lastError := none }

def command (r : Repl) (line : Bytes) : Except Breakdown (Bool × Repl) :=
  match Repl.Command.ofLine? line, r.lastError with
  | some .why, some e => do
      let r ← explain r e
      return (false, r)
  | some .env, _ => do
      let names := Completion.sorted (Bindings.names r.session.globals)
      let listed ← remark (Layout.separate (Bytes.of " ") names)
      return (false, r.print listed)
  | _, _ => return r.command line

def printValue (r : Repl) (v : Value) : Except Breakdown Repl := do
  let text ← render v
  if v.isError then return { r.print (r.red text ++ Bytes.of "\n") with lastError := some v }
  else return r.print (text ++ Bytes.of "\n")

def line (files : Files) (depth : Nat) (r : Repl) (input : Bytes) : Option (Except Breakdown (Bool × Repl)) :=
  match Layout.trim input with
  | [] => some (.ok (false, r))
  | b :: rest =>
      if b = Repl.colon then some (command r (b :: rest))
      else match parse Repl.lineSource (Utf8.decode (b :: rest)) with
        | .error broken => some (.error broken)
        | .ok (.error e) => some (.ok (false, r.print (r.red e.message ++ Bytes.of "\n")))
        | .ok (.ok root) =>
            (run r.session (settled (readCells root.forms) >>= fun values => eval files depth (.sexpr values))).map
              fun outcome => do
                let (v, session) ← outcome
                let r ← printValue { r with session } v
                return (false, r)

end BraceLisp.Positional
