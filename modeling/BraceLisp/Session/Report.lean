import BraceLisp.Session.Basic

/-!
# Reports on lines

Short reports on what a line does in a session, of the sort that examples of the language are checked
against: its value, the kind of error it gives, or what it prints together with its value.
-/

namespace BraceLisp.Session

open Source

inductive ReportError where
  | unparsed (e : ParseError)
  | noError (v : Value)
  deriving Repr

def noErrorMessage (v : Value) : Bytes :=
  Bytes.of "unexpected successful evaluation returned " ++ Banner.emphasize v.render

def reportSource : Bytes := Bytes.of "test"

/-- A report, or the reason why there is none, with the session afterwards. -/
abbrev Report := Except ReportError Bytes × Session

def reportWith (files : Files) (depth : Nat) (s : Session) (line : Bytes)
    (report : Value → Session → Except ReportError Bytes) : Option Report :=
  match s.evalLine files depth reportSource line with
  | .error e => some (.error (.unparsed e), s)
  | .ok outcome => outcome.map fun (v, s) => (report v s, s)

def reportValue (files : Files) (depth : Nat) (s : Session) (line : Bytes) : Option Report :=
  s.reportWith files depth line fun v _ => .ok v.render

def reportKind (files : Files) (depth : Nat) (s : Session) (line : Bytes) : Option Report :=
  s.reportWith files depth line fun v _ => match v with
    | .error kind _ _ => .ok kind.name
    | v => .error (.noError v)

def withoutLastLineFeed (text : Bytes) : Bytes :=
  if text.getLast? = some Layout.lineFeed then text.dropLast else text

def reportOutput (files : Files) (depth : Nat) (s : Session) (line : Bytes) : Option Report :=
  s.clearOutput.reportWith files depth line fun v s =>
    .ok (withoutLastLineFeed s.printed ++ Bytes.of " => " ++ v.render)

end BraceLisp.Session
