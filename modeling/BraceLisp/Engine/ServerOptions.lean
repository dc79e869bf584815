import BraceLisp.Files.Path
import BraceLisp.Text.CharClass
import BraceLisp.Text.Quoted

/-!
# Options of a connection to a server

A server can also be named by options, each a name, an equals sign and a value, with blanks between them and
around equals signs. A value can stand in single quotes, and a backslash takes the character after it as it is.
Of two options with one name the last counts.
-/

namespace BraceLisp

inductive ServerOptionProblem where
  | noEquals (name : Bytes)
  | openQuote
  | nothingEscaped
  | badEncoding
  | badDateStyle (value : Bytes)
  | badSwitch (name value : Bytes)
  deriving DecidableEq, Repr

namespace ServerOptionProblem

def text : ServerOptionProblem → Bytes
  | .noEquals name =>
      Bytes.of "missing \"=\" after " ++ Quoted.text name ++ Bytes.of " in connection info string\""
  | .openQuote => Bytes.of "unterminated quoted string literal in connection string"
  | .nothingEscaped => Bytes.of "missing character after backslash"
  | .badEncoding => Bytes.of "client_encoding must be absent or 'UTF8'"
  | .badDateStyle value =>
      Bytes.of "setting datestyle must be absent or ISO, MDY; got " ++ value
  | .badSwitch name value => Bytes.of "unrecognized value " ++ Quoted.text value ++ Bytes.of " for " ++ name

end ServerOptionProblem

abbrev ServerOptions := List (Bytes × Bytes)

namespace ServerOptions

/-! ## Reading -/

def plainValue : List Char → Except ServerOptionProblem (List Char × List Char)
  | [] => .ok ([], [])
  | ['\\'] => .error .nothingEscaped
  | '\\' :: c :: rest => do
      let (value, rest) ← plainValue rest
      return (c :: value, rest)
  | c :: rest =>
      if CharClass.isSpace c then .ok ([], rest)
      else do
        let (value, rest) ← plainValue rest
        return (c :: value, rest)

def quotedValue : List Char → Except ServerOptionProblem (List Char × List Char)
  | [] => .error .openQuote
  | ['\\'] => .error .openQuote
  | '\'' :: rest => .ok ([], rest)
  | '\\' :: c :: rest => do
      let (value, rest) ← quotedValue rest
      return (c :: value, rest)
  | c :: rest => do
      let (value, rest) ← quotedValue rest
      return (c :: value, rest)

def readOne (text : List Char) : Except ServerOptionProblem ((Bytes × Bytes) × List Char) :=
  let inName (c : Char) : Bool := !CharClass.isSpace c && c != '='
  let name := Utf8.encode (text.takeWhile inName)
  match (text.dropWhile inName).dropWhile CharClass.isSpace with
  | '=' :: rest => do
      let (value, rest) ←
        match rest.dropWhile CharClass.isSpace with
        | '\'' :: rest => quotedValue rest
        | rest => plainValue rest
      return ((name, Utf8.encode value), rest)
  | _ => .error (.noEquals name)

def readFrom : (count : Nat) → List Char → Except ServerOptionProblem ServerOptions
  | 0, _ => .ok []
  | count + 1, text =>
      match text.dropWhile CharClass.isSpace with
      | [] => .ok []
      | c :: rest => do
          let (first, rest) ← readOne (c :: rest)
          return first :: (← readFrom count rest)

/-- The options of a text, of which there cannot be more than it has bytes. -/
def read (text : Bytes) : Except ServerOptionProblem ServerOptions :=
  readFrom text.length (Utf8.decode text)

/-! ## Checking -/

def value? (options : ServerOptions) (name : String) : Option Bytes :=
  (options.reverse.find? fun entry => entry.1 == Bytes.of name).map Prod.snd

/-- Whether a way to write text is the supported one: only letters and digits count, in either case. -/
def isSupportedEncoding (name : Bytes) : Bool :=
  let letters := (Utf8.decode name).filterMap fun c => if c.isAlphanum then some c.toLower else none
  letters = "utf8".toList || letters = "unicode".toList

def checkSwitch (options : ServerOptions) (name : String) : Except ServerOptionProblem Unit :=
  match options.value? name with
  | none => .ok ()
  | some value =>
      if value = Bytes.of "yes" ∨ value = Bytes.of "no" then .ok () else .error (.badSwitch (Bytes.of name) value)

def check (options : ServerOptions) : Except ServerOptionProblem Unit := do
  if let some name := options.value? "client_encoding" then
    if ¬ isSupportedEncoding name then throw .badEncoding
  if let some value := options.value? "datestyle" then
    if value ≠ Bytes.of "ISO, MDY" then throw (.badDateStyle value)
  options.checkSwitch "disable_prepared_binary_result"
  options.checkSwitch "binary_parameters"

def refusal (options : ServerOptions) : Bytes :=
  let host := (options.value? "host").getD (Bytes.of "localhost")
  let port := (options.value? "port").getD (Bytes.of "5432")
  if Path.isRooted host then
    Bytes.of "dial unix " ++ Path.inDirectory host (Bytes.of ".s.PGSQL." ++ port) ++
      Bytes.of ": connect: no such file or directory"
  else
    let host := if host = Bytes.of "localhost" then Bytes.of "127.0.0.1" else host
    Bytes.of "dial tcp " ++ host ++ Bytes.of ":" ++ port ++ Bytes.of ": connect: connection refused"

/-- What keeps a connection from being made that a text gives the options of, or names by a URL. -/
def complaint (text : Bytes) : Bytes :=
  if (Bytes.of "postgres://").isPrefixOf text ∨ (Bytes.of "postgresql://").isPrefixOf text then refusal []
  else
    let checked : Except ServerOptionProblem ServerOptions := do
      let options ← read text
      options.check
      return options
    match checked with
    | .ok options => options.refusal
    | .error problem => problem.text

end ServerOptions

end BraceLisp
