import BraceLisp.History.Driver
import BraceLisp.Session.Basic
import BraceLisp.Settings.Config

/-!
# The command

What a run of the program prints and how it ends, given its arguments, the variables of its environment, its
standard input and the files it finds. Without files to load, standard input is run as a batch, or lines are
taken at the prompt if there is someone to type them.
-/

namespace BraceLisp.Command

structure Outcome where
  output : Bytes
  errors : Bytes
  code : Nat
  deriving DecidableEq, Repr

/-! ## The log -/

def needsQuotes (s : Bytes) : Bool :=
  s.any fun b => b < 0x20 || b > 0x7E || b == 0x20 || b == 0x5C || b == 0x22

/-- A text as it appears in the log; stray bytes become U+FFFD. -/
def logText (s : Bytes) : Bytes :=
  let s := Utf8.encode (Utf8.decode s)
  if needsQuotes s then Quoted.text s else s

def logLine (colours : Bool) (message name value : Bytes) : Bytes :=
  Banner.paint colours .yellow (Bytes.of "DBG") ++ Bytes.of " " ++ message ++ Bytes.of " " ++
    Banner.paint colours .cyan (name ++ Bytes.of "=") ++ value ++ Bytes.of "\n"

def log (config : Config) (message name value : Bytes) : Bytes :=
  if config.debug then logLine (!config.noColor) message name value else []

/-! ## Runs -/

def loadAll (files : Files) (depth : Nat) (config : Config) (colours : Bool) :
    Session → List Bytes → Option (Bytes × Session)
  | s, [] => some ([], s)
  | s, path :: rest => do
      let entry := log config (Bytes.of "loading") (Bytes.of "file") (logText path)
      let (result, s) ← s.run
        (Builtin.load.apply files (eval files depth) [.string path])
      let complaint := Banner.paint colours .red result.render ++ Bytes.of "\n"
      let s := if result.isError then s.print complaint else s
      let (entries, s) ← loadAll files depth config colours s rest
      return (entry ++ entries, s)

def startSession (depth : Nat) (config : Config) : Option (Bytes × Session) := do
  let s ← Session.start depth (!config.noPrelude)
  let count := Utf8.encode (Decimal.ofNat s.globals.length)
  let entry := log config (Bytes.of "loaded prelude") (Bytes.of "names") count
  return (if config.noPrelude then [] else entry, s)

/-- Whether output is in colour: if it goes to a terminal and nothing speaks against it. -/
def usesColours (config : Config) (terminal : Bool) : Bool :=
  terminal && !config.noColor

/-- Runs the files of a configuration, or standard input if there are none. -/
def runConfig (files : Files) (depth : Nat) (config : Config) (terminal : Bool) (input : Bytes) :
    Option Outcome := do
  let colours := usesColours config terminal
  let (started, s) ← startSession depth config
  if config.files.isEmpty then
    match s.runBatch files depth input with
    | .error e =>
        return ⟨s.printed, started ++ Banner.paint colours .red e.message ++ Bytes.of "\n", 1⟩
    | .ok outcome => do
        let s ← outcome
        return ⟨s.printed, started, 0⟩
  else
    let (loaded, s) ← loadAll files depth config colours s config.files
    return ⟨s.printed, started ++ loaded, 0⟩

def helpText : Bytes :=
  Banner.help ++ Flag.usage ++ Bytes.of "\n" ++ Driver.options

/-- What the arguments ask for: something that is done at once, or a run with a configuration. -/
inductive Plan where
  | finished (outcome : Outcome)
  | proceed (config : Config)

def plan (arguments : List Bytes) (valueOf : Bytes → Bytes) : Plan :=
  match Config.parse arguments valueOf with
  | .error e => .finished ⟨[], e.message ++ Bytes.of "\n" ++ Banner.help, 2⟩
  | .ok config =>
      if config.help then .finished ⟨helpText, [], 0⟩
      else if config.version then
        .finished ⟨Bytes.of "sneed version " ++ Banner.version ++ Bytes.of "\n", [], 0⟩
      else .proceed config

/-- Runs the program with standard input that nobody types. -/
def run (files : Files) (depth : Nat) (arguments : List Bytes) (valueOf : Bytes → Bytes)
    (terminal : Bool) (input : Bytes) : Option Outcome :=
  match plan arguments valueOf with
  | .finished outcome => some outcome
  | .proceed config => runConfig files depth config terminal input

end BraceLisp.Command
