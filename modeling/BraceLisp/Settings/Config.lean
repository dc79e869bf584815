import BraceLisp.Files.Path
import BraceLisp.Settings.Flag
import BraceLisp.Text.Quoted

/-!
# Configuration

What the command line and the environment say about how a run should go. Flags and files may be mixed; two
dashes alone end the flags. The last setting of a flag counts, and where none is given the environment may
supply one.
-/

namespace BraceLisp

structure Config where
  historyDriver : Bytes := []
  historyDsn : Bytes := []
  noHistory : Bool := false
  noPrelude : Bool := false
  noColor : Bool := false
  debug : Bool := false
  version : Bool := false
  help : Bool := false
  files : List Bytes := []
  deriving DecidableEq, Repr, Inhabited

inductive FlagError where
  | unknownFlag (name : Bytes)
  | badForm (argument : Bytes)
  | needsArgument (argument : Bytes)
  | unknownLetter (letter : UInt8) (letters : Bytes)
  | badSwitch (flag : Flag) (value : Bytes)
  deriving DecidableEq, Repr

namespace FlagError

def text : FlagError → Bytes
  | .unknownFlag name => Bytes.of "unknown flag: --" ++ name
  | .badForm argument => Bytes.of "bad flag syntax: " ++ argument
  | .needsArgument argument => Bytes.of "flag needs an argument: " ++ argument
  | .unknownLetter letter letters =>
      Bytes.of "unknown shorthand flag: " ++ Utf8.encode (Quoted.char (Char.ofNat letter.toNat)) ++
        Bytes.of " in -" ++ letters
  | .badSwitch flag value =>
      Bytes.of "invalid argument " ++ Quoted.text value ++ Bytes.of " for " ++
        Quoted.text flag.spelling ++ Bytes.of " flag: strconv.ParseBool: parsing " ++
        Quoted.text value ++ Bytes.of ": invalid syntax"

def message (e : FlagError) : Bytes :=
  Bytes.of "can't parse command line: " ++ e.text

end FlagError

namespace Config

def readSwitch? (value : Bytes) : Option Bool :=
  if ["1", "t", "T", "TRUE", "true", "True"].any fun s => Bytes.of s == value then some true
  else if ["0", "f", "F", "FALSE", "false", "False"].any fun s => Bytes.of s == value then some false
  else none

def setSwitch (config : Config) (flag : Flag) (on : Bool) : Config :=
  match flag with
  | .debug => { config with debug := on }
  | .help => { config with help := on }
  | .noColor => { config with noColor := on }
  | .noHistory => { config with noHistory := on }
  | .noPrelude => { config with noPrelude := on }
  | .version => { config with version := on }
  | .historyDriver => config
  | .historyDsn => config

def set (config : Config) (flag : Flag) (value : Bytes) : Except FlagError Config :=
  match flag with
  | .historyDriver => .ok { config with historyDriver := value }
  | .historyDsn => .ok { config with historyDsn := value }
  | flag =>
      match readSwitch? value with
      | some on => .ok (config.setSwitch flag on)
      | none => .error (.badSwitch flag value)

def hyphen : UInt8 := 0x2D

def equals : UInt8 := 0x3D

/-- The value of a switch that is given without one. -/
def switchedOn : Bytes := Bytes.of "true"

/-- Reads the letters after a single hyphen. The last may be given a value after an equals sign. -/
def readLetters (config : Config) : Bytes → Except FlagError Config
  | [] => .ok config
  | letter :: rest =>
      match Flag.ofLetter? letter with
      | none => .error (.unknownLetter letter (letter :: rest))
      | some flag =>
          match rest with
          | sign :: b :: more =>
              if sign = equals then config.set flag (b :: more)
              else do readLetters (← config.set flag switchedOn) (sign :: b :: more)
          | rest => do readLetters (← config.set flag switchedOn) rest

/-- What a long flag says: a flag with its value, or a flag whose value is the next argument. -/
inductive LongFlag where
  | given (flag : Flag) (value : Bytes)
  | wanting (flag : Flag)

def readLong (body : Bytes) : Except FlagError LongFlag :=
  let argument := hyphen :: hyphen :: body
  if body.head? = none ∨ body.head? = some hyphen ∨ body.head? = some equals then
    .error (.badForm argument)
  else
    let name := body.takeWhile fun b => b != equals
    match Flag.ofName? name, body.dropWhile fun b => b != equals with
    | none, _ => .error (.unknownFlag name)
    | some flag, _ :: value => .ok (.given flag value)
    | some flag, [] =>
        if flag.isSwitch then .ok (.given flag switchedOn) else .ok (.wanting flag)

inductive Argument where
  | file
  | endOfFlags
  | long (body : Bytes)
  | letters (letters : Bytes)

def Argument.of : Bytes → Argument
  | a :: b :: rest =>
      if a = hyphen then
        if b = hyphen then (if rest.isEmpty then .endOfFlags else .long rest)
        else .letters (b :: rest)
      else .file
  | _ => .file

def readArguments (config : Config) : List Bytes → Except FlagError Config
  | [] => .ok config
  | argument :: rest =>
      match Argument.of argument with
      | .file => readArguments { config with files := config.files ++ [argument] } rest
      | .endOfFlags => .ok { config with files := config.files ++ rest }
      | .letters letters => do readArguments (← config.readLetters letters) rest
      | .long body => do
          match ← readLong body with
          | .given flag value => readArguments (← config.set flag value) rest
          | .wanting flag =>
              match rest with
              | value :: rest => readArguments (← config.set flag value) rest
              | [] => .error (.needsArgument argument)

def defaultDriver : Bytes := Bytes.of "sqlite"

def orElse (first second : Bytes) : Bytes :=
  if first.isEmpty then second else first

/-- Fills in what the flags leave open from the variables of the environment. -/
def withVariables (config : Config) (valueOf : Bytes → Bytes) : Config :=
  { config with
    historyDriver := orElse config.historyDriver
      (orElse (valueOf (Bytes.of "SNEED_HISTORY_DRIVER")) defaultDriver)
    historyDsn := orElse config.historyDsn (valueOf (Bytes.of "SNEED_HISTORY_DSN")) }

def parse (arguments : List Bytes) (valueOf : Bytes → Bytes) : Except FlagError Config := do
  let config ← readArguments {} arguments
  return config.withVariables valueOf

def historyFile : Bytes := Bytes.of ".sneed_history.db"

/-- Where history is kept when nothing says where, given the home directory. -/
def defaultDsn (home : Bytes) : Except Bytes Bytes :=
  if home.isEmpty then .error (Bytes.of "can't find home directory: $HOME is not defined")
  else .ok (Path.inDirectory home historyFile)

end Config

end BraceLisp
