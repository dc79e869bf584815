import BraceLisp.Text.Layout

/-!
# The flags of the command line

Each flag has a long name and a line of help; some have a letter for short. A switch is on or off and a
setting takes a text.
-/

namespace BraceLisp

inductive Flag where
  | debug
  | help
  | historyDriver
  | historyDsn
  | noColor
  | noHistory
  | noPrelude
  | version
  deriving DecidableEq, Repr

namespace Flag

def all : List Flag :=
  [.debug, .help, .historyDriver, .historyDsn, .noColor, .noHistory, .noPrelude, .version]

def name : Flag → Bytes
  | .debug => Bytes.of "debug"
  | .help => Bytes.of "help"
  | .historyDriver => Bytes.of "history-driver"
  | .historyDsn => Bytes.of "history-dsn"
  | .noColor => Bytes.of "no-color"
  | .noHistory => Bytes.of "no-history"
  | .noPrelude => Bytes.of "no-prelude"
  | .version => Bytes.of "version"

def letter? : Flag → Option UInt8
  | .help => some 0x68
  | .version => some 0x76
  | _ => none

/-- Whether a flag is on or off rather than a text. -/
def isSwitch : Flag → Bool
  | .historyDriver => false
  | .historyDsn => false
  | _ => true

def purpose : Flag → Bytes
  | .debug => Bytes.of "log at debug level"
  | .help => Bytes.of "print this help and exit"
  | .historyDriver => Bytes.of
      "SQL driver for the REPL history: sqlite, mysql, postgres, sqlserver, firebirdsql or oracle"
  | .historyDsn => Bytes.of "data source name for the REPL history"
  | .noColor => Bytes.of "don't use colour in output"
  | .noHistory => Bytes.of "keep REPL history in memory only"
  | .noPrelude => Bytes.of "don't load the prelude"
  | .version => Bytes.of "print the version and exit"

def ofName? (name : Bytes) : Option Flag :=
  all.find? fun flag => flag.name == name

def ofLetter? (letter : UInt8) : Option Flag :=
  all.find? fun flag => flag.letter? == some letter

def spelling (flag : Flag) : Bytes :=
  match flag.letter? with
  | some letter => Bytes.of "-" ++ [letter] ++ Bytes.of ", --" ++ flag.name
  | none => Bytes.of "--" ++ flag.name

def usageHead (flag : Flag) : Bytes :=
  let margin := if flag.letter?.isSome then Bytes.of "  " else Bytes.of "      "
  margin ++ flag.spelling ++ (if flag.isSwitch then [] else Bytes.of " string")

def usage : Bytes :=
  let width := all.foldl (fun n flag => max n flag.usageHead.length) 0
  all.flatMap fun flag =>
    let head := flag.usageHead
    head ++ List.replicate (width - head.length + 3) Layout.space ++ flag.purpose ++ Bytes.of "\n"

end Flag

end BraceLisp
