import BraceLisp.Text.Utf8

/-!
# Colours and fixed texts

What the program says about itself: its version, the banner of the interactive prompt, the help of
the command line, and the colours in which some of it appears.
-/

namespace BraceLisp.Banner

def version : Bytes := Bytes.of "1.0.0"

def bullet : Bytes := Bytes.of "  ▪ "

/-- The width of `bullet` on the screen, which is the left margin of longer remarks. -/
def bulletWidth : Nat := 4

def rightMargin : Int := 80

inductive Colour where
  | red
  | green
  | yellow
  | cyan
  deriving DecidableEq, Repr

def Colour.code : Colour → Bytes
  | .red => Bytes.of "31"
  | .green => Bytes.of "32"
  | .yellow => Bytes.of "33"
  | .cyan => Bytes.of "36"

def escapeByte : UInt8 := 0x1B

/-- A text in a colour, always with the codes around it. -/
def Colour.around (colour : Colour) (s : Bytes) : Bytes :=
  escapeByte :: Bytes.of "[" ++ colour.code ++ Bytes.of "m" ++ s ++ escapeByte :: Bytes.of "[0m"

def paint (colours : Bool) (colour : Colour) (s : Bytes) : Bytes :=
  if colours then colour.around s else s

def emphasize (s : Bytes) : Bytes :=
  Bytes.of "'" ++ s ++ Bytes.of "'"

def title : Bytes :=
  Bytes.of " The Sneed Programming Language, version " ++ version ++ Bytes.of " "

def logo (colours : Bool) : Bytes :=
  let bar := (List.replicate (title.length / 2) (Bytes.of "═")).flatten
  let heart := paint colours .red (Bytes.of "♥")
  Bytes.of "\n" ++
    Bytes.of "  ╔" ++ bar ++ heart ++ bar ++ Bytes.of "╗\n" ++
    Bytes.of "  ║" ++ title ++ Bytes.of "║\n" ++
    Bytes.of "  ╚" ++ bar ++ heart ++ bar ++ Bytes.of "╝\n\n" ++
    Bytes.of "Press Ctrl+c to exit, type " ++ emphasize (Bytes.of ":why") ++
    Bytes.of " to explain the last error.\n\n"

def help : Bytes := Bytes.of
  "\nUsage: sneed [flags] [file ...]\n\nWith no files, starts the REPL. Each file is loaded in turn into one global\nenvironment and any errors are printed.\n\nFlags are:\n\n"

end BraceLisp.Banner
