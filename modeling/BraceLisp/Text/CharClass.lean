/-!
# Classes of characters

The characters that the language tells apart when it cuts source text into pieces, and the wider
class of white space that lines of input are trimmed of and words are separated by.
-/

namespace BraceLisp.CharClass

def isDigit (c : Char) : Bool :=
  '0' ≤ c && c ≤ '9'

def isLetter (c : Char) : Bool :=
  'a' ≤ c && c ≤ 'z' || 'A' ≤ c && c ≤ 'Z'

/-- The characters besides letters and digits of which symbols are made. -/
def symbolMarks : List Char :=
  ['_', '+', '-', '*', '/', '\\', '=', '<', '>', '!', '&']

def isSymbolChar (c : Char) : Bool :=
  isLetter c || isDigit c || symbolMarks.contains c

/-- A character that separates the pieces of source text and means nothing itself. -/
def isBlank (c : Char) : Bool :=
  c == ' ' || c == '\t' || c == '\n' || c == '\r' || c == '\x0c' || c == '\x0b'

def isLineEnd (c : Char) : Bool :=
  c == '\n' || c == '\r'

/-- White space in the sense of the Unicode property of that name. -/
def isSpace (c : Char) : Bool :=
  let n := c.toNat
  (0x09 ≤ n && n ≤ 0x0D) || n == 0x20 || n == 0x85 || n == 0xA0 || n == 0x1680 ||
    (0x2000 ≤ n && n ≤ 0x200A) || n == 0x2028 || n == 0x2029 || n == 0x202F || n == 0x205F ||
    n == 0x3000

def ofCode? (code : Int) : Option Char :=
  if 0 ≤ code ∧ code.toNat.isValidChar then some (Char.ofNat code.toNat) else none

def holdsOfCode (isMember : Char → Bool) (code : Int) : Bool :=
  (ofCode? code).any isMember

end BraceLisp.CharClass
