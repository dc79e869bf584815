import BraceLisp.Text.Decimal
import BraceLisp.Text.Quoted

/-!
# Tokens

A token is a piece of source text that means something, with the place where it stands. Text that
starts no token, and a string that is never closed, give an illegal token whose literal is the
complaint about it.
-/

namespace BraceLisp.Source

/-- The two pairs of delimiters: parentheses around S-expressions, braces around Q-expressions. -/
inductive Delimiter where
  | paren
  | brace
  deriving DecidableEq, Repr

namespace Delimiter

def opener : Delimiter → Char
  | .paren => '('
  | .brace => '{'

def closer : Delimiter → Char
  | .paren => ')'
  | .brace => '}'

end Delimiter

inductive Kind where
  | illegal
  | eof
  | number
  | string
  | symbol
  | comment
  | opening (delimiter : Delimiter)
  | closing (delimiter : Delimiter)
  deriving DecidableEq, Repr

namespace Kind

def all : List Kind :=
  [.illegal, .eof, .number, .string, .symbol, .comment, .opening .paren, .closing .paren,
   .opening .brace, .closing .brace]

/-- The name of a kind; a delimiter is its own name. -/
def name : Kind → List Char
  | .illegal => "ILLEGAL".toList
  | .eof => "EOF".toList
  | .number => "number".toList
  | .string => "string".toList
  | .symbol => "symbol".toList
  | .comment => "comment".toList
  | .opening d => [d.opener]
  | .closing d => [d.closer]

def ofName? (name : List Char) : Option Kind :=
  all.find? fun kind => kind.name == name

/-- The kind that closes an opening delimiter; nothing closes any other kind. -/
def closer : Kind → Kind
  | .opening d => .closing d
  | _ => .illegal

def closerOfName (name : List Char) : List Char :=
  (((ofName? name).map closer).getD .illegal).name

end Kind

/-- A place in a text: the line, counting from 1, and the column, counting characters from 0. -/
structure Position where
  line : Nat
  column : Nat
  deriving DecidableEq, Repr

namespace Position

def start : Position := ⟨1, 0⟩

def next (p : Position) (c : Char) : Position :=
  if c = '\n' then ⟨p.line + 1, 0⟩ else ⟨p.line, p.column + 1⟩

def after (p : Position) (text : List Char) : Position :=
  text.foldl next p

end Position

/--
A token: its kind, its literal, the line and column where it starts, the column where it ends, and
the name of the text it comes from.
-/
structure Token where
  kind : Kind
  literal : List Char
  line : Nat
  startColumn : Nat
  endColumn : Nat
  source : Bytes
  deriving DecidableEq, Repr

namespace Token

def describe (t : Token) : Bytes :=
  Bytes.of "\x7bType:" ++ Utf8.encode t.kind.name ++
    Bytes.of " Literal:" ++ Utf8.encode t.literal ++
    Bytes.of " Line:" ++ Utf8.encode (Decimal.ofNat t.line) ++
    Bytes.of " ChStart:" ++ Utf8.encode (Decimal.ofNat t.startColumn) ++
    Bytes.of " ChEnd:" ++ Utf8.encode (Decimal.ofNat t.endColumn) ++
    Bytes.of " Source:" ++ t.source ++ Bytes.of "\x7d\n"

end Token

end BraceLisp.Source
