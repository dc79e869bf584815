import BraceLisp.Fault.Basic
import BraceLisp.Source.Tree
import BraceLisp.Text.Escape
import BraceLisp.Value.Number

/-!
# From trees to values

The value that a tree denotes: parentheses make S-expressions, braces make Q-expressions, and comments
disappear. A number that does not fit in 64 bits becomes an error in its place; nothing else can go
wrong.
-/

namespace BraceLisp.Source

def readNumber (literal : List Char) : Value :=
  match Number.ofInt? (Decimal.toInt literal) with
  | some n => .number n
  | none => (Fault.badNumber (.text (Utf8.encode literal))).toValue

/-- The value of a string literal, which has its quotes around it. -/
def readString (literal : List Char) : Value :=
  .string (Escape.unescape (Utf8.encode literal.tail.dropLast))

def Delimiter.list : Delimiter → List Value → Value
  | .paren => .sexpr
  | .brace => .qexpr

namespace Node

mutual

/-- The value of a node; a comment has none. -/
def read? : Node → Option Value
  | .comment _ => none
  | .number t => some (readNumber t.literal)
  | .string t => some (readString t.literal)
  | .symbol t => some (.symbol (Utf8.encode t.literal))
  | .list d _ cells => some (d.list (readAll cells))

def readAll : List Node → List Value
  | [] => []
  | node :: rest =>
      match read? node with
      | some v => v :: readAll rest
      | none => readAll rest

end

end Node

namespace Root

def program (root : Root) : List Value :=
  Node.readAll root.forms

def read (root : Root) : Value :=
  .sexpr root.program

end Root

end BraceLisp.Source
