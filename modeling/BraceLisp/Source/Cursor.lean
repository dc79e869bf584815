import BraceLisp.Source.Token

/-!
# A cursor in a text

Walking through a text one character at a time, with the place in it. Past the end the cursor shows
NUL and stays where it is.
-/

namespace BraceLisp.Source

/-- What is left of a text, and the place where it starts. -/
structure Cursor where
  rest : List Char
  position : Position
  deriving DecidableEq, Repr

namespace Cursor

def ofText (text : List Char) : Cursor := ⟨text, .start⟩

def current (c : Cursor) : Char := c.rest.headD '\x00'

def peek (c : Cursor) : Char := c.rest.tail.headD '\x00'

def atEnd (c : Cursor) : Bool := c.rest.isEmpty

def next (c : Cursor) : Cursor :=
  match c.rest with
  | [] => c
  | d :: rest => ⟨rest, c.position.next d⟩

end Cursor

end BraceLisp.Source
