import BraceLisp.Source.Token

/-!
# Trees of source text

A tree has one node for each number, string, symbol, comment and list of the text, in order. Written
out, a tree leaves its comments out and puts single spaces between neighbours, so that it reads back as
the same program.
-/

namespace BraceLisp.Source

/-- A node of a tree. The token of a list is its opening delimiter. -/
inductive Node where
  | comment (token : Token)
  | number (token : Token)
  | string (token : Token)
  | symbol (token : Token)
  | list (delimiter : Delimiter) (token : Token) (cells : List Node)
  deriving Repr

/-- The tree of a whole text: its first token and its top-level forms. -/
structure Root where
  token : Token
  forms : List Node
  deriving Repr

namespace Node

def token : Node → Token
  | .comment t | .number t | .string t | .symbol t | .list _ t _ => t

def children : Node → List Node
  | .list _ _ cells => cells
  | _ => []

def isComment : Node → Bool
  | .comment _ => true
  | _ => false

def spaced : List (List Char) → List Char
  | [] => []
  | [part] => part
  | part :: rest => part ++ ' ' :: spaced rest

mutual

def render : Node → List Char
  | .comment t => t.literal
  | .number t => t.literal
  | .string t => t.literal
  | .symbol t => t.literal
  | .list d _ cells => d.opener :: spaced (renderCells cells) ++ [d.closer]

/-- The nodes of a list written out, without the comments. -/
def renderCells : List Node → List (List Char)
  | [] => []
  | .comment _ :: rest => renderCells rest
  | node :: rest => render node :: renderCells rest

end

end Node

namespace Root

def render (root : Root) : List Char :=
  Node.spaced (Node.renderCells root.forms)

end Root

end BraceLisp.Source
