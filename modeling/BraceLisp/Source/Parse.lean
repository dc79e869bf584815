import BraceLisp.Source.Piece
import BraceLisp.Source.Tree

/-!
# Building trees

Tokens are read from left to right with a stack of the lists that are still open. The first token that
cannot be continued stops the reading with an error: an illegal token, a closing delimiter that fits
nothing or the wrong list, or the end of the text inside a list.
-/

namespace BraceLisp.Source

inductive Problem where
  | illegal (complaint : List Char)
  | stray (got : Delimiter)
  | mismatched (expected got : Delimiter)
  | unclosed (delimiter : Delimiter) (line column : Nat)
  | unreadable (reason : Bytes)
  deriving DecidableEq, Repr

namespace Problem

def quoted (c : Char) : List Char := ['"', c, '"']

def text : Problem → Bytes
  | .illegal complaint => Utf8.encode complaint
  | .stray got => Bytes.of "unexpected " ++ Utf8.encode (quoted got.closer)
  | .mismatched expected got =>
      Bytes.of "expected " ++ Utf8.encode (quoted expected.closer) ++
        Bytes.of " but got " ++ Utf8.encode (quoted got.closer)
  | .unclosed d line column =>
      Bytes.of "expected " ++ Utf8.encode (quoted d.closer) ++
        Bytes.of " to close " ++ Utf8.encode (quoted d.opener) ++
        Bytes.of " opened at line " ++ Utf8.encode (Decimal.ofNat line) ++
        Bytes.of ", column " ++ Utf8.encode (Decimal.ofNat column)
  | .unreadable reason => reason

end Problem

/--
An error in a source text: where it is and what it is. Columns are reported counting from 1; a file
that cannot be read has line and column 0.
-/
structure ParseError where
  source : Bytes
  line : Nat
  column : Nat
  problem : Problem
  deriving DecidableEq, Repr

namespace ParseError

def atToken (t : Token) (problem : Problem) : ParseError :=
  ⟨t.source, t.line, t.startColumn + 1, problem⟩

def message (e : ParseError) : Bytes :=
  let place :=
    if e.line = 0 then []
    else Bytes.of ":" ++ Utf8.encode (Decimal.ofNat e.line) ++
      Bytes.of ":" ++ Utf8.encode (Decimal.ofNat e.column)
  e.source ++ place ++ Bytes.of ": error: " ++ e.problem.text

end ParseError

/-- A list that is still open: its opening token, and the nodes before it, last first. -/
structure OpenList where
  delimiter : Delimiter
  token : Token
  before : List Node

namespace Root

/--
Reads tokens with a stack of open lists, innermost first; `nodes` are the nodes read so far of the
innermost one, last first. The result is the top-level forms.
-/
def formsFrom (stack : List OpenList) (nodes : List Node) : List Token → Except ParseError (List Node)
  | [] => .ok nodes.reverse
  | t :: rest =>
      match t.kind with
      | .number => formsFrom stack (.number t :: nodes) rest
      | .string => formsFrom stack (.string t :: nodes) rest
      | .symbol => formsFrom stack (.symbol t :: nodes) rest
      | .comment => formsFrom stack (.comment t :: nodes) rest
      | .opening d => formsFrom (⟨d, t, nodes⟩ :: stack) [] rest
      | .closing d =>
          match stack with
          | [] => .error (.atToken t (.stray d))
          | list :: outer =>
              if list.delimiter = d then
                formsFrom outer (.list d list.token nodes.reverse :: list.before) rest
              else .error (.atToken t (.mismatched list.delimiter d))
      | .illegal => .error (.atToken t (.illegal t.literal))
      | .eof =>
          match stack with
          | [] => .ok nodes.reverse
          | list :: _ =>
              .error (.atToken t
                (.unclosed list.delimiter list.token.line (list.token.startColumn + 1)))

def ofTokens (source : Bytes) (tokens : List Token) : Except ParseError Root := do
  let forms ← formsFrom [] [] tokens
  return ⟨tokens.headD (Token.atEnd source .start), forms⟩

def parse (source : Bytes) (text : List Char) : Except ParseError Root :=
  ofTokens source (Token.scan source text)

end Root

end BraceLisp.Source
