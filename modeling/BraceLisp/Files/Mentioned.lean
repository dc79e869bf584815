import BraceLisp.Source.Piece
import BraceLisp.Source.Read

/-!
# Paths that a program can load

The language has no way to make a string out of others, so every path that a program loads stands in a string
literal of some text that it is given. Those who supply the files need look for no others.
-/

namespace BraceLisp.Source

def mentionedStrings (text : List Char) : List Bytes :=
  (Token.scan [] text).filterMap fun t =>
    match t.kind, readString t.literal with
    | .string, .string s => some s
    | _, _ => none

end BraceLisp.Source
