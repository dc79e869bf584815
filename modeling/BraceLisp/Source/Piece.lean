import BraceLisp.Source.Token
import BraceLisp.Text.CharClass

/-!
# Cutting source text into pieces

A text is cut from left to right into pieces: runs of blanks, and lexemes, each as long as it can be.
No character is lost, so the pieces written one after another are the text again. Tokens are the
lexemes with their places, followed by one for the end of the text.
-/

namespace BraceLisp.Source

/-- A run of blanks or a lexeme, with the characters it takes up. -/
inductive Piece where
  | blanks (text : List Char)
  | lexeme (kind : Kind) (text : List Char)
  deriving DecidableEq, Repr

namespace Piece

open CharClass

def text : Piece → List Char
  | .blanks text => text
  | .lexeme _ text => text

/--
What follows the opening quote of a string, up to and including the closing quote. A backslash takes
the character after it along. `none` if the string is never closed.
-/
def stringTail? : List Char → Option (List Char)
  | [] => none
  | [c] => if c = '"' then some [c] else none
  | c :: d :: rest =>
      if c = '"' then some [c]
      else if c = '\\' then (stringTail? rest).map (c :: d :: ·)
      else (stringTail? (d :: rest)).map (c :: ·)

/-- Whether a number starts here: at a digit, or at a minus sign with a digit after it. -/
def startsNumber (c : Char) (rest : List Char) : Bool :=
  isDigit c || (c == '-' && (rest.head?.any isDigit))

def delimiterKind? (c : Char) : Option Kind :=
  if c = '(' then some (.opening .paren)
  else if c = ')' then some (.closing .paren)
  else if c = '{' then some (.opening .brace)
  else if c = '}' then some (.closing .brace)
  else none

def front (c : Char) (rest : List Char) : Piece :=
  if isBlank c then .blanks (c :: rest.takeWhile isBlank)
  else match delimiterKind? c with
    | some kind => .lexeme kind [c]
    | none =>
        if c = ';' then .lexeme .comment (c :: rest.takeWhile fun d => !isLineEnd d)
        else if c = '"' then
          match stringTail? rest with
          | some tail => .lexeme .string (c :: tail)
          | none => .lexeme .illegal (c :: rest)
        else if startsNumber c rest then .lexeme .number (c :: rest.takeWhile isDigit)
        else if isSymbolChar c then .lexeme .symbol (c :: rest.takeWhile isSymbolChar)
        else .lexeme .illegal [c]

/-- Cuts a text into pieces after passing over `skip` characters of a piece already cut. -/
def cutFrom : Nat → List Char → List Piece
  | _, [] => []
  | skip + 1, _ :: rest => cutFrom skip rest
  | 0, c :: rest =>
      let piece := front c rest
      piece :: cutFrom (piece.text.length - 1) rest

def cut (text : List Char) : List Piece :=
  cutFrom 0 text

/-! ## Nothing is lost -/

/-- What closes a string stands at the front of what follows its opening quote. -/
theorem stringTail?_isPrefix {rest tail : List Char} (h : stringTail? rest = some tail) : tail <+: rest := by
  fun_induction stringTail? rest generalizing tail with
  | case1 => simp at h
  | case2 => simp_all
  | case3 => simp at h
  | case4 rest =>
      obtain rfl : ['"'] = tail := by simpa using h
      exact ⟨_, rfl⟩
  | case5 d rest _ ih =>
      obtain ⟨t, ht, rfl⟩ := Option.map_eq_some_iff.1 h
      exact List.prefix_cons_inj _ |>.2 (List.prefix_cons_inj _ |>.2 (ih ht))
  | case6 c d rest _ _ ih =>
      obtain ⟨t, ht, rfl⟩ := Option.map_eq_some_iff.1 h
      exact List.prefix_cons_inj _ |>.2 (ih ht)

/-- A piece takes up the character it starts with and a run of those that follow. -/
theorem text_front (c : Char) (rest : List Char) : ∃ t, (front c rest).text = c :: t ∧ t <+: rest := by
  unfold front
  split
  · exact ⟨_, rfl, List.takeWhile_prefix _⟩
  · split
    · exact ⟨[], rfl, List.nil_prefix⟩
    · split
      · exact ⟨_, rfl, List.takeWhile_prefix _⟩
      · split
        · split
          · rename_i h
            exact ⟨_, rfl, stringTail?_isPrefix h⟩
          · exact ⟨_, rfl, List.prefix_rfl⟩
        · split
          · exact ⟨_, rfl, List.takeWhile_prefix _⟩
          · split
            · exact ⟨_, rfl, List.takeWhile_prefix _⟩
            · exact ⟨[], rfl, List.nil_prefix⟩

/-! ## Literals -/

/-- The complaint about a lexeme that is no token: it is an open string, or a single character. -/
def complaint : List Char → List Char
  | c :: _ =>
      if c = '"' then "unterminated string".toList
      else "unexpected character ".toList ++ Quoted.char c
  | [] => []

def literal (kind : Kind) (text : List Char) : List Char :=
  match kind with
  | .illegal => complaint text
  | _ => text

end Piece

namespace Token

def ofLexeme (source : Bytes) (p : Position) (kind : Kind) (text : List Char) : Token :=
  { kind
    literal := Piece.literal kind text
    line := p.line
    startColumn := p.column
    endColumn := (p.after text).column
    source }

def atEnd (source : Bytes) (p : Position) : Token :=
  { kind := .eof, literal := [], line := p.line, startColumn := p.column, endColumn := p.column, source }

def place (source : Bytes) : Position → List Piece → List Token
  | p, [] => [atEnd source p]
  | p, .blanks text :: rest => place source (p.after text) rest
  | p, .lexeme kind text :: rest =>
      ofLexeme source p kind text :: place source (p.after text) rest

/-- The tokens of a text, of which the last and only the last is the end of the text. -/
def scan (source : Bytes) (text : List Char) : List Token :=
  place source .start (Piece.cut text)

def describeAll (source : Bytes) (text : List Char) : Bytes :=
  ((scan source text).filter fun t => t.kind != .eof).flatMap describe

end Token

end BraceLisp.Source
