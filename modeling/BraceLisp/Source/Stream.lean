import BraceLisp.Source.Cursor
import BraceLisp.Source.Piece

/-!
# Tokens one at a time

A cursor gives the token in front of it, blanks passed over, and moves behind that token. At the end of the text
it gives the end for ever.
-/

namespace BraceLisp.Source.Cursor

def skip (c : Cursor) : Nat → Cursor
  | 0 => c
  | n + 1 => c.next.skip n

/-- The text behind the cursor is what is left when as many characters are taken off. -/
@[simp] theorem rest_skip (c : Cursor) (n : Nat) : (c.skip n).rest = c.rest.drop n := by
  induction n generalizing c with
  | zero => rfl
  | succ n ih =>
      rw [skip, ih, next]
      cases hrest : c.rest with
      | nil => simp [hrest]
      | cons d rest => rfl

/-- A lexeme or a run of blanks at the front of a text is not empty. -/
theorem length_drop_front_lt (d : Char) (rest : List Char) :
    ((d :: rest).drop (Piece.front d rest).text.length).length < (d :: rest).length := by
  obtain ⟨t, ht, -⟩ := Piece.text_front d rest
  rw [ht, List.length_cons, List.drop_succ_cons, List.length_drop, List.length_cons]
  omega

def nextToken (source : Bytes) (c : Cursor) : Token × Cursor :=
  match _hrest : c.rest with
  | [] => (Token.atEnd source c.position, c)
  | d :: rest =>
      match _hfront : Piece.front d rest with
      | .blanks text =>
          nextToken source (c.skip text.length)
      | .lexeme kind text => (Token.ofLexeme source c.position kind text, c.skip text.length)
termination_by c.rest.length
decreasing_by
  have hlength := length_drop_front_lt d rest
  rw [_hfront] at hlength
  rw [rest_skip, _hrest]
  exact hlength

def afterTokens (source : Bytes) (c : Cursor) : Nat → Cursor
  | 0 => c
  | n + 1 => (c.nextToken source).2.afterTokens source n

variable {source : Bytes} {c : Cursor} {d : Char} {rest text : List Char}

theorem nextToken_of_nil (h : c.rest = []) : c.nextToken source = (Token.atEnd source c.position, c) := by
  rw [nextToken]
  split
  · rfl
  · rename_i hcons
    cases h.symm.trans hcons

theorem nextToken_of_blanks (h : c.rest = d :: rest) (hfront : Piece.front d rest = .blanks text) :
    c.nextToken source = (c.skip text.length).nextToken source := by
  rw [nextToken]
  split
  · rename_i hnil
    cases h.symm.trans hnil
  · rename_i d' rest' hcons
    obtain ⟨rfl, rfl⟩ := List.cons.inj (h.symm.trans hcons)
    split
    · rename_i text' htext
      obtain rfl := Piece.blanks.inj (hfront.symm.trans htext)
      rfl
    · rename_i hlexeme
      cases hfront.symm.trans hlexeme

theorem nextToken_of_lexeme {kind : Kind} (h : c.rest = d :: rest) (hfront : Piece.front d rest = .lexeme kind text) :
    c.nextToken source = (Token.ofLexeme source c.position kind text, c.skip text.length) := by
  rw [nextToken]
  split
  · rename_i hnil
    cases h.symm.trans hnil
  · rename_i d' rest' hcons
    obtain ⟨rfl, rfl⟩ := List.cons.inj (h.symm.trans hcons)
    split
    · rename_i hblanks
      cases hfront.symm.trans hblanks
    · rename_i kind' text' hlexeme
      obtain ⟨rfl, rfl⟩ := Piece.lexeme.inj (hfront.symm.trans hlexeme)
      rfl

end BraceLisp.Source.Cursor
