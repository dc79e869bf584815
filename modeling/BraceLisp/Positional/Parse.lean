import BraceLisp.Proofs.Positional.Scan
import BraceLisp.Source.Parse

/-!
# Trees by position

All tokens of a text, one after another up to its end, and the tree that they make.
-/

namespace BraceLisp.Positional

open Source

namespace Supplier

def scan (source : Bytes) (s : Supplier) : Except Breakdown (List Token) :=
  match _hnext : s.nextToken source with
  | .error b => .error b
  | .ok (t, u) =>
      if _hkind : t.kind = .eof then return [t]
      else do
        let rest ← scan source u
        return t :: rest
termination_by s.cursor.rest.length
decreasing_by
  obtain ⟨v, hok, hcursor⟩ := nextToken_eq source s
  obtain ⟨rfl, rfl⟩ := Prod.mk.inj (Except.ok.inj (_hnext.symm.trans hok))
  rw [hcursor]
  exact length_rest_nextToken_lt _hkind

theorem scan_eq (source : Bytes) (s : Supplier) :
    s.scan source = .ok (Token.place source s.cursor.position (Piece.cut s.cursor.rest)) := by
  fun_induction scan source s with
  | case1 s b hnext =>
      obtain ⟨v, hok, -⟩ := nextToken_eq source s
      cases hnext.symm.trans hok
  | case2 s t u hnext hkind =>
      obtain ⟨v, hok, -⟩ := nextToken_eq source s
      obtain ⟨rfl, rfl⟩ := Prod.mk.inj (Except.ok.inj (hnext.symm.trans hok))
      rcases Cursor.place_cut source s.cursor with ⟨-, -, hplace⟩ | ⟨hmore, -⟩
      · rw [hplace]
        rfl
      · exact absurd hkind hmore
  | case3 s t u hnext hkind ih =>
      obtain ⟨v, hok, hcursor⟩ := nextToken_eq source s
      obtain ⟨rfl, rfl⟩ := Prod.mk.inj (Except.ok.inj (hnext.symm.trans hok))
      rcases Cursor.place_cut source s.cursor with ⟨hend, -, -⟩ | ⟨-, hplace⟩
      · exact absurd hend hkind
      · rw [ih, hplace, hcursor]
        rfl

end Supplier

def parse (source : Bytes) (text : List Char) : Except Breakdown (Except ParseError Root) := do
  let tokens ← (Supplier.ofText text).scan source
  return Root.ofTokens source tokens

theorem parse_eq (source : Bytes) (text : List Char) : parse source text = .ok (Root.parse source text) := by
  rw [parse, Supplier.scan_eq]
  rfl

end BraceLisp.Positional
