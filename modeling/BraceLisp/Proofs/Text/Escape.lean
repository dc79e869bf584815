import BraceLisp.Text.Escape
import BraceLisp.Text.Utf8.RoundTrip

/-!
# Escapes, character by character

Escapes are resolved byte by byte, but whole characters stay whole: no byte of a longer character is a
backslash or a mark. So escapes can be resolved in characters as well, with the same result, and what escaping
has written is read back.
-/

namespace BraceLisp.Escape

open Utf8

def markedChar? (m : Char) : Option Char :=
  (table.find? fun entry => entry.2 == m).map Prod.fst

def unescapeChars : List Char → List Char
  | [] => []
  | [c] => [c]
  | c :: m :: rest =>
      if c = '\\' then
        match markedChar? m with
        | some d => d :: unescapeChars rest
        | none => c :: unescapeChars (m :: rest)
      else c :: unescapeChars (m :: rest)

/-! ## Characters and bytes -/

theorem encodeChar_of_lt {c : Char} (h : c.toNat < 0x80) : encodeChar c = [UInt8.ofNat c.toNat] := by
  simp only [encodeChar, h, if_true]

/-- All bytes of other characters are at least 128. -/
theorem le_toNat_of_mem_encodeChar {c : Char} (h : 0x80 ≤ c.toNat) {b : UInt8} (hb : b ∈ encodeChar c) :
    0x80 ≤ b.toNat := by
  have hbyte {n : Nat} (hleast : 0x80 ≤ n) (hless : n < 256) : 0x80 ≤ (UInt8.ofNat n).toNat := by
    rw [toNat_ofNat_of_lt hless]
    exact hleast
  have hrange := toNat_range c
  simp only [encodeChar, Nat.not_lt.mpr h, if_false] at hb
  split at hb
  · simp only [List.mem_cons, List.not_mem_nil, or_false] at hb
    rcases hb with rfl | rfl
    · exact hbyte (by omega) (by omega)
    · exact hbyte (by omega) (by omega)
  · split at hb
    · simp only [List.mem_cons, List.not_mem_nil, or_false] at hb
      rcases hb with rfl | rfl | rfl
      · exact hbyte (by omega) (by omega)
      · exact hbyte (by omega) (by omega)
      · exact hbyte (by omega) (by omega)
    · simp only [List.mem_cons, List.not_mem_nil, or_false] at hb
      rcases hb with rfl | rfl | rfl | rfl
      · exact hbyte (by omega) (by omega)
      · exact hbyte (by omega) (by omega)
      · exact hbyte (by omega) (by omega)
      · exact hbyte (by omega) (by omega)

/-- A byte below 128 is a character of its own. -/
theorem toNat_eq_of_mem_encodeChar {c : Char} {b : UInt8} (hb : b ∈ encodeChar c) (hsmall : b.toNat < 0x80) :
    c.toNat = b.toNat := by
  by_cases h : c.toNat < 0x80
  · rw [encodeChar_of_lt h, List.mem_singleton] at hb
    rw [hb, toNat_ofNat_of_lt (by omega)]
  · exact absurd (le_toNat_of_mem_encodeChar (Nat.not_lt.mp h) hb) (Nat.not_le.mpr hsmall)

theorem ne_backslash_of_mem_encodeChar {c : Char} (h : c ≠ '\\') {b : UInt8} (hb : b ∈ encodeChar c) :
    b ≠ backslash := by
  rintro rfl
  have hcode : c.toNat = '\\'.toNat := toNat_eq_of_mem_encodeChar hb (by decide)
  have hchar := congrArg Char.ofNat hcode
  rw [Char.ofNat_toNat, Char.ofNat_toNat] at hchar
  exact h hchar

theorem toNat_lt_of_marked? {b d : UInt8} (h : marked? b = some d) : b.toNat < 0x80 := by
  obtain ⟨entry, hfind, -⟩ := Option.map_eq_some_iff.mp h
  have hmark : UInt8.ofNat entry.2.toNat = b := by simpa using List.find?_some hfind
  have hsmall : ∀ entry ∈ table, (UInt8.ofNat entry.2.toNat).toNat < 0x80 := by decide
  exact hmark ▸ hsmall entry (List.mem_of_find?_eq_some hfind)

theorem marked?_ofNat {m : Char} (h : m.toNat < 0x80) :
    marked? (UInt8.ofNat m.toNat) = (markedChar? m).map fun d => UInt8.ofNat d.toNat := by
  have hall : ∀ n : Fin 0x80, marked? (UInt8.ofNat n) =
      (markedChar? (Char.ofNat n)).map fun d => UInt8.ofNat d.toNat := by decide
  have hm := hall ⟨m.toNat, h⟩
  rwa [Char.ofNat_toNat] at hm

theorem toNat_lt_of_markedChar? {m d : Char} (h : markedChar? m = some d) : m.toNat < 0x80 ∧ d.toNat < 0x80 := by
  obtain ⟨entry, hfind, rfl⟩ := Option.map_eq_some_iff.mp h
  obtain rfl : entry.2 = m := by simpa using List.find?_some hfind
  have hsmall : ∀ entry ∈ table, entry.2.toNat < 0x80 ∧ entry.1.toNat < 0x80 := by decide
  exact hsmall entry (List.mem_of_find?_eq_some hfind)

/-! ## Resolving escapes -/

theorem unescape_cons {b : UInt8} (h : b ≠ backslash) (rest : Bytes) : unescape (b :: rest) = b :: unescape rest := by
  cases rest with
  | nil => rfl
  | cons m rest => simp only [unescape, h, if_false]

theorem unescape_append {s : Bytes} (h : ∀ b ∈ s, b ≠ backslash) (rest : Bytes) :
    unescape (s ++ rest) = s ++ unescape rest := by
  induction s with
  | nil => rfl
  | cons b s ih =>
      obtain ⟨hb, hs⟩ := List.forall_mem_cons.mp h
      rw [List.cons_append, unescape_cons hb, ih hs, List.cons_append]

/-- A backslash before a character that is no mark stays as it is. -/
theorem unescape_backslash_encode {m : Char} (h : markedChar? m = none) (rest : List Char) :
    unescape (backslash :: encode (m :: rest)) = backslash :: unescape (encode (m :: rest)) := by
  obtain ⟨b, tail, hm, -⟩ := leading?_encodeChar m []
  have hb : marked? b = none := by
    by_cases hsmall : m.toNat < 0x80
    · rw [encodeChar_of_lt hsmall] at hm
      obtain ⟨rfl, -⟩ := List.cons.inj hm
      rw [marked?_ofNat hsmall, h, Option.map_none]
    · cases hmarked : marked? b with
      | none => rfl
      | some d =>
          have hlarge := le_toNat_of_mem_encodeChar (Nat.not_lt.mp hsmall) (hm ▸ List.mem_cons_self)
          exact absurd (toNat_lt_of_marked? hmarked) (Nat.not_lt.mpr hlarge)
  rw [encode, List.flatMap_cons, hm, List.cons_append]
  simp only [unescape, if_true, hb]

/-- Resolving escapes in bytes is resolving them in characters. -/
theorem unescape_encode (text : List Char) : unescape (encode text) = encode (unescapeChars text) := by
  have hplain {c : Char} (hc : c ≠ '\\') (rest : List Char) :
      unescape (encode (c :: rest)) = encodeChar c ++ unescape (encode rest) := by
    rw [encode, List.flatMap_cons]
    exact unescape_append (fun b => ne_backslash_of_mem_encodeChar hc) _
  fun_induction unescapeChars text with
  | case1 => rfl
  | case2 c =>
      by_cases hc : c = '\\'
      · subst hc
        rfl
      · exact hplain hc []
  | case3 m rest d hd ih =>
      obtain ⟨hm, hsmall⟩ := toNat_lt_of_markedChar? hd
      have hbyte := marked?_ofNat hm
      rw [hd] at hbyte
      have hleft : encode ('\\' :: m :: rest) = backslash :: UInt8.ofNat m.toNat :: encode rest := by
        rw [encode, List.flatMap_cons, List.flatMap_cons, encodeChar_of_lt hm]
        rfl
      rw [hleft]
      simp only [unescape, if_true, hbyte, Option.map_some, ih]
      rw [encode, encode, List.flatMap_cons, encodeChar_of_lt hsmall]
      rfl
  | case4 m rest hm ih =>
      have hleft : encode ('\\' :: m :: rest) = backslash :: encode (m :: rest) := rfl
      rw [hleft, unescape_backslash_encode hm, ih]
      rfl
  | case5 c m rest hc ih =>
      rw [hplain hc, ih]
      rfl

/-! ## What escaping has written -/

/-- A character stands for itself if it is not escaped, and then it is neither a backslash nor a quote. -/
theorem escapeChar_cases (c : Char) :
    (∃ m, escapeChar c = ['\\', m] ∧ markedChar? m = some c) ∨ escapeChar c = [c] ∧ c ≠ '\\' ∧ c ≠ '"' := by
  unfold escapeChar
  cases hmark : mark? c with
  | some m =>
      refine .inl ⟨m, rfl, ?_⟩
      obtain ⟨entry, hfind, rfl⟩ := Option.map_eq_some_iff.mp hmark
      obtain rfl : entry.1 = c := by simpa using List.find?_some hfind
      have hinverse : ∀ entry ∈ table, markedChar? entry.2 = some entry.1 := by decide
      exact hinverse entry (List.mem_of_find?_eq_some hfind)
  | none =>
      refine .inr ⟨rfl, ?_, ?_⟩
      · rintro rfl
        exact absurd hmark (by decide)
      · rintro rfl
        exact absurd hmark (by decide)

/-- What was escaped is read back. -/
theorem unescapeChars_escape (text : List Char) : unescapeChars (text.flatMap escapeChar) = text := by
  induction text with
  | nil => rfl
  | cons c rest ih =>
      rw [List.flatMap_cons]
      rcases escapeChar_cases c with ⟨m, hescape, hm⟩ | ⟨hescape, hbackslash, -⟩
      · rw [hescape]
        simp only [List.cons_append, List.nil_append, unescapeChars, if_true, hm, ih]
      · rw [hescape, List.singleton_append]
        cases hrest : rest.flatMap escapeChar with
        | nil =>
            rw [hrest] at ih
            rw [← ih]
            rfl
        | cons d tail =>
            rw [hrest] at ih
            simp only [unescapeChars, hbackslash, if_false, ih]

end BraceLisp.Escape
