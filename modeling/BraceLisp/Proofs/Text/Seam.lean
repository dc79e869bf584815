import BraceLisp.Proofs.Text.Escape

/-!
# Bytes after one another

What bytes mean depends on those behind them only as far as a character may go on there. In front of a byte that
no character goes on with, any bytes are read as they are read alone, even if they break off inside a character.
-/

namespace BraceLisp.Utf8

/-- A character that is read is there as a whole. -/
theorem le_length_of_leading? {a : UInt8} {rest : Bytes} {c : Char} {more : Nat}
    (h : leading? a rest = some (c, more)) : more ≤ rest.length := by
  unfold leading? at h
  dsimp only at h
  split at h
  · obtain ⟨-, rfl⟩ := Prod.mk.inj (Option.some.inj h)
    exact Nat.zero_le _
  · split at h
    · cases h
    · split at h
      · split at h
        · simp only [Option.bind_eq_bind, Option.bind_eq_some_iff, Option.some.injEq, Prod.mk.injEq] at h
          obtain ⟨x, -, -, rfl⟩ := h
          simp
        · cases h
      · split at h
        · split at h
          · simp only [Option.bind_eq_bind, Option.bind_eq_some_iff, Option.ite_none_right_eq_some,
              Option.some.injEq, Prod.mk.injEq] at h
            obtain ⟨x, -, y, -, -, -, rfl⟩ := h
            simp
          · cases h
        · split at h
          · split at h
            · simp only [Option.bind_eq_bind, Option.bind_eq_some_iff, Option.ite_none_right_eq_some,
                Option.some.injEq, Prod.mk.injEq] at h
              obtain ⟨x, -, y, -, z, -, -, -, rfl⟩ := h
              simp
            · cases h
          · cases h

/-- A character does not go on with a byte that carries none of its bits. -/
theorem leading?_append {b : UInt8} (hb : payload? b = none) (a : UInt8) (rest following : Bytes) :
    leading? a (rest ++ b :: following) = leading? a rest := by
  match rest, following with
  | [], [] => simp [leading?, hb]
  | [], [u] => simp [leading?, hb]
  | [], u :: v :: following => simp [leading?, hb]
  | [x], [] => simp [leading?, hb]
  | [x], u :: following => simp [leading?, hb]
  | [x, y], following => simp [leading?, hb]
  | x :: y :: z :: rest, following => rfl

theorem itemsFrom_append {b : UInt8} (hb : payload? b = none) (s following : Bytes) {skip : Nat}
    (hskip : skip ≤ s.length) :
    itemsFrom skip (s ++ b :: following) = itemsFrom skip s ++ items (b :: following) := by
  induction s generalizing skip with
  | nil =>
      obtain rfl := Nat.le_zero.mp hskip
      rfl
  | cons a rest ih =>
      cases skip with
      | succ skip => exact ih (Nat.le_of_succ_le_succ hskip)
      | zero =>
          rw [List.cons_append, itemsFrom, itemsFrom, leading?_append hb]
          cases hleading : leading? a rest with
          | none => exact congrArg _ (ih (Nat.zero_le _))
          | some found => exact congrArg _ (ih (le_length_of_leading? hleading))

/-- In front of a byte that no character goes on with, bytes are read as they are read alone. -/
theorem decode_append {b : UInt8} (hb : payload? b = none) (s following : Bytes) :
    decode (s ++ b :: following) = decode s ++ decode (b :: following) := by
  rw [decode, items, itemsFrom_append hb s following (Nat.zero_le _), List.map_append]
  rfl

/-! ## Bytes between others -/

/-- No character goes on with an ASCII character. -/
theorem payload?_ofNat_of_lt {n : Nat} (h : n < 0x80) : payload? (UInt8.ofNat n) = none := by
  have hbyte : (UInt8.ofNat n).toNat = n := toNat_ofNat_of_lt (by omega)
  rw [payload?, hbyte, if_neg (by omega)]

/-- An ASCII character is read wherever its byte stands. -/
theorem decode_ofNat_cons {n : Nat} (h : n < 0x80) (s : Bytes) :
    decode (UInt8.ofNat n :: s) = decode [UInt8.ofNat n] ++ decode s := by
  have hbyte : (UInt8.ofNat n).toNat = n := toNat_ofNat_of_lt (by omega)
  have hleading (rest : Bytes) : leading? (UInt8.ofNat n) rest = some (Char.ofNat n, 0) := by
    simp only [leading?, hbyte, h, if_true]
  simp only [decode, items, itemsFrom, hleading]
  rfl

/-- An ASCII character that is read is a byte of its own. -/
theorem exists_eq_append_of_decode {s : Bytes} {before after : List Char} {c : Char} (hc : c.toNat < 0x80)
    (h : decode s = before ++ c :: after) :
    ∃ t u, s = t ++ UInt8.ofNat c.toNat :: u ∧ (before = [] → t = []) ∧ (after = [] → u = []) := by
  obtain ⟨early, others, hitems, rfl, hothers⟩ := List.map_eq_append_iff.mp h
  obtain ⟨item, late, rfl, hitem, rfl⟩ := List.map_eq_cons_iff.mp hothers
  refine ⟨early.flatMap Item.bytes, late.flatMap Item.bytes, ?_, ?_, ?_⟩
  · cases item with
    | stray b =>
        obtain rfl : '\uFFFD' = c := hitem
        exact absurd hc (by decide)
    | char d =>
        obtain rfl : d = c := hitem
        have hbytes := flatMap_bytes_items s
        rw [hitems, List.flatMap_append, List.flatMap_cons, Item.bytes, Escape.encodeChar_of_lt hc] at hbytes
        exact hbytes.symm
  · intro hbefore
    rw [List.map_eq_nil_iff.mp hbefore, List.flatMap_nil]
  · intro hafter
    rw [List.map_eq_nil_iff.mp hafter, List.flatMap_nil]

/-- Bytes that start and end with ASCII characters are read as they are alone wherever they stand. -/
theorem decode_between {first between second : Bytes} (hhead : ∃ c ∈ (decode between).head?, c.toNat < 0x80)
    (hlast : ∃ c ∈ (decode between).getLast?, c.toNat < 0x80) :
    decode (first ++ (between ++ second)) = decode first ++ (decode between ++ decode second) := by
  obtain ⟨c, hc, hsmall⟩ := hhead
  obtain ⟨after, hafter⟩ := List.head?_eq_some_iff.mp hc
  rw [← List.nil_append (c :: after)] at hafter
  obtain ⟨t, u, hstart, ht, -⟩ := exists_eq_append_of_decode hsmall hafter
  obtain rfl := ht rfl
  obtain ⟨d, hd, hsmall'⟩ := hlast
  obtain ⟨before, hbefore⟩ := List.getLast?_eq_some_iff.mp hd
  obtain ⟨v, w, hend, -, hw⟩ := exists_eq_append_of_decode hsmall' hbefore
  obtain rfl := hw rfl
  -- the first byte cuts off what stands before it, and the last one what follows
  have hbehind : decode (between ++ second) = decode between ++ decode second := by
    rw [hend, List.append_assoc, List.singleton_append, decode_append (payload?_ofNat_of_lt hsmall'),
      decode_append (payload?_ofNat_of_lt hsmall'), decode_ofNat_cons hsmall' second, List.append_assoc]
  rw [← hbehind, hstart, List.nil_append, List.cons_append, decode_append (payload?_ofNat_of_lt hsmall)]

end BraceLisp.Utf8
