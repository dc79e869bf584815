import BraceLisp.Proofs.Text.Seam

/-!
# Bytes that are part of no character

Where a character stands in bytes, it is read as a whole, whatever stands around it. So the bytes that are read as
stray are exactly those that are part of no character, and reading bytes and writing them again replaces each of
those and leaves the others as they are.
-/

namespace BraceLisp.Utf8

/-- The byte at a position is part of a well-formed character. -/
def InChar (s : Bytes) (i : Nat) : Prop :=
  ∃ before c after, s = before ++ encodeChar c ++ after ∧ before.length ≤ i ∧
    i < before.length + (encodeChar c).length

/-! ## Characters among other bytes -/

/-- No character goes on with a byte that another starts with. -/
theorem payload?_of_leading? {a : UInt8} {rest : Bytes} {found : Char × Nat} (h : leading? a rest = some found) :
    payload? a = none := by
  rw [payload?]
  split
  · rename_i hcontinues
    unfold leading? at h
    dsimp only at h
    rw [if_neg (Nat.not_lt.mpr hcontinues.1), if_pos (Nat.lt_of_lt_of_le hcontinues.2 (by decide))] at h
    cases h
  · rfl

/-- A character is read wherever it stands. -/
theorem items_around (before : Bytes) (c : Char) (after : Bytes) :
    items (before ++ encodeChar c ++ after) = items before ++ .char c :: items after := by
  obtain ⟨a, tail, hchar, hleading⟩ := leading?_encodeChar c after
  have hread := itemsFrom_append (payload?_of_leading? hleading) before (tail ++ after) (Nat.zero_le _)
  rw [← items_encodeChar_append, List.append_assoc, hchar]
  exact hread

variable {s : Bytes} {early late : List Item}

theorem inChar_of_char {c : Char} (h : items s = early ++ .char c :: late) {k : Nat}
    (hk : k < (encodeChar c).length) : InChar s ((early.flatMap Item.bytes).length + k) := by
  have hbytes := flatMap_bytes_items s
  rw [h, List.flatMap_append, List.flatMap_cons, ← List.append_assoc] at hbytes
  exact ⟨_, c, _, hbytes.symm, Nat.le_add_right _ _, Nat.add_lt_add_left hk _⟩

/-- A character that covered a stray byte would be read in its place. -/
theorem not_inChar_of_stray {b : UInt8} (h : items s = early ++ .stray b :: late) :
    ¬ InChar s (early.flatMap Item.bytes).length := by
  rintro ⟨before, c, after, hs, hlow, hhigh⟩
  have hitems : early ++ .stray b :: late = items before ++ .char c :: items after := by
    rw [← h, hs, items_around]
  have hbefore : ((items before).flatMap Item.bytes).length = before.length := by rw [flatMap_bytes_items]
  rcases List.append_eq_append_iff.mp hitems with ⟨between, hbetween, hrest⟩ | ⟨between, hbetween, hrest⟩
  · cases between with
    | nil => cases hrest
    | cons item between =>
        obtain ⟨rfl, -⟩ := List.cons.inj hrest
        rw [hbetween, List.flatMap_append, List.flatMap_cons, List.length_append, List.length_append,
          Item.bytes, List.length_singleton] at hbefore
        omega
  · cases between with
    | nil => cases hrest
    | cons item between =>
        obtain ⟨rfl, -⟩ := List.cons.inj hrest
        rw [hbetween, List.flatMap_append, List.flatMap_cons, List.length_append, List.length_append, hbefore,
          Item.bytes] at hhigh
        omega

/-! ## Replacement -/

/-- What is written for each byte of an item: the byte itself, or the replacement character for a stray one. -/
def Item.rewritten : Item → List Bytes
  | .char c => (encodeChar c).map fun b => [b]
  | .stray _ => [encodeChar '\uFFFD']

theorem Item.flatten_rewritten (item : Item) : item.rewritten.flatten = encodeChar item.toChar := by
  cases item with
  | char c => exact List.flatMap_def.symm.trans (List.flatMap_singleton' _)
  | stray b => exact List.append_nil _

theorem Item.length_rewritten (item : Item) : item.rewritten.length = item.bytes.length := by
  cases item with
  | char c => exact List.length_map _
  | stray b => rfl

/-- A position in some items is a position in one of them. -/
theorem exists_item_at {found : List Item} {i : Nat} (h : i < (found.flatMap Item.bytes).length) :
    ∃ early item late k, found = early ++ item :: late ∧ i = (early.flatMap Item.bytes).length + k ∧
      k < item.bytes.length := by
  induction found generalizing i with
  | nil => cases h
  | cons item rest ih =>
      rw [List.flatMap_cons, List.length_append] at h
      by_cases hi : i < item.bytes.length
      · exact ⟨[], item, rest, i, rfl, (Nat.zero_add i).symm, hi⟩
      · obtain ⟨early, item', late, k, rfl, hk, hlt⟩ := ih (i := i - item.bytes.length) (by omega)
        refine ⟨item :: early, item', late, k, rfl, ?_, hlt⟩
        rw [List.flatMap_cons, List.length_append]
        omega

def rewritten (s : Bytes) : List Bytes := (items s).flatMap Item.rewritten

theorem flatten_rewritten (s : Bytes) : (rewritten s).flatten = encode (decode s) := by
  rw [rewritten, decode, encode]
  induction items s with
  | nil => rfl
  | cons item rest ih =>
      rw [List.flatMap_cons, List.flatten_append, Item.flatten_rewritten, ih, List.map_cons, List.flatMap_cons]

theorem length_flatMap_rewritten (found : List Item) :
    (found.flatMap Item.rewritten).length = (found.flatMap Item.bytes).length := by
  induction found with
  | nil => rfl
  | cons item rest ih =>
      rw [List.flatMap_cons, List.flatMap_cons, List.length_append, List.length_append, Item.length_rewritten, ih]

theorem length_rewritten (s : Bytes) : (rewritten s).length = s.length := by
  rw [rewritten, length_flatMap_rewritten, flatMap_bytes_items]

/-- Each byte that is part of no character is replaced, and every other is written as it is. -/
theorem rewritten_getElem? {i : Nat} {b : UInt8} (h : s[i]? = some b) :
    InChar s i ∧ (rewritten s)[i]? = some [b] ∨ ¬ InChar s i ∧ (rewritten s)[i]? = some (encodeChar '\uFFFD') := by
  have hbytes := flatMap_bytes_items s
  have hlt : i < ((items s).flatMap Item.bytes).length := by
    rw [hbytes]
    exact (List.getElem?_eq_some_iff.mp h).1
  obtain ⟨early, item, late, k, hitems, rfl, hk⟩ := exists_item_at hlt
  have hat : item.bytes[k]? = some b := by
    rw [← h, ← hbytes, hitems, List.flatMap_append, List.flatMap_cons,
      List.getElem?_append_right (Nat.le_add_right _ _), Nat.add_sub_cancel_left, List.getElem?_append_left hk]
  have hrewritten : (rewritten s)[(early.flatMap Item.bytes).length + k]? = item.rewritten[k]? := by
    rw [rewritten, hitems, List.flatMap_append, List.flatMap_cons, ← length_flatMap_rewritten,
      List.getElem?_append_right (Nat.le_add_right _ _), Nat.add_sub_cancel_left,
      List.getElem?_append_left (item.length_rewritten.symm ▸ hk)]
  rw [hrewritten]
  cases item with
  | char c =>
      refine .inl ⟨inChar_of_char hitems hk, ?_⟩
      rw [Item.rewritten, List.getElem?_map]
      exact congrArg (Option.map fun b => [b]) hat
  | stray a =>
      obtain rfl : k = 0 := Nat.lt_one_iff.mp hk
      exact .inr ⟨not_inChar_of_stray hitems, rfl⟩

end BraceLisp.Utf8
