import BraceLisp.Text.Utf8

/-!
# Reading back what was written

Characters written as bytes are read back as the same characters, whatever bytes follow, and the items that
bytes are cut into write back as the same bytes.
-/

namespace BraceLisp.Utf8

/-! ## One character -/

/-- A number below 256 is the value of its byte. -/
theorem toNat_ofNat_of_lt {n : Nat} (h : n < 256) : (UInt8.ofNat n).toNat = n := by
  rw [UInt8.toNat_ofNat']
  omega

/-- A continuation byte carries the six bits that were put into it. -/
theorem payload?_ofNat {n : Nat} (h : n < 0x40) : payload? (UInt8.ofNat (0x80 + n)) = some n := by
  rw [payload?, toNat_ofNat_of_lt (by omega), if_pos (by omega), Nat.add_sub_cancel_left]

/-- The numbers of characters leave out the surrogates and end at U+10FFFF. -/
theorem toNat_range (c : Char) : c.toNat < 0xD800 ∨ (0xE000 ≤ c.toNat ∧ c.toNat < 0x110000) := by
  have h := c.valid
  simp only [UInt32.isValidChar, Nat.isValidChar] at h
  have e : c.toNat = c.val.toNat := rfl
  omega

/-- The bytes of a character are read as that character, and none of what follows belongs to it. -/
theorem leading?_encodeChar (c : Char) (rest : Bytes) :
    ∃ a tail, encodeChar c = a :: tail ∧ leading? a (tail ++ rest) = some (c, tail.length) := by
  have hc := toNat_range c
  have hofNat : Char.ofNat c.toNat = c := Char.ofNat_toNat c
  unfold encodeChar
  generalize c.toNat = n at *
  have hp : payload? (UInt8.ofNat (0x80 + n % 0x40)) = some (n % 0x40) := payload?_ofNat (by omega)
  have hq : payload? (UInt8.ofNat (0x80 + n / 0x40 % 0x40)) = some (n / 0x40 % 0x40) :=
    payload?_ofNat (by omega)
  have hr : payload? (UInt8.ofNat (0x80 + n / 0x1000 % 0x40)) = some (n / 0x1000 % 0x40) :=
    payload?_ofNat (by omega)
  dsimp only
  split
  · refine ⟨_, _, rfl, ?_⟩
    unfold leading?
    rw [toNat_ofNat_of_lt (by omega)]
    dsimp only
    rw [if_pos (by omega), hofNat]
    rfl
  · split
    · refine ⟨_, _, rfl, ?_⟩
      unfold leading?
      rw [toNat_ofNat_of_lt (by omega)]
      dsimp only [List.cons_append]
      rw [if_neg (by omega), if_neg (by omega), if_pos (by omega), hp]
      have hn : (0xC0 + n / 0x40 - 0xC0) * 0x40 + n % 0x40 = n := by omega
      simp only [Option.bind_eq_bind, Option.bind_some, hn, hofNat]
      rfl
    · split
      · refine ⟨_, _, rfl, ?_⟩
        unfold leading?
        rw [toNat_ofNat_of_lt (by omega)]
        dsimp only [List.cons_append]
        rw [if_neg (by omega), if_neg (by omega), if_neg (by omega), if_pos (by omega)]
        have hn : (0xE0 + n / 0x1000 - 0xE0) * 0x1000 + n / 0x40 % 0x40 * 0x40 + n % 0x40 = n := by
          omega
        refine Option.bind_eq_some_iff.mpr ⟨_, hq, ?_⟩
        refine Option.bind_eq_some_iff.mpr ⟨_, hp, (if_pos ?_).trans ?_⟩
        · omega
        · rw [hn, hofNat]
          rfl
      · refine ⟨_, _, rfl, ?_⟩
        unfold leading?
        rw [toNat_ofNat_of_lt (by omega)]
        dsimp only [List.cons_append]
        rw [if_neg (by omega), if_neg (by omega), if_neg (by omega), if_neg (by omega), if_pos (by omega)]
        have hn : (0xF0 + n / 0x40000 - 0xF0) * 0x40000 + n / 0x1000 % 0x40 * 0x1000 +
            n / 0x40 % 0x40 * 0x40 + n % 0x40 = n := by
          omega
        refine Option.bind_eq_some_iff.mpr ⟨_, hr, Option.bind_eq_some_iff.mpr ⟨_, hq, ?_⟩⟩
        refine Option.bind_eq_some_iff.mpr ⟨_, hp, (if_pos ?_).trans ?_⟩
        · omega
        · rw [hn, hofNat]
          rfl

/-- The number of a character made from a number that stands for one. -/
theorem toNat_ofNat {n : Nat} (h : n < 0xD800 ∨ (0xE000 ≤ n ∧ n < 0x110000)) : (Char.ofNat n).toNat = n := by
  have hv : n.isValidChar := by
    simp only [Nat.isValidChar]
    omega
  rw [Char.ofNat, dif_pos hv]
  rfl

/-- A byte that carries bits is a continuation byte with those bits. -/
theorem eq_ofNat_of_payload? {b : UInt8} {x : Nat} (h : payload? b = some x) :
    b = UInt8.ofNat (0x80 + x) ∧ x < 0x40 := by
  unfold payload? at h
  split at h
  · rename_i hb
    obtain rfl : b.toNat - 0x80 = x := by simpa using h
    refine ⟨?_, by omega⟩
    rw [Nat.add_sub_cancel' hb.1, UInt8.ofNat_toNat]
  · simp at h

/-- A character that was read takes up exactly the bytes that it is written as. -/
theorem encodeChar_of_leading? {a : UInt8} {rest : Bytes} {c : Char} {more : Nat}
    (h : leading? a rest = some (c, more)) : encodeChar c ++ rest.drop more = a :: rest := by
  have ha : UInt8.ofNat a.toNat = a := UInt8.ofNat_toNat
  have hlt : a.toNat < 256 := a.toNat_lt
  unfold leading? at h
  generalize a.toNat = n at *
  dsimp only at h
  split at h
  · obtain ⟨rfl, rfl⟩ : Char.ofNat n = c ∧ 0 = more := by simpa using h
    rw [encodeChar, toNat_ofNat (by omega)]
    rw [if_pos (by omega), ha]
    rfl
  · split at h
    · simp at h
    · split at h
      · split at h
        · rename_i b tail
          simp only [Option.bind_eq_bind, Option.bind_eq_some_iff, Option.some.injEq, Prod.mk.injEq] at h
          obtain ⟨x, hx, rfl, rfl⟩ := h
          obtain ⟨rfl, hxlt⟩ := eq_ofNat_of_payload? hx
          rw [encodeChar, toNat_ofNat (by omega)]
          rw [if_neg (by omega), if_pos (by omega)]
          have h1 : 0xC0 + ((n - 0xC0) * 0x40 + x) / 0x40 = n := by omega
          have h2 : ((n - 0xC0) * 0x40 + x) % 0x40 = x := by omega
          rw [h1, h2, ha]
          rfl
        · simp at h
      · split at h
        · split at h
          · rename_i b d tail
            simp only [Option.bind_eq_bind, Option.bind_eq_some_iff] at h
            obtain ⟨x, hx, y, hy, h⟩ := h
            split at h
            · rename_i hcode
              obtain ⟨rfl, rfl⟩ : Char.ofNat ((n - 0xE0) * 0x1000 + x * 0x40 + y) = c ∧ 2 = more := by
                simpa using h
              obtain ⟨rfl, hxlt⟩ := eq_ofNat_of_payload? hx
              obtain ⟨rfl, hylt⟩ := eq_ofNat_of_payload? hy
              rw [encodeChar, toNat_ofNat (by omega)]
              rw [if_neg (by omega), if_neg (by omega), if_pos (by omega)]
              have h1 : 0xE0 + ((n - 0xE0) * 0x1000 + x * 0x40 + y) / 0x1000 = n := by omega
              have h2 : ((n - 0xE0) * 0x1000 + x * 0x40 + y) / 0x40 % 0x40 = x := by omega
              have h3 : ((n - 0xE0) * 0x1000 + x * 0x40 + y) % 0x40 = y := by omega
              rw [h1, h2, h3, ha]
              rfl
            · simp at h
          · simp at h
        · split at h
          · split at h
            · rename_i b d e tail
              simp only [Option.bind_eq_bind, Option.bind_eq_some_iff] at h
              obtain ⟨x, hx, y, hy, z, hz, h⟩ := h
              split at h
              · rename_i hcode
                obtain ⟨rfl, rfl⟩ :
                    Char.ofNat ((n - 0xF0) * 0x40000 + x * 0x1000 + y * 0x40 + z) = c ∧ 3 = more := by
                  simpa using h
                obtain ⟨rfl, hxlt⟩ := eq_ofNat_of_payload? hx
                obtain ⟨rfl, hylt⟩ := eq_ofNat_of_payload? hy
                obtain ⟨rfl, hzlt⟩ := eq_ofNat_of_payload? hz
                rw [encodeChar, toNat_ofNat (by omega)]
                rw [if_neg (by omega), if_neg (by omega), if_neg (by omega)]
                have h1 : 0xF0 + ((n - 0xF0) * 0x40000 + x * 0x1000 + y * 0x40 + z) / 0x40000 = n := by
                  omega
                have h2 : ((n - 0xF0) * 0x40000 + x * 0x1000 + y * 0x40 + z) / 0x1000 % 0x40 = x := by
                  omega
                have h3 : ((n - 0xF0) * 0x40000 + x * 0x1000 + y * 0x40 + z) / 0x40 % 0x40 = y := by
                  omega
                have h4 : ((n - 0xF0) * 0x40000 + x * 0x1000 + y * 0x40 + z) % 0x40 = z := by omega
                rw [h1, h2, h3, h4, ha]
                rfl
              · simp at h
            · simp at h
          · simp at h

/-! ## Texts -/

/-- Bytes that belong to a character already read are passed over. -/
theorem itemsFrom_length_append (tail rest : Bytes) : itemsFrom tail.length (tail ++ rest) = itemsFrom 0 rest := by
  induction tail with
  | nil => rfl
  | cons b tail ih => simpa [itemsFrom] using ih

/-- The first item of a text that starts with a character is that character. -/
theorem items_encodeChar_append (c : Char) (rest : Bytes) :
    items (encodeChar c ++ rest) = .char c :: items rest := by
  obtain ⟨a, tail, he, hl⟩ := leading?_encodeChar c rest
  simp only [items, he, List.cons_append, itemsFrom, hl, itemsFrom_length_append]

/-- A text in front of other bytes is cut into its characters. -/
theorem items_encode_append (text : List Char) (rest : Bytes) :
    items (encode text ++ rest) = text.map Item.char ++ items rest := by
  induction text with
  | nil => rfl
  | cons c text ih =>
      simp only [encode, List.flatMap_cons, List.append_assoc] at ih ⊢
      rw [items_encodeChar_append, ih]
      rfl

/-- What follows a text has no part in how the text is read. -/
theorem decode_encode_append (text : List Char) (rest : Bytes) :
    decode (encode text ++ rest) = text ++ decode rest := by
  simp only [decode, items_encode_append, List.map_append, List.map_map]
  congr 1
  induction text with
  | nil => rfl
  | cons c text ih => simp [Item.toChar, ih]

/-- A text is read back as it was written. -/
@[simp]
theorem decode_encode (text : List Char) : decode (encode text) = text := by
  have h := decode_encode_append text []
  simpa [decode, items, itemsFrom] using h

/-- The items after a number of bytes write back as the rest of the bytes. -/
theorem flatMap_bytes_itemsFrom (skip : Nat) (s : Bytes) :
    (itemsFrom skip s).flatMap Item.bytes = s.drop skip := by
  induction s generalizing skip with
  | nil => cases skip <;> simp [itemsFrom]
  | cons a rest ih =>
      cases skip with
      | succ skip => simp [itemsFrom, ih]
      | zero =>
          rw [itemsFrom]
          split
          · rename_i c more h
            simp [Item.bytes, ih, encodeChar_of_leading? h]
          · simp [Item.bytes, ih]

/-- Bytes cut into items lose nothing. -/
theorem flatMap_bytes_items (s : Bytes) : (items s).flatMap Item.bytes = s := by
  simp [items, flatMap_bytes_itemsFrom]

/-- Items that are all characters write back as those characters. -/
theorem encode_map_toChar {items : List Item}
    (h : items.all (fun item => match item with | .char _ => true | .stray _ => false)) :
    encode (items.map Item.toChar) = items.flatMap Item.bytes := by
  induction items with
  | nil => rfl
  | cons item rest ih =>
      cases item with
      | stray b => simp at h
      | char c =>
          have hrest := ih (by simpa using h)
          simpa [encode, Item.toChar, Item.bytes] using hrest

/-- Bytes that are UTF-8 throughout are the bytes of their characters. -/
theorem encode_decode {s : Bytes} (h : isValid s) : encode (decode s) = s := by
  rw [decode, encode_map_toChar h, flatMap_bytes_items]

/-- What is written as characters is UTF-8 throughout. -/
theorem isValid_encode (text : List Char) : isValid (encode text) := by
  have hitems := items_encode_append text []
  rw [List.append_nil] at hitems
  rw [isValid, hitems, List.all_append, List.all_map]
  simp [items, itemsFrom]

end BraceLisp.Utf8

namespace BraceLisp

/-- Different texts have different bytes. -/
theorem Bytes.of_inj {s t : String} : Bytes.of s = Bytes.of t ↔ s = t := by
  constructor
  · intro h
    have hdecode : Utf8.decode (Bytes.of s) = Utf8.decode (Bytes.of t) := congrArg Utf8.decode h
    rw [Bytes.of, Bytes.of, Utf8.decode_encode, Utf8.decode_encode] at hdecode
    exact String.toList_inj.mp hdecode
  · rintro rfl
    rfl

end BraceLisp
