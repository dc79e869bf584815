import BraceLisp.Proofs.Eval.Arithmetic
import BraceLisp.Proofs.Text.Escape
import BraceLisp.Text.Layout
import Mathlib.Data.List.Chain
import Mathlib.Data.List.Forall2

/-!
# Filled paragraphs

Lines are filled with the words of a paragraph one after another. A line is as long as it can be: the word that starts
the next one would not have fitted. Only a word that is too long for every line, or a paragraph without words where
there is no room for anything, leads to a line that is longer than the width.

The filling of lines goes through the words with nothing but the length of the line that is open. What it comes to is
stated for an open line, whose words are put in front of those that follow.
-/

namespace BraceLisp.Layout

/-! ## Parts -/

section Parts

variable {α : Type} {isSeparator : α → Bool}

def extend (front : List α) : List (List α) → List (List α)
  | first :: others => (front ++ first) :: others
  | [] => [front]

theorem consFirst_eq (x : α) (lists : List (List α)) : consFirst x lists = extend [x] lists := by
  cases lists <;> rfl

theorem extend_extend (front more : List α) (lists : List (List α)) :
    extend front (extend more lists) = extend (front ++ more) lists := by
  cases lists with
  | nil => rfl
  | cons first others => exact congrArg (· :: others) (List.append_assoc front more first).symm

theorem exists_extend (front : List α) (lists : List (List α)) :
    ∃ more others, extend front lists = (front ++ more) :: others := by
  cases lists with
  | nil => exact ⟨[], [], by rw [extend, List.append_nil]⟩
  | cons first others => exact ⟨first, others, rfl⟩

theorem splitWhere_append {x : α} (hx : isSeparator x) {part : List α} (h : ∀ y ∈ part, isSeparator y = false)
    (rest : List α) : splitWhere isSeparator (part ++ x :: rest) = part :: splitWhere isSeparator rest := by
  induction part with
  | nil => rw [List.nil_append, splitWhere, if_pos hx]
  | cons y part ih =>
      obtain ⟨hy, hpart⟩ := List.forall_mem_cons.mp h
      rw [List.cons_append, splitWhere, hy, if_neg Bool.false_ne_true, ih hpart, consFirst]

/-- A list is made of parts without separators, with one separator between each part and the next. -/
inductive Separated (isSeparator : α → Bool) : List α → List (List α) → Prop where
  | last {part : List α} (clean : ∀ x ∈ part, isSeparator x = false) : Separated isSeparator part [part]
  | next {part rest : List α} {x : α} {parts : List (List α)} (clean : ∀ y ∈ part, isSeparator y = false)
      (separates : isSeparator x) (others : Separated isSeparator rest parts) :
      Separated isSeparator (part ++ x :: rest) (part :: parts)

theorem Separated.consFirst {l : List α} {parts : List (List α)} (h : Separated isSeparator l parts) {x : α}
    (hx : isSeparator x = false) : Separated isSeparator (x :: l) (consFirst x parts) := by
  cases h with
  | last clean => exact .last (List.forall_mem_cons.mpr ⟨hx, clean⟩)
  | next clean separates others => exact .next (List.forall_mem_cons.mpr ⟨hx, clean⟩) separates others

theorem separated_splitWhere (l : List α) : Separated isSeparator l (splitWhere isSeparator l) := by
  induction l with
  | nil => exact .last (List.forall_mem_nil _)
  | cons x rest ih =>
      rw [splitWhere]
      cases hx : isSeparator x with
      | true => exact .next (List.forall_mem_nil _) hx ih
      | false => exact ih.consFirst hx

theorem Separated.mem_part {l part : List α} {parts : List (List α)} (h : Separated isSeparator l parts)
    (hpart : part ∈ parts) : ∀ x ∈ part, x ∈ l ∧ isSeparator x = false := by
  induction h with
  | last clean =>
      obtain rfl := List.mem_singleton.mp hpart
      exact fun x hx => ⟨hx, clean x hx⟩
  | next clean separates others ih =>
      rcases List.mem_cons.mp hpart with rfl | hpart
      · exact fun x hx => ⟨List.mem_append_left _ hx, clean x hx⟩
      · intro x hx
        obtain ⟨hmem, hclean⟩ := ih hpart x hx
        exact ⟨List.mem_append_right _ (List.mem_cons_of_mem _ hmem), hclean⟩

end Parts

/-! ## Words -/

section Words

/-- Where there is no character, there is a byte that is no character of its own. -/
theorem le_toNat_of_stray_mem {skip : Nat} {s : Bytes} {b : UInt8} (h : .stray b ∈ Utf8.itemsFrom skip s) :
    0x80 ≤ b.toNat := by
  induction s generalizing skip with
  | nil => cases skip <;> cases h
  | cons a rest ih =>
      cases skip with
      | succ skip => exact ih h
      | zero =>
          rw [Utf8.itemsFrom] at h
          split at h
          next c more hleading =>
              rcases List.mem_cons.mp h with heq | h
              · cases heq
              · exact ih h
          next hleading =>
              rcases List.mem_cons.mp h with heq | h
              · obtain rfl := Utf8.Item.stray.inj heq
                by_contra hsmall
                simp [Utf8.leading?, Nat.not_le.mp hsmall] at hleading
              · exact ih h

theorem encodeChar_ne_nil (c : Char) : Utf8.encodeChar c ≠ [] := by
  rw [Utf8.encodeChar]
  split
  · exact List.cons_ne_nil _ _
  · split
    · exact List.cons_ne_nil _ _
    · split
      · exact List.cons_ne_nil _ _
      · exact List.cons_ne_nil _ _

theorem bytes_ne_nil (item : Utf8.Item) : item.bytes ≠ [] := by
  cases item with
  | char c => exact encodeChar_ne_nil c
  | stray b => exact List.cons_ne_nil _ _

variable {s word : Bytes}

theorem exists_of_mem_words (h : word ∈ words s) :
    ∃ run ≠ [], joinItems run = word ∧ ∀ item ∈ run, item ∈ Utf8.items s ∧ isSpaceItem item = false := by
  obtain ⟨run, hrun, rfl⟩ := List.mem_map.mp h
  obtain ⟨hpart, hne⟩ := List.mem_filter.mp hrun
  refine ⟨run, ?_, rfl, (separated_splitWhere _).mem_part hpart⟩
  rintro rfl
  cases hne

theorem ne_nil_of_mem_words (h : word ∈ words s) : word ≠ [] := by
  obtain ⟨run, hne, rfl, -⟩ := exists_of_mem_words h
  obtain ⟨item, rest, rfl⟩ := List.exists_cons_of_ne_nil hne
  rw [joinItems, List.flatMap_cons]
  exact List.append_ne_nil_of_left_ne_nil (bytes_ne_nil item) _

/-- A byte of a word that is a character of its own is no white space. -/
theorem isSpace_of_mem_words (h : word ∈ words s) {b : UInt8} (hb : b ∈ word) (hsmall : b.toNat < 0x80) :
    CharClass.isSpace (Char.ofNat b.toNat) = false := by
  obtain ⟨run, -, rfl, hrun⟩ := exists_of_mem_words h
  obtain ⟨item, hitem, hb⟩ := List.mem_flatMap.mp hb
  obtain ⟨hmem, hspace⟩ := hrun item hitem
  cases item with
  | char c =>
      rw [← Escape.toNat_eq_of_mem_encodeChar hb hsmall, Char.ofNat_toNat]
      exact hspace
  | stray a =>
      obtain rfl := List.mem_singleton.mp hb
      exact absurd hsmall (Nat.not_lt.mpr (le_toNat_of_stray_mem hmem))

theorem space_not_mem_of_mem_words (h : word ∈ words s) : space ∉ word := by
  intro hmem
  have hspace := isSpace_of_mem_words h hmem (by decide)
  cases hspace

theorem lineFeed_not_mem_of_mem_words (h : word ∈ words s) : lineFeed ∉ word := by
  intro hmem
  have hspace := isSpace_of_mem_words h hmem (by decide)
  cases hspace

end Words

/-! ## Words on a line -/

section Separate

variable {separator : Bytes} {parts : List Bytes}

theorem separate_cons_cons (separator first second : Bytes) (rest : List Bytes) :
    separate separator (first :: second :: rest) = first ++ separator ++ separate separator (second :: rest) :=
  rfl

theorem separate_concat (h : parts ≠ []) (part : Bytes) :
    separate separator (parts ++ [part]) = separate separator parts ++ separator ++ part := by
  induction parts with
  | nil => exact absurd rfl h
  | cons first rest ih =>
      cases rest with
      | nil => rfl
      | cons second rest =>
          have hrest := ih (List.cons_ne_nil second rest)
          rw [List.cons_append] at hrest
          rw [List.cons_append, List.cons_append, separate_cons_cons, hrest, separate_cons_cons]
          simp only [List.append_assoc]

theorem mem_separate {b : UInt8} (h : b ∈ separate separator parts) : b ∈ separator ∨ ∃ part ∈ parts, b ∈ part := by
  induction parts with
  | nil => cases h
  | cons first rest ih =>
      cases rest with
      | nil => exact .inr ⟨first, List.mem_cons_self, h⟩
      | cons second rest =>
          rw [separate_cons_cons] at h
          rcases List.mem_append.mp h with h | h
          · rcases List.mem_append.mp h with h | h
            · exact .inr ⟨first, List.mem_cons_self, h⟩
            · exact .inl h
          · rcases ih h with h | ⟨part, hpart, h⟩
            · exact .inl h
            · exact .inr ⟨part, List.mem_cons_of_mem first hpart, h⟩

end Separate

theorem length_lineOf_concat {line : List Bytes} (h : line ≠ []) (word : Bytes) :
    (lineOf (line ++ [word])).length = (lineOf line).length + 1 + word.length := by
  rw [lineOf, separate_concat h, List.length_append, List.length_append]
  rfl

theorem lineFeed_not_mem_lineOf {line : List Bytes} (h : ∀ word ∈ line, lineFeed ∉ word) : lineFeed ∉ lineOf line := by
  intro hmem
  rcases mem_separate hmem with hspace | ⟨word, hword, hmem⟩
  · cases List.mem_singleton.mp hspace
  · exact h word hword hmem

/-! ## Lines -/

/--
Lines that are filled with words, one word after another. A line may be longer than the width only if it is one of those
that may be `long`.
-/
structure Filled (long : List Bytes → Prop) (width : Int) (words : List Bytes) (lines : List (List Bytes)) : Prop where
  flatten : lines.flatten = words
  exists_line : lines ≠ []
  blank : [] ∈ lines → lines = [[]]
  fits : ∀ line ∈ lines, ((lineOf line).length : Int) ≤ width ∨ long line
  greedy : lines.IsChain fun line next => ∀ word ∈ next.head?, width < ((lineOf line).length + 1 + word.length : Nat)

section Filled

variable {long : List Bytes → Prop} {width : Int} {words line more : List Bytes} {others : List (List Bytes)}
  {word : Bytes}

theorem filled_single (hline : ((lineOf line).length : Int) ≤ width ∨ long line) : Filled long width line [line] where
  flatten := List.flatten_singleton
  exists_line := List.cons_ne_nil _ _
  blank h := by rw [← List.mem_singleton.mp h]
  fits := List.forall_mem_singleton.mpr hline
  greedy := List.isChain_singleton _

/-- A line in front of others, the first word of which would have made it too long. -/
theorem Filled.cons (h : Filled long width words ((word :: more) :: others)) (hne : line ≠ [])
    (hline : ((lineOf line).length : Int) ≤ width ∨ long line)
    (hword : width < ((lineOf line).length + 1 + word.length : Nat)) :
    Filled long width (line ++ words) (line :: (word :: more) :: others) where
  flatten := by rw [List.flatten_cons, h.flatten]
  exists_line := List.cons_ne_nil _ _
  blank hmem := by
    rcases List.mem_cons.mp hmem with hnil | hmem
    · exact absurd hnil.symm hne
    · cases h.blank hmem
  fits := List.forall_mem_cons.mpr ⟨hline, h.fits⟩
  greedy := by
    refine List.isChain_cons_cons.mpr ⟨fun first hfirst => ?_, h.greedy⟩
    obtain rfl := Option.some.inj hfirst
    exact hword

theorem filled_fillFrom (rest : List Bytes) (hne : line ≠ [])
    (hline : ((lineOf line).length : Int) ≤ width ∨ line.length ≤ 1) :
    Filled (fun line => line.length ≤ 1) width (line ++ rest)
      (extend line (fillFrom width (lineOf line).length rest)) := by
  induction rest generalizing line with
  | nil =>
      rw [List.append_nil, fillFrom, extend, List.append_nil]
      exact filled_single hline
  | cons word rest ih =>
      rw [fillFrom]
      split
      next hlonger =>
          -- the open line ends here, and the word is alone on the next one
          have hword : (lineOf [word]).length = word.length := rfl
          have hrest := ih (List.cons_ne_nil word []) (.inr (Nat.le_refl 1))
          rw [hword] at hrest
          rw [consFirst_eq, extend, List.append_nil]
          obtain ⟨more, others, heq⟩ := exists_extend [word] (fillFrom width word.length rest)
          rw [heq] at hrest ⊢
          exact hrest.cons hne hline hlonger
      next hshorter =>
          have hlength := length_lineOf_concat hne word
          have hfits : ((lineOf (line ++ [word])).length : Int) ≤ width := by
            rw [hlength]
            exact Int.not_lt.mp hshorter
          have hrest := ih (List.append_ne_nil_of_left_ne_nil hne [word]) (.inl hfits)
          rw [consFirst_eq, extend_extend, ← hlength]
          rwa [List.append_assoc] at hrest

theorem filled_fill (width : Int) (words : List Bytes) :
    Filled (fun line => line.length ≤ 1) width words (fill width words) := by
  cases words with
  | nil => exact filled_single (.inr (Nat.zero_le 1))
  | cons word rest =>
      rw [fill, consFirst_eq]
      exact filled_fillFrom rest (List.cons_ne_nil word []) (.inr (Nat.le_refl 1))

theorem map_flatten_of_length_eq_one {α : Type} {lists : List (List α)} (h : ∀ l ∈ lists, l.length = 1) :
    lists.flatten.map (fun x => [x]) = lists := by
  induction lists with
  | nil => rfl
  | cons l rest ih =>
      obtain ⟨hl, hrest⟩ := List.forall_mem_cons.mp h
      obtain ⟨x, rfl⟩ := List.length_eq_one_iff.mp hl
      rw [List.flatten_cons, List.singleton_append, List.map_cons, ih hrest]

/-- Where there is no room for anything, and nothing but single words may be longer, each word has its own line. -/
theorem Filled.eq_map {lines : List (List Bytes)} (h : Filled (fun line => line.length = 1) width words lines)
    (hwidth : width < 0) : lines = words.map fun word => [word] := by
  have hsingle : ∀ line ∈ lines, line.length = 1 := fun line hline => (h.fits line hline).resolve_left (by omega)
  rw [← h.flatten, map_flatten_of_length_eq_one hsingle]

end Filled

/-! ## Texts between margins -/

def margined (left : Nat) (line : List Bytes) : Bytes :=
  List.replicate left space ++ lineOf line

/-- What a text comes to between two margins: a group of lines for each paragraph, filled with its words. -/
structure Wrapped (long : List Bytes → Prop) (left : Nat) (width : Int) (s out : Bytes)
    (groups : List (List (List Bytes))) : Prop where
  text : out = groups.flatten.flatMap fun line => margined left line ++ [lineFeed]
  filled : ((paragraphs s).map words).Forall₂ (Filled long width) groups
  complete : paragraphs out = groups.flatten.map (margined left) ++ [[]]
  words : ∀ line ∈ groups.flatten, ∀ word ∈ line, word ≠ [] ∧ space ∉ word

theorem wrap_eq (left : Nat) (width : Int) (s : Bytes) :
    wrap left width s = (((paragraphs s).map words).map (fill width)).flatten.flatMap fun line =>
      margined left line ++ [lineFeed] := by
  have hgroups : (((paragraphs s).map words).map (fill width)).flatten =
      (paragraphs s).flatMap fun paragraph => fill width (words paragraph) := by
    rw [List.map_map, List.flatMap_def]
    rfl
  rw [hgroups, wrap, fillParagraphs, List.flatMap_assoc, List.flatMap_assoc]
  refine congrArg (List.flatMap · (paragraphs s)) (funext fun paragraph => ?_)
  rw [List.flatMap_map]
  rfl

theorem paragraphs_flatMap {lines : List Bytes} (h : ∀ line ∈ lines, lineFeed ∉ line) :
    paragraphs (lines.flatMap fun line => line ++ [lineFeed]) = lines ++ [[]] := by
  induction lines with
  | nil => rfl
  | cons line rest ih =>
      obtain ⟨hline, hrest⟩ := List.forall_mem_cons.mp h
      have hbytes : ∀ b ∈ line, (b == lineFeed) = false := fun b hb =>
        beq_eq_false_iff_ne.mpr fun heq => hline (heq ▸ hb)
      have hsplit (more : Bytes) : paragraphs (line ++ lineFeed :: more) = line :: paragraphs more := by
        refine splitWhere_append ?_ hbytes more
        exact beq_self_eq_true lineFeed
      rw [List.flatMap_cons, List.append_assoc, List.singleton_append, hsplit, ih hrest]
      rfl

theorem lineFeed_not_mem_margined {left : Nat} {line : List Bytes} (h : ∀ word ∈ line, lineFeed ∉ word) :
    lineFeed ∉ margined left line := by
  intro hmem
  rcases List.mem_append.mp hmem with hmem | hmem
  · cases List.eq_of_mem_replicate hmem
  · exact lineFeed_not_mem_lineOf h hmem

/-- The words on filled lines are words of a paragraph. -/
theorem exists_mem_words {width : Int} {s : Bytes} {line : List Bytes} {word : Bytes}
    (hline : line ∈ (((paragraphs s).map Layout.words).map (fill width)).flatten) (hword : word ∈ line) :
    ∃ paragraph, word ∈ words paragraph := by
  obtain ⟨lines, hlines, hline⟩ := List.mem_flatten.mp hline
  obtain ⟨_, hwords, rfl⟩ := List.mem_map.mp hlines
  obtain ⟨paragraph, -, rfl⟩ := List.mem_map.mp hwords
  refine ⟨paragraph, ?_⟩
  rw [← (filled_fill width (words paragraph)).flatten]
  exact List.mem_flatten_of_mem hline hword

theorem wrapped_wrap (left : Nat) (width : Int) (s : Bytes) :
    Wrapped (fun line => line.length ≤ 1) left width s (wrap left width s)
      (((paragraphs s).map words).map (fill width)) where
  text := wrap_eq left width s
  filled := by
    rw [List.forall₂_map_right_iff, List.forall₂_same]
    exact fun words _ => filled_fill width words
  complete := by
    rw [wrap_eq, ← paragraphs_flatMap, List.flatMap_map]
    intro text htext
    obtain ⟨line, hline, rfl⟩ := List.mem_map.mp htext
    refine lineFeed_not_mem_margined fun word hword => ?_
    obtain ⟨paragraph, hmem⟩ := exists_mem_words hline hword
    exact lineFeed_not_mem_of_mem_words hmem
  words line hline word hword := by
    obtain ⟨paragraph, hmem⟩ := exists_mem_words hline hword
    exact ⟨ne_nil_of_mem_words hmem, space_not_mem_of_mem_words hmem⟩

theorem widthBetween_of_fits {left right : Int64} (h : Number.Fits (right.toInt - left.toInt)) :
    widthBetween left right = right.toInt - left.toInt := by
  have hexact : Number.Fits (ArithOp.sub.exact right.toInt left.toInt) := h
  exact ArithOp.toInt_word_of_fits hexact

/--
A text is filled between two margins, of which the left one is not negative: paragraph by paragraph, as they stand
between line feeds, with the words that stand between white space. No line is longer than the width if it has more than
one word, and none ends before it has to. The width is the difference of the margins, as far as that is a number.
-/
theorem wrap_faithful_and_greedy (s : Bytes) (left right : Int64) (hleft : 0 ≤ left) :
    Separated (· == lineFeed) s (paragraphs s) ∧
    (∀ paragraph, ∃ runs, Separated isSpaceItem (Utf8.items paragraph) runs ∧
      words paragraph = (runs.filter fun run => !run.isEmpty).map joinItems) ∧
    ∃ out groups, wrap? left right s = some out ∧
      Wrapped (fun line => line.length ≤ 1) left.toInt.toNat (widthBetween left right) s out groups ∧
      (Number.Fits (right.toInt - left.toInt) → widthBetween left right = right.toInt - left.toInt) := by
  refine ⟨separated_splitWhere s, fun paragraph => ⟨_, separated_splitWhere _, rfl⟩, ?_⟩
  exact ⟨_, _, if_neg (Int64.not_lt.mpr hleft), wrapped_wrap _ _ s, widthBetween_of_fits⟩

/-- Four words between two margins take two lines. -/
theorem wrap_faithful_and_greedy_of_four_words :
    (0 : Int64) ≤ 2 ∧ ∃ groups, Wrapped (fun line => line.length ≤ 1) 2 10 (Bytes.of "one two three four")
      (Bytes.of "  one two\n  three four\n") groups := by
  refine ⟨by decide, ?_⟩
  obtain ⟨-, -, out, groups, hout, hwrapped, -⟩ :=
    wrap_faithful_and_greedy (Bytes.of "one two three four") 2 12 (by decide)
  have htext : wrap? 2 12 (Bytes.of "one two three four") = some (Bytes.of "  one two\n  three four\n") := by
    decide +kernel
  obtain rfl := Option.some.inj (hout.symm.trans htext)
  exact ⟨groups, hwrapped⟩

/--
Not all lines but those of single words are within the margins. A blank line has more bytes than a width below zero,
and where the margins are too far apart for their difference, the width is not that difference.
-/
theorem wrap_not_within_margins :
    (¬ ∃ out groups, wrap? 0 (-1) [] = some out ∧
      Wrapped (fun line => line.length = 1) 0 (-1 - 0) [] out groups) ∧
    ¬ ∃ out groups, wrap? 1 Int64.minValue (Bytes.of "a b") = some out ∧
      Wrapped (fun line => line.length = 1) 1 (Int64.minValue.toInt - 1) (Bytes.of "a b") out groups := by
  constructor
  · rintro ⟨out, groups, -, h⟩
    have hwords : (paragraphs []).map words = [[]] := rfl
    have hfilled := h.filled
    rw [hwords] at hfilled
    cases hfilled with
    | cons hlines hrest => exact hlines.exists_line (hlines.eq_map (by decide))
  · rintro ⟨out, groups, hout, h⟩
    have hwords : (paragraphs (Bytes.of "a b")).map words = [[Bytes.of "a", Bytes.of "b"]] := by decide
    have htext : wrap? 1 Int64.minValue (Bytes.of "a b") = some (Bytes.of " a b\n") := by decide
    have hfilled := h.filled
    rw [hwords] at hfilled
    cases hfilled with
    | cons hlines hrest =>
        cases hrest
        -- nothing fits, so there would be a line for each word
        obtain rfl := hlines.eq_map (by decide)
        have hsame := (Option.some.inj (htext.symm.trans hout)).trans h.text
        cases hsame

end BraceLisp.Layout
