import BraceLisp.Positional.Completion
import Mathlib.Data.List.Basic
import Mathlib.Data.List.Induction

/-!
# The stem in front of the cursor

Going back from the cursor ends at the first position behind which there are symbol characters alone and in front of
which there is none. No position that is read on the way is outside of the line, and no ending is cut off a name
that is too short.
-/

namespace BraceLisp.Positional

/-! ## Going back -/

/-- A line cut in three: the middle is the longest run of symbol characters that ends at a position. -/
structure StemAt (line : List Int) (cursor : Int) (before stem behind : List Int) : Prop where
  line_eq : line = before ++ stem ++ behind
  cursor_eq : cursor = before.length + stem.length
  symbol : ∀ code ∈ stem, CharClass.holdsOfCode CharClass.isSymbolChar code
  longest : ∀ code, before.getLast? = some code → ¬ CharClass.holdsOfCode CharClass.isSymbolChar code

/-- At every position of a line there is a longest run of symbol characters that ends there. -/
theorem exists_stemAt {line : List Int} {cursor : Int} (hlow : 0 ≤ cursor) (hhigh : cursor ≤ line.length) :
    ∃ before stem behind, StemAt line cursor before stem behind := by
  let isSymbol := CharClass.holdsOfCode CharClass.isSymbolChar
  let back := (line.take cursor.toNat).reverse
  have hfront : (back.dropWhile isSymbol).reverse ++ (back.takeWhile isSymbol).reverse = line.take cursor.toNat := by
    rw [← List.reverse_append, List.takeWhile_append_dropWhile, List.reverse_reverse]
  refine ⟨(back.dropWhile isSymbol).reverse, (back.takeWhile isSymbol).reverse, line.drop cursor.toNat,
    ?_, ?_, ?_, ?_⟩
  · rw [hfront, List.take_append_drop]
  · have hlength := congrArg List.length hfront
    rw [List.length_append, List.length_take] at hlength
    omega
  · intro code hcode
    exact List.all_eq_true.mp List.all_takeWhile code (List.mem_reverse.mp hcode)
  · intro code hcode
    have hhead := List.head?_dropWhile_not isSymbol back
    rw [← List.getLast?_reverse, hcode] at hhead
    exact Bool.not_eq_true _ ▸ hhead

section StemAt

variable {line before stem behind : List Int} {cursor : Int}

theorem StemAt.stemStart_eq (h : StemAt line cursor before stem behind) :
    stemStart line cursor = .ok before.length := by
  obtain ⟨rfl, rfl, hsymbol, hlongest⟩ := h
  -- The stem is gone back over from its end, so the induction takes its last character off.
  induction stem using List.reverseRecOn generalizing behind with
  | nil =>
      rcases List.eq_nil_or_concat' before with rfl | ⟨front, last, rfl⟩
      · rw [stemStart, if_neg (by simp)]
        rfl
      · have hlast := hlongest last List.getLast?_concat
        have hposition : ((front ++ [last]).length + ([] : List Int).length - 1 : Int) = front.length := by
          simp
        have hentry := entryAt_append_length front last behind
        rw [stemStart, if_pos (by simp), hposition, List.append_nil, List.append_assoc, List.singleton_append,
          hentry]
        simp only [bind, Except.bind, if_neg hlast]
        rfl
  | append_singleton inner code ih =>
      obtain ⟨hinner, hcode⟩ := List.forall_mem_append.mp hsymbol
      have hcode := hcode code List.mem_cons_self
      have hposition : (before.length + (inner ++ [code]).length - 1 : Int) = (before ++ inner).length := by
        simp
        omega
      have hentry := entryAt_append_length (before ++ inner) code behind
      have hline : before ++ (inner ++ [code]) ++ behind = before ++ inner ++ code :: behind := by simp
      have hback : stemStart (before ++ inner ++ code :: behind) (before ++ inner).length = .ok before.length := by
        rw [List.length_append, Int.natCast_add]
        exact ih hinner
      rw [stemStart, if_pos (by simp; omega), hposition, hline, hentry]
      simp only [bind, Except.bind, if_pos hcode, hback]

theorem StemAt.portion_eq (h : StemAt line cursor before stem behind) :
    portion line before.length cursor = .ok stem := by
  obtain ⟨rfl, rfl, -, -⟩ := h
  have hcursor : (before.length + stem.length : Int).toNat = (before ++ stem).length := by
    rw [List.length_append]
    omega
  rw [portion, if_pos (by simp only [List.length_append]; omega), hcursor, List.take_left, Int.toNat_natCast,
    List.drop_left]

theorem isSymbolChar_toChar (code : Int) :
    CharClass.isSymbolChar (toChar code) = CharClass.holdsOfCode CharClass.isSymbolChar code := by
  rw [toChar, CharClass.holdsOfCode]
  cases CharClass.ofCode? code with
  | none => decide
  | some c => rfl

/-- The stem of the characters of a line has the numbers that are found by going back. -/
theorem StemAt.stem_map_toChar (h : StemAt line cursor before stem behind) :
    Completion.stem ((line.map toChar).take cursor.toNat) = stem.map toChar := by
  obtain ⟨rfl, rfl, hsymbol, hlongest⟩ := h
  have hcursor : (before.length + stem.length : Int).toNat = (before ++ stem).length := by
    rw [List.length_append]
    omega
  have hclass : CharClass.isSymbolChar ∘ toChar = CharClass.holdsOfCode CharClass.isSymbolChar :=
    funext isSymbolChar_toChar
  have hback : before.reverse.takeWhile (CharClass.holdsOfCode CharClass.isSymbolChar) = [] := by
    rcases List.eq_nil_or_concat' before with rfl | ⟨front, last, rfl⟩
    · rfl
    · rw [List.reverse_concat', List.takeWhile_cons, if_neg (hlongest last List.getLast?_concat)]
  rw [Completion.stem, ← List.map_take, hcursor, List.take_left, ← List.map_reverse, List.takeWhile_map, hclass,
    List.reverse_append, List.takeWhile_append_of_pos (fun code hcode => hsymbol code (List.mem_reverse.mp hcode)),
    hback, List.append_nil, ← List.map_reverse, List.reverse_reverse]

end StemAt

/-! ## Endings -/

theorem addEndings_eq (stem : Bytes) (names suggestions : List Bytes) :
    addEndings stem names suggestions = .ok (suggestions ++ names.filterMap (Completion.ending? stem)) := by
  induction names generalizing suggestions with
  | nil => simp [addEndings, pure, Except.pure]
  | cons name rest ih =>
      rw [addEndings, List.filterMap_cons, Completion.ending?]
      split
      · rename_i hending
        have hlength := (List.isPrefixOf_iff_prefix.mp hending.1).length_le
        have hslice : slice name stem.length name.length = .ok (name.drop stem.length) := by
          rw [slice, if_pos (by omega), Int.toNat_natCast, Int.toNat_natCast, List.take_length]
        rw [hslice]
        exact (ih _).trans (by rw [List.append_assoc, List.singleton_append])
      · exact ih suggestions

/-- Completion by position never breaks down inside of a line, and finds the stem and its endings. -/
theorem StemAt.complete_eq {line before stem behind : List Int} {cursor : Int}
    (h : StemAt line cursor before stem behind) (names : List Bytes) :
    complete names line cursor =
      .ok (Utf8.encode (stem.map toChar), Completion.endings names (Utf8.encode (stem.map toChar))) := by
  rw [complete, h.stemStart_eq]
  simp only [bind, Except.bind, h.portion_eq, addEndings_eq, List.nil_append, Completion.endings, List.isEmpty_iff]
  split
  · rfl
  · rfl

end BraceLisp.Positional
