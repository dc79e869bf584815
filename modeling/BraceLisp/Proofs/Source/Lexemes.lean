import BraceLisp.Proofs.Text.Decimal
import BraceLisp.Proofs.Text.Escape
import BraceLisp.Source.Piece

/-!
# Lexemes and how they are cut

What numbers, symbols and strings look like in a text, and how a text that starts with one of them is cut: the
lexeme comes off the front as a whole if what follows cannot extend it. In the other direction, the lexemes
that cutting finds look as they should.
-/

namespace BraceLisp.Source.Piece

open CharClass Escape

/-! ## Shapes of lexemes -/

def isNumeral : List Char → Bool
  | [] => false
  | c :: rest => startsNumber c rest && rest.all isDigit

def isSymbolName : List Char → Bool
  | [] => false
  | c :: rest => isSymbolChar c && rest.all isSymbolChar && !startsNumber c rest

/-- A text that cannot extend a number or a symbol in front of it. -/
def Stops (rest : List Char) : Prop :=
  ∀ c ∈ rest.head?, isSymbolChar c = false

theorem stops_cons {c : Char} (h : isSymbolChar c = false) (rest : List Char) : Stops (c :: rest) := by
  intro d hd
  obtain rfl := Option.some.inj hd
  exact h

theorem isSymbolChar_of_isDigit {c : Char} (h : isDigit c) : isSymbolChar c := by
  simp [isSymbolChar, h]

theorem isSymbolChar_of_startsNumber {c : Char} {rest : List Char} (h : startsNumber c rest) : isSymbolChar c := by
  rcases (Bool.or_eq_true _ _).mp h with hdigit | hminus
  · exact isSymbolChar_of_isDigit hdigit
  · obtain rfl : c = '-' := by simpa using ((Bool.and_eq_true _ _).mp hminus).1
    decide

/-- A run of some characters of symbols ends where the text stops. -/
theorem takeWhile_append_of_stops {p : Char → Bool} (hp : ∀ c, p c → isSymbolChar c) {run rest : List Char}
    (hrun : run.all p) (hrest : Stops rest) : (run ++ rest).takeWhile p = run := by
  rw [List.takeWhile_append_of_pos (List.all_eq_true.mp hrun)]
  cases rest with
  | nil => simp
  | cons c rest =>
      have hc : p c = false := by
        cases hpc : p c with
        | false => rfl
        | true => exact absurd (hp c hpc) (by simp [hrest c rfl])
      simp [hc]

/-- Whether a number starts does not depend on what follows the run of characters of symbols. -/
theorem startsNumber_append_of_stops (c : Char) (run : List Char) {rest : List Char} (hrest : Stops rest) :
    startsNumber c (run ++ rest) = startsNumber c run := by
  cases run with
  | cons d run => rfl
  | nil =>
      cases rest with
      | nil => rfl
      | cons d rest =>
          have hd : isDigit d = false := by
            cases hdigit : isDigit d with
            | false => rfl
            | true => exact absurd (isSymbolChar_of_isDigit hdigit) (by simp [hrest d rfl])
          simp [startsNumber, hd]

theorem isNumeral_ofInt (n : Int) : isNumeral (Decimal.ofInt n) := by
  cases n with
  | ofNat n =>
      obtain ⟨c, rest, hcons⟩ := Decimal.exists_ofNat_eq_cons n
      have hdigits : (c :: rest).all isDigit :=
        hcons ▸ List.all_eq_true.mpr fun d hd => Decimal.isDigit_of_mem_ofNat hd
      obtain ⟨hc, hrest⟩ := (Bool.and_eq_true _ _).mp hdigits
      simp only [Decimal.ofInt, hcons, isNumeral, startsNumber, hc, hrest, Bool.true_or, Bool.true_and]
  | negSucc n =>
      obtain ⟨c, rest, hcons⟩ := Decimal.exists_ofNat_eq_cons (n + 1)
      have hdigits : (c :: rest).all isDigit :=
        hcons ▸ List.all_eq_true.mpr fun d hd => Decimal.isDigit_of_mem_ofNat hd
      obtain ⟨hc, hrest⟩ := (Bool.and_eq_true _ _).mp hdigits
      simp [Decimal.ofInt, hcons, isNumeral, startsNumber, hc, hrest]

/-! ## Cutting a lexeme off the front -/

/-- A piece that takes up the front of a text is the first piece, and the rest is cut by itself. -/
theorem cut_append {piece : Piece} {c : Char} {run rest : List Char} (hfront : front c (run ++ rest) = piece)
    (htext : piece.text = c :: run) : cut (c :: run ++ rest) = piece :: cut rest := by
  have hskip (run : List Char) : cutFrom run.length (run ++ rest) = cutFrom 0 rest := by
    induction run with
    | nil => rfl
    | cons d run ih => exact ih
  simp only [cut, List.cons_append, cutFrom, hfront, htext, List.length_cons, Nat.add_sub_cancel, hskip]

theorem cut_cons {piece : Piece} {c : Char} {rest : List Char} (hfront : front c rest = piece)
    (htext : piece.text = [c]) : cut (c :: rest) = piece :: cut rest :=
  @cut_append piece c [] rest hfront htext

theorem ne_of_isSymbolChar {c d : Char} (h : isSymbolChar c) (hd : isSymbolChar d = false) : c ≠ d := by
  rintro rfl
  exact absurd h (by simp [hd])

theorem isBlank_of_isSymbolChar {c : Char} (h : isSymbolChar c) : isBlank c = false := by
  rw [Bool.eq_false_iff]
  intro hblank
  simp only [isBlank, Bool.or_eq_true, beq_iff_eq] at hblank
  rcases hblank with ((((rfl | rfl) | rfl) | rfl) | rfl) | rfl <;> exact absurd h (by decide)

theorem delimiterKind?_of_isSymbolChar {c : Char} (h : isSymbolChar c) : delimiterKind? c = none := by
  rw [delimiterKind?, if_neg (ne_of_isSymbolChar h (d := '(') (by decide)),
    if_neg (ne_of_isSymbolChar h (d := ')') (by decide)), if_neg (ne_of_isSymbolChar h (d := '{') (by decide)),
    if_neg (ne_of_isSymbolChar h (d := '}') (by decide))]

/-- What starts with a character of symbols is a number or a symbol. -/
theorem front_of_isSymbolChar {c : Char} (h : isSymbolChar c) (rest : List Char) :
    front c rest =
      if startsNumber c rest then .lexeme .number (c :: rest.takeWhile isDigit)
      else .lexeme .symbol (c :: rest.takeWhile isSymbolChar) := by
  have hcomment : c ≠ ';' := ne_of_isSymbolChar h (by decide)
  have hquote : c ≠ '"' := ne_of_isSymbolChar h (by decide)
  simp [front, isBlank_of_isSymbolChar h, delimiterKind?_of_isSymbolChar h, hcomment, hquote, h]

theorem cut_numeral {text rest : List Char} (h : isNumeral text) (hrest : Stops rest) :
    cut (text ++ rest) = .lexeme .number text :: cut rest := by
  cases text with
  | nil => cases h
  | cons c run =>
      obtain ⟨hstarts, hdigits⟩ := (Bool.and_eq_true _ _).mp h
      refine cut_append ?_ rfl
      rw [front_of_isSymbolChar (isSymbolChar_of_startsNumber hstarts), startsNumber_append_of_stops c run hrest,
        if_pos hstarts, takeWhile_append_of_stops (fun d => isSymbolChar_of_isDigit) hdigits hrest]

theorem cut_symbolName {text rest : List Char} (h : isSymbolName text) (hrest : Stops rest) :
    cut (text ++ rest) = .lexeme .symbol text :: cut rest := by
  cases text with
  | nil => cases h
  | cons c run =>
      obtain ⟨hchars, hstarts⟩ := (Bool.and_eq_true _ _).mp h
      obtain ⟨hc, hrun⟩ := (Bool.and_eq_true _ _).mp hchars
      refine cut_append ?_ rfl
      rw [front_of_isSymbolChar hc, startsNumber_append_of_stops c run hrest, if_neg (by simpa using hstarts),
        takeWhile_append_of_stops (fun d hd => hd) hrun hrest]

/-- An escaped text ends at the quote after it. -/
theorem stringTail?_escape (text rest : List Char) :
    stringTail? (text.flatMap escapeChar ++ '"' :: rest) = some (text.flatMap escapeChar ++ ['"']) := by
  induction text with
  | nil => cases rest <;> rfl
  | cons c text ih =>
      rw [List.flatMap_cons]
      rcases escapeChar_cases c with ⟨m, hescape, -⟩ | ⟨hescape, hbackslash, hquote⟩
      · rw [hescape]
        simp only [List.cons_append, List.nil_append, stringTail?, ih]
        rfl
      · rw [hescape, List.singleton_append, List.cons_append]
        obtain ⟨d, tail, hcons⟩ : ∃ d tail, text.flatMap escapeChar ++ '"' :: rest = d :: tail :=
          List.exists_cons_of_ne_nil (by simp)
        rw [hcons] at ih ⊢
        simp only [stringTail?, hquote, hbackslash, if_false, ih]
        rfl

theorem front_string (text rest : List Char) :
    front '"' (text.flatMap escapeChar ++ ['"'] ++ rest) =
      .lexeme .string ('"' :: (text.flatMap escapeChar ++ ['"'])) := by
  rw [List.append_assoc, List.singleton_append]
  simp only [front, stringTail?_escape]
  rfl

theorem cut_string (text rest : List Char) :
    cut ('"' :: (text.flatMap escapeChar ++ ['"']) ++ rest) =
      .lexeme .string ('"' :: (text.flatMap escapeChar ++ ['"'])) :: cut rest :=
  cut_append (front_string text rest) rfl

theorem cut_opener (d : Delimiter) (rest : List Char) :
    cut (d.opener :: rest) = .lexeme (.opening d) [d.opener] :: cut rest := by
  cases d with
  | paren => exact cut_cons rfl rfl
  | brace => exact cut_cons rfl rfl

theorem cut_closer (d : Delimiter) (rest : List Char) :
    cut (d.closer :: rest) = .lexeme (.closing d) [d.closer] :: cut rest := by
  cases d with
  | paren => exact cut_cons rfl rfl
  | brace => exact cut_cons rfl rfl

theorem cut_space {rest : List Char} (h : ∀ c ∈ rest.head?, isBlank c = false) :
    cut (' ' :: rest) = .blanks [' '] :: cut rest := by
  refine cut_cons ?_ rfl
  cases rest with
  | nil => rfl
  | cons c rest => simp [front, show isBlank ' ' = true by decide, h c rfl]

/-! ## The lexemes that cutting finds -/

theorem exists_front_of_mem_cutFrom {skip : Nat} {text : List Char} {piece : Piece}
    (h : piece ∈ cutFrom skip text) : ∃ c rest, piece = front c rest := by
  induction text generalizing skip with
  | nil => cases skip <;> cases h
  | cons c rest ih =>
      cases skip with
      | succ skip => exact ih h
      | zero =>
          rcases List.mem_cons.mp h with rfl | h
          · exact ⟨c, rest, rfl⟩
          · exact ih h

theorem stops_dropWhile (rest : List Char) : Stops (rest.dropWhile isSymbolChar) := by
  induction rest with
  | nil => exact fun c hc => nomatch hc
  | cons d rest ih =>
      by_cases hd : isSymbolChar d
      · rwa [List.dropWhile_cons_of_pos hd]
      · rw [List.dropWhile_cons_of_neg hd]
        exact stops_cons (by simpa using hd) rest

theorem delimiterKind?_ne_symbol (c : Char) : delimiterKind? c ≠ some .symbol := by
  unfold delimiterKind?
  repeat' split
  all_goals exact fun h => nomatch h

theorem isSymbolChar_of_front {c : Char} {rest text : List Char} (h : front c rest = .lexeme .symbol text) :
    isSymbolChar c := by
  unfold front at h
  split at h
  · cases h
  · split at h
    · rename_i kind hkind
      obtain ⟨rfl, -⟩ : kind = .symbol ∧ [c] = text := by simpa using h
      exact absurd hkind (delimiterKind?_ne_symbol c)
    · split at h
      · cases h
      · split at h
        · split at h
          · cases h
          · cases h
        · split at h
          · cases h
          · split at h
            · assumption
            · cases h

/-- A symbol at the front is a name. -/
theorem isSymbolName_of_front {c : Char} {rest text : List Char} (h : front c rest = .lexeme .symbol text) :
    isSymbolName text := by
  have hc := isSymbolChar_of_front h
  rw [front_of_isSymbolChar hc] at h
  split at h
  · cases h
  · rename_i hstarts
    obtain rfl : c :: rest.takeWhile isSymbolChar = text := by simpa using h
    have hname := startsNumber_append_of_stops c (rest.takeWhile isSymbolChar) (stops_dropWhile rest)
    rw [List.takeWhile_append_dropWhile] at hname
    rw [hname] at hstarts
    simp [isSymbolName, hc, hstarts]

end BraceLisp.Source.Piece

namespace BraceLisp.Source.Token

/-- A token of a kind other than the end of the text is one of the lexemes. -/
theorem exists_lexeme_of_mem_place {source : Bytes} {p : Position} {pieces : List Piece} {t : Token}
    (h : t ∈ place source p pieces) (hkind : t.kind ≠ .eof) :
    ∃ text, .lexeme t.kind text ∈ pieces ∧ t.literal = Piece.literal t.kind text := by
  induction pieces generalizing p with
  | nil =>
      obtain rfl := List.mem_singleton.mp h
      exact absurd rfl hkind
  | cons piece rest ih =>
      cases piece with
      | blanks text =>
          obtain ⟨text, hmem, hliteral⟩ := ih h
          exact ⟨text, List.mem_cons_of_mem _ hmem, hliteral⟩
      | lexeme kind text =>
          rcases List.mem_cons.mp h with rfl | h
          · exact ⟨text, List.mem_cons_self, rfl⟩
          · obtain ⟨text, hmem, hliteral⟩ := ih h
            exact ⟨text, List.mem_cons_of_mem _ hmem, hliteral⟩

/-- The literal of a symbol is a name. -/
theorem isSymbolName_literal {source : Bytes} {text : List Char} {t : Token} (h : t ∈ scan source text)
    (hkind : t.kind = .symbol) : Piece.isSymbolName t.literal := by
  obtain ⟨lexeme, hmem, hliteral⟩ := exists_lexeme_of_mem_place h (by rw [hkind]; exact Kind.noConfusion)
  rw [hkind] at hmem hliteral
  obtain ⟨c, rest, hfront⟩ := Piece.exists_front_of_mem_cutFrom hmem
  rw [hliteral]
  exact Piece.isSymbolName_of_front hfront.symm

end BraceLisp.Source.Token
