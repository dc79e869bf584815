import BraceLisp.Proofs.Source.Lexemes

/-!
# Classes of lexemes

Each kind of token has a class of texts, which says what its lexemes look like wherever they stand. A lexeme is
cut where no longer text of its class stands. What is no token is a single character that begins no text of any
class, or the rest of the input behind a quote that is never closed.
-/

namespace BraceLisp.Source

open CharClass

/-! ## Which texts the kinds have -/

/-- What can stand between the quotes of a string: a quote only behind a backslash, which takes it along. -/
inductive StringBody : List Char → Prop where
  | nil : StringBody []
  | char {c : Char} {rest : List Char} (notQuote : c ≠ '"') (notBackslash : c ≠ '\\')
      (body : StringBody rest) : StringBody (c :: rest)
  | pair (c : Char) {rest : List Char} (body : StringBody rest) : StringBody ('\\' :: c :: rest)

def StartsAsNumber (text : List Char) : Prop :=
  ∃ d rest, isDigit d ∧ (text = d :: rest ∨ text = '-' :: d :: rest)

/-- The texts of each kind of token; there is none of an illegal token, and none of the end of the text. -/
def Kind.Has : Kind → List Char → Prop
  | .number, text => ∃ digits, digits ≠ [] ∧ (∀ d ∈ digits, isDigit d) ∧ (text = digits ∨ text = '-' :: digits)
  | .string, text => ∃ body, StringBody body ∧ text = '"' :: (body ++ ['"'])
  | .symbol, text => text ≠ [] ∧ (∀ c ∈ text, isSymbolChar c) ∧ ¬ StartsAsNumber text
  | .comment, text => ∃ body, (∀ c ∈ body, c ≠ '\n' ∧ c ≠ '\r') ∧ text = ';' :: body
  | .opening d, text => text = [d.opener]
  | .closing d, text => text = [d.closer]
  | .illegal, _ => False
  | .eof, _ => False

def Kind.EndsBefore : Kind → List Char → Prop
  | .number, following => ∀ c ∈ following.head?, isDigit c = false
  | .symbol, following => ∀ c ∈ following.head?, isSymbolChar c = false
  | .comment, following => ∀ c ∈ following.head?, c = '\n' ∨ c = '\r'
  | _, _ => True

theorem Kind.Has.ne_nil {kind : Kind} {text : List Char} (h : kind.Has text) : text ≠ [] := by
  rintro rfl
  cases kind with
  | number =>
      obtain ⟨digits, hne, -, h | h⟩ := h
      · exact hne h.symm
      · cases h
  | string =>
      obtain ⟨body, -, h⟩ := h
      cases h
  | symbol => exact h.1 rfl
  | comment =>
      obtain ⟨body, -, h⟩ := h
      cases h
  | opening d => cases h
  | closing d => cases h
  | illegal => exact h
  | eof => exact h

/-- How a text at the front of the input is read, in front of what follows it: as which kind, and as which literal. -/
inductive Reads : (kind : Kind) → (literal text following : List Char) → Prop where
  | token {kind : Kind} {text following : List Char} (shape : kind.Has text) (ends : kind.EndsBefore following)
      (longest : ∀ longer, longer <+: text ++ following → kind.Has longer → longer.length ≤ text.length) :
      Reads kind text text following
  | stray {c : Char} {following : List Char} (notBlank : isBlank c = false)
      (startsNothing : ∀ (kind : Kind) (rest : List Char), ¬ kind.Has (c :: rest)) :
      Reads .illegal ("unexpected character ".toList ++ Quoted.char c) [c] following
  | unterminated {rest : List Char} (neverClosed : ∀ text, text <+: '"' :: rest → ¬ Kind.string.Has text) :
      Reads .illegal "unterminated string".toList ('"' :: rest) []

namespace Reads

variable {kind : Kind} {literal text following : List Char}

theorem kind_ne_eof (h : Reads kind literal text following) : kind ≠ .eof := by
  rintro rfl
  cases h with
  | token shape => exact shape

theorem has (h : Reads kind literal text following) (hkind : kind ≠ .illegal) : kind.Has literal := by
  cases h with
  | token shape => exact shape
  | stray => exact absurd rfl hkind
  | unterminated => exact absurd rfl hkind

theorem has_text (h : Reads kind literal text following) (hkind : kind ≠ .illegal) : kind.Has text := by
  cases h with
  | token shape => exact shape
  | stray => exact absurd rfl hkind
  | unterminated => exact absurd rfl hkind

theorem endsBefore (h : Reads kind literal text following) (hkind : kind ≠ .illegal) : kind.EndsBefore following := by
  cases h with
  | token _ ends => exact ends
  | stray => exact absurd rfl hkind
  | unterminated => exact absurd rfl hkind

end Reads

namespace Piece

/-! ## Runs -/

theorem eq_dropWhile_of_cons_eq {p : Char → Bool} {c : Char} {rest following : List Char}
    (h : c :: rest = c :: rest.takeWhile p ++ following) : following = rest.dropWhile p := by
  have hrest := (List.cons.inj h).2
  have hsplit := List.takeWhile_append_dropWhile (p := p) (l := rest)
  exact List.append_cancel_left (hrest.symm.trans hsplit.symm)

theorem not_of_mem_head?_dropWhile {p : Char → Bool} {c : Char} {rest : List Char}
    (h : c ∈ (rest.dropWhile p).head?) : p c = false := by
  have hnot := List.head?_dropWhile_not p rest
  rw [Option.mem_def.mp h] at hnot
  exact hnot

/-- No longer run stands in front of a text than the one that is taken off it. -/
theorem length_le_of_run {p : Char → Bool} {c : Char} {rest run : List Char} (hrun : ∀ d ∈ run, p d)
    (h : c :: run <+: c :: rest) : (c :: run).length ≤ (c :: rest.takeWhile p).length := by
  obtain ⟨more, rfl⟩ := (List.cons_prefix_cons.mp h).2
  rw [List.takeWhile_append_of_pos hrun]
  exact Nat.succ_le_succ (List.prefix_append _ _).length_le

/-! ## Strings -/

theorem stringTail?_of_body {body : List Char} (h : StringBody body) (following : List Char) :
    stringTail? (body ++ '"' :: following) = some (body ++ ['"']) := by
  induction h with
  | nil => cases following <;> rfl
  | @char c rest hquote hbackslash _ ih =>
      obtain ⟨d, tail, hcons⟩ : ∃ d tail, rest ++ '"' :: following = d :: tail :=
        List.exists_cons_of_ne_nil (by simp)
      rw [hcons] at ih
      rw [List.cons_append, hcons]
      simp only [stringTail?, hquote, hbackslash, if_false, ih]
      rfl
  | pair c _ ih =>
      simp only [List.cons_append, stringTail?, ih]
      rfl

theorem exists_body_of_stringTail? {rest tail : List Char} (h : stringTail? rest = some tail) :
    ∃ body, StringBody body ∧ tail = body ++ ['"'] := by
  fun_induction stringTail? rest generalizing tail with
  | case1 => cases h
  | case2 =>
      obtain rfl : ['"'] = tail := by simpa using h
      exact ⟨[], .nil, rfl⟩
  | case3 => cases h
  | case4 rest =>
      obtain rfl : ['"'] = tail := by simpa using h
      exact ⟨[], .nil, rfl⟩
  | case5 d rest _ ih =>
      obtain ⟨tail, htail, rfl⟩ := Option.map_eq_some_iff.mp h
      obtain ⟨body, hbody, rfl⟩ := ih htail
      exact ⟨_, .pair d hbody, rfl⟩
  | case6 c d rest hquote hbackslash ih =>
      obtain ⟨tail, htail, rfl⟩ := Option.map_eq_some_iff.mp h
      obtain ⟨body, hbody, rfl⟩ := ih htail
      exact ⟨_, .char hquote hbackslash hbody, rfl⟩

/-- A string in front of a text is the one that is cut off it. -/
theorem stringTail?_of_has {text rest : List Char} (htext : Kind.string.Has text) (h : text <+: '"' :: rest) :
    ∃ tail, stringTail? rest = some tail ∧ text = '"' :: tail := by
  obtain ⟨body, hbody, rfl⟩ := htext
  obtain ⟨following, hfollowing⟩ := h
  obtain rfl : body ++ '"' :: following = rest := by simpa using hfollowing
  exact ⟨_, stringTail?_of_body hbody following, rfl⟩

/-! ## Numbers and symbols -/

theorem startsAsNumber_cons {c : Char} {rest : List Char} :
    StartsAsNumber (c :: rest) ↔ startsNumber c rest := by
  simp only [StartsAsNumber, startsNumber, Bool.or_eq_true, Bool.and_eq_true, beq_iff_eq]
  constructor
  · rintro ⟨d, more, hd, h | h⟩
    · obtain ⟨rfl, -⟩ := List.cons.inj h
      exact .inl hd
    · obtain ⟨rfl, rfl⟩ := List.cons.inj h
      exact .inr ⟨rfl, by simpa using hd⟩
  · rintro (hc | ⟨rfl, hrest⟩)
    · exact ⟨c, rest, hc, .inl rfl⟩
    · cases rest with
      | nil => cases hrest
      | cons d rest => exact ⟨d, rest, by simpa using hrest, .inr rfl⟩

/-- Behind its first character a number has digits only. -/
theorem isDigit_of_mem_number {c : Char} {run : List Char} (h : Kind.number.Has (c :: run)) :
    ∀ d ∈ run, isDigit d := by
  obtain ⟨digits, hne, hdigits, rfl | h⟩ := h
  · exact (List.forall_mem_cons.mp hdigits).2
  · obtain ⟨-, rfl⟩ := List.cons.inj h
    exact hdigits

theorem has_number {c : Char} {run : List Char} (hstarts : startsNumber c run) (hrun : ∀ d ∈ run, isDigit d) :
    Kind.number.Has (c :: run) := by
  by_cases hc : isDigit c
  · exact ⟨c :: run, List.cons_ne_nil _ _, List.forall_mem_cons.mpr ⟨hc, hrun⟩, .inl rfl⟩
  · have hminus : c = '-' ∧ run.head?.any isDigit := by simpa [startsNumber, hc] using hstarts
    obtain ⟨rfl, hhead⟩ := hminus
    refine ⟨run, ?_, hrun, .inr rfl⟩
    rintro rfl
    cases hhead

/-! ## What is cut -/

theorem delimiterKind?_eq_some {c : Char} {kind : Kind} (h : delimiterKind? c = some kind) :
    ∃ d : Delimiter, kind = .opening d ∧ c = d.opener ∨ kind = .closing d ∧ c = d.closer := by
  unfold delimiterKind? at h
  split at h
  · exact ⟨.paren, .inl ⟨(Option.some.inj h).symm, ‹_›⟩⟩
  · split at h
    · exact ⟨.paren, .inr ⟨(Option.some.inj h).symm, ‹_›⟩⟩
    · split at h
      · exact ⟨.brace, .inl ⟨(Option.some.inj h).symm, ‹_›⟩⟩
      · split at h
        · exact ⟨.brace, .inr ⟨(Option.some.inj h).symm, ‹_›⟩⟩
        · cases h

theorem reads_delimiter {c : Char} {kind : Kind} (h : delimiterKind? c = some kind) (following : List Char) :
    Reads kind [c] [c] following := by
  obtain ⟨d, ⟨rfl, rfl⟩ | ⟨rfl, rfl⟩⟩ := delimiterKind?_eq_some h
  · refine .token rfl trivial fun longer _ hlonger => ?_
    obtain rfl : longer = [d.opener] := hlonger
    exact Nat.le_refl _
  · refine .token rfl trivial fun longer _ hlonger => ?_
    obtain rfl : longer = [d.closer] := hlonger
    exact Nat.le_refl _

theorem reads_comment {rest following : List Char}
    (h : ';' :: rest = ';' :: (rest.takeWhile fun d => !isLineEnd d) ++ following) :
    Reads .comment (';' :: rest.takeWhile fun d => !isLineEnd d) (';' :: rest.takeWhile fun d => !isLineEnd d)
      following := by
  have hlineEnd (c : Char) : (!isLineEnd c) = true ↔ c ≠ '\n' ∧ c ≠ '\r' := by simp [isLineEnd]
  refine .token ⟨_, fun c hc => ?_, rfl⟩ ?_ fun longer hlonger hclass => ?_
  · have hall := List.all_takeWhile (p := fun d => !isLineEnd d) (l := rest)
    exact (hlineEnd c).mp (List.all_eq_true.mp hall c hc)
  · intro c hc
    rw [eq_dropWhile_of_cons_eq h] at hc
    have hend : isLineEnd c := by simpa using not_of_mem_head?_dropWhile hc
    simpa [isLineEnd] using hend
  · obtain ⟨body, hbody, rfl⟩ := hclass
    rw [← h] at hlonger
    exact length_le_of_run (fun c hc => (hlineEnd c).mpr (hbody c hc)) hlonger

theorem reads_number {c : Char} {rest following : List Char} (hstarts : startsNumber c rest)
    (h : c :: rest = c :: rest.takeWhile isDigit ++ following) :
    Reads .number (c :: rest.takeWhile isDigit) (c :: rest.takeWhile isDigit) following := by
  have hrun : ∀ d ∈ rest.takeWhile isDigit, isDigit d := List.all_eq_true.mp List.all_takeWhile
  have hstarts' : startsNumber c (rest.takeWhile isDigit) := by
    cases rest with
    | nil => exact hstarts
    | cons d rest =>
        by_cases hd : isDigit d
        · simpa [startsNumber, hd] using hstarts
        · simpa [startsNumber, hd] using hstarts
  refine .token (has_number hstarts' hrun) ?_ fun longer hlonger hclass => ?_
  · intro d hd
    rw [eq_dropWhile_of_cons_eq h] at hd
    exact not_of_mem_head?_dropWhile hd
  · rw [← h] at hlonger
    cases longer with
    | nil => exact Nat.zero_le _
    | cons d run =>
        obtain ⟨rfl, -⟩ := List.cons_prefix_cons.mp hlonger
        exact length_le_of_run (isDigit_of_mem_number hclass) hlonger

theorem reads_symbol {c : Char} {rest following : List Char} (hc : isSymbolChar c)
    (hstarts : ¬ startsNumber c rest) (h : c :: rest = c :: rest.takeWhile isSymbolChar ++ following) :
    Reads .symbol (c :: rest.takeWhile isSymbolChar) (c :: rest.takeWhile isSymbolChar) following := by
  have hrun : ∀ d ∈ rest.takeWhile isSymbolChar, isSymbolChar d := List.all_eq_true.mp List.all_takeWhile
  have hstarts' : ¬ startsNumber c (rest.takeWhile isSymbolChar) := by
    have hsame := startsNumber_append_of_stops c (rest.takeWhile isSymbolChar) (stops_dropWhile rest)
    rw [List.takeWhile_append_dropWhile] at hsame
    rwa [← hsame]
  refine .token ⟨List.cons_ne_nil _ _, List.forall_mem_cons.mpr ⟨hc, hrun⟩, ?_⟩ ?_ fun longer hlonger hclass => ?_
  · rwa [startsAsNumber_cons]
  · intro d hd
    rw [eq_dropWhile_of_cons_eq h] at hd
    exact not_of_mem_head?_dropWhile hd
  · rw [← h] at hlonger
    obtain ⟨-, hchars, -⟩ := hclass
    cases longer with
    | nil => exact Nat.zero_le _
    | cons d run =>
        obtain ⟨rfl, -⟩ := List.cons_prefix_cons.mp hlonger
        exact length_le_of_run (List.forall_mem_cons.mp hchars).2 hlonger

theorem reads_string {rest tail following : List Char} (htail : stringTail? rest = some tail)
    (h : '"' :: rest = '"' :: tail ++ following) : Reads .string ('"' :: tail) ('"' :: tail) following := by
  obtain ⟨body, hbody, rfl⟩ := exists_body_of_stringTail? htail
  refine .token ⟨body, hbody, rfl⟩ trivial fun longer hlonger hclass => ?_
  rw [← h] at hlonger
  obtain ⟨other, hother, rfl⟩ := stringTail?_of_has hclass hlonger
  obtain rfl := Option.some.inj (htail.symm.trans hother)
  exact Nat.le_refl _

/-- A character that is no blank, and starts none of the lexemes that are cut, starts no text of any kind. -/
theorem not_has_of_front {c : Char} (hdelimiter : delimiterKind? c = none) (hcomment : c ≠ ';') (hquote : c ≠ '"')
    (hsymbol : isSymbolChar c = false) (kind : Kind) (rest : List Char) : ¬ kind.Has (c :: rest) := by
  intro h
  cases kind with
  | number =>
      obtain ⟨digits, hne, hdigits, rfl | h⟩ := h
      · have hc := isSymbolChar_of_isDigit (hdigits c List.mem_cons_self)
        rw [hsymbol] at hc
        cases hc
      · obtain ⟨rfl, -⟩ := List.cons.inj h
        exact absurd hsymbol (by decide)
  | string =>
      obtain ⟨body, -, h⟩ := h
      exact hquote (List.cons.inj h).1
  | symbol =>
      have hc := h.2.1 c List.mem_cons_self
      rw [hsymbol] at hc
      cases hc
  | comment =>
      obtain ⟨body, -, h⟩ := h
      exact hcomment (List.cons.inj h).1
  | opening d =>
      obtain ⟨rfl, -⟩ := List.cons.inj (show c :: rest = [d.opener] from h)
      cases d <;> exact absurd hdelimiter (by decide)
  | closing d =>
      obtain ⟨rfl, -⟩ := List.cons.inj (show c :: rest = [d.closer] from h)
      cases d <;> exact absurd hdelimiter (by decide)
  | illegal => exact h
  | eof => exact h

/-- Every lexeme that is cut off the front of the input is read as it should be. -/
theorem reads_of_front {c : Char} {rest text following : List Char} {kind : Kind}
    (hfront : front c rest = .lexeme kind text) (h : c :: rest = text ++ following) :
    Reads kind (literal kind text) text following := by
  unfold front at hfront
  split at hfront
  · cases hfront
  · rename_i hblank
    split at hfront
    · rename_i delimiter hdelimiter
      obtain ⟨rfl, rfl⟩ : delimiter = kind ∧ [c] = text := by simpa using hfront
      have hreads := reads_delimiter hdelimiter following
      obtain ⟨d, ⟨rfl, -⟩ | ⟨rfl, -⟩⟩ := delimiterKind?_eq_some hdelimiter
      · exact hreads
      · exact hreads
    · rename_i hdelimiter
      split at hfront
      · rename_i hcomment
        subst hcomment
        obtain ⟨rfl, rfl⟩ := Piece.lexeme.inj hfront
        exact reads_comment h
      · rename_i hcomment
        split at hfront
        · rename_i hquote
          subst hquote
          split at hfront
          · rename_i tail htail
            obtain ⟨rfl, rfl⟩ := Piece.lexeme.inj hfront
            exact reads_string htail h
          · rename_i htail
            obtain ⟨rfl, rfl⟩ := Piece.lexeme.inj hfront
            obtain rfl : following = [] := by simpa using h
            refine .unterminated fun text hprefix htext => ?_
            obtain ⟨tail, hsome, -⟩ := stringTail?_of_has htext hprefix
            rw [htail] at hsome
            cases hsome
        · rename_i hquote
          split at hfront
          · rename_i hstarts
            obtain ⟨rfl, rfl⟩ := Piece.lexeme.inj hfront
            exact reads_number hstarts h
          · rename_i hstarts
            split at hfront
            · rename_i hsymbol
              obtain ⟨rfl, rfl⟩ := Piece.lexeme.inj hfront
              exact reads_symbol hsymbol hstarts h
            · rename_i hsymbol
              obtain ⟨rfl, rfl⟩ := Piece.lexeme.inj hfront
              have hliteral : literal .illegal [c] = "unexpected character ".toList ++ Quoted.char c := by
                simp only [literal, complaint, hquote, if_false]
              rw [hliteral]
              exact .stray (by simpa using hblank)
                (not_has_of_front hdelimiter hcomment hquote (by simpa using hsymbol))

/-! ## What is cut where -/

theorem takeWhile_append_of_head? {p : Char → Bool} {run following : List Char} (hrun : ∀ d ∈ run, p d)
    (hends : ∀ d ∈ following.head?, p d = false) : (run ++ following).takeWhile p = run := by
  rw [List.takeWhile_append_of_pos hrun]
  cases following with
  | nil => rw [List.takeWhile_nil, List.append_nil]
  | cons d following => rw [List.takeWhile_cons_of_neg (by simp [hends d rfl]), List.append_nil]

theorem startsNumber_append {c : Char} {run : List Char} (h : startsNumber c run) (following : List Char) :
    startsNumber c (run ++ following) := by
  cases run with
  | nil =>
      have hc : isDigit c := by simpa [startsNumber] using h
      simp [startsNumber, hc]
  | cons d run => exact h

theorem startsNumber_of_has {c : Char} {run : List Char} (h : Kind.number.Has (c :: run)) : startsNumber c run := by
  rw [← startsAsNumber_cons]
  obtain ⟨digits, hne, hdigits, htext⟩ := h
  cases digits with
  | nil => exact absurd rfl hne
  | cons d digits => exact ⟨d, digits, hdigits d List.mem_cons_self, htext⟩

/-- What cannot extend a number or a symbol can follow any token but a comment. -/
theorem endsBefore_of_stops {kind : Kind} {following : List Char} (h : Stops following) (hkind : kind ≠ .comment) :
    kind.EndsBefore following := by
  cases kind with
  | number =>
      intro c hc
      cases hdigit : isDigit c with
      | false => rfl
      | true => exact absurd (isSymbolChar_of_isDigit hdigit) (by simp [h c hc])
  | symbol => exact h
  | comment => exact absurd rfl hkind
  | _ => trivial

/-- A text of a kind is the lexeme at the front, in front of whatever can follow that kind. -/
theorem front_of_has {kind : Kind} {c : Char} {run following : List Char} (h : kind.Has (c :: run))
    (hends : kind.EndsBefore following) : front c (run ++ following) = .lexeme kind (c :: run) := by
  cases kind with
  | number =>
      have hstarts := startsNumber_of_has h
      rw [front_of_isSymbolChar (isSymbolChar_of_startsNumber hstarts), if_pos (startsNumber_append hstarts following),
        takeWhile_append_of_head? (isDigit_of_mem_number h) hends]
  | symbol =>
      obtain ⟨-, hchars, hstarts⟩ := h
      obtain ⟨hc, hrun⟩ := List.forall_mem_cons.mp hchars
      rw [startsAsNumber_cons, ← startsNumber_append_of_stops c run hends] at hstarts
      rw [front_of_isSymbolChar hc, if_neg hstarts, takeWhile_append_of_head? hrun hends]
  | string =>
      obtain ⟨body, hbody, htext⟩ := h
      obtain ⟨rfl, rfl⟩ := List.cons.inj htext
      rw [List.append_assoc, List.singleton_append]
      simp only [front, stringTail?_of_body hbody]
      rfl
  | comment =>
      obtain ⟨body, hbody, htext⟩ := h
      obtain ⟨rfl, rfl⟩ := List.cons.inj htext
      have hrun : ∀ d ∈ run, (!isLineEnd d) = true := fun d hd => by simp [isLineEnd, hbody d hd]
      have hfollowing : ∀ d ∈ following.head?, (!isLineEnd d) = false := by
        intro d hd
        rcases hends d hd with rfl | rfl
        · rfl
        · rfl
      have hfront : front ';' (run ++ following) =
          .lexeme .comment (';' :: (run ++ following).takeWhile fun d => !isLineEnd d) := rfl
      rw [hfront, takeWhile_append_of_head? hrun hfollowing]
  | opening d =>
      obtain ⟨rfl, rfl⟩ := List.cons.inj (show c :: run = [d.opener] from h)
      cases d <;> rfl
  | closing d =>
      obtain ⟨rfl, rfl⟩ := List.cons.inj (show c :: run = [d.closer] from h)
      cases d <;> rfl
  | illegal => exact h.elim
  | eof => exact h.elim

/-- A text of a kind is cut off by itself, in front of whatever can follow that kind. -/
theorem cut_of_has {kind : Kind} {text following : List Char} (h : kind.Has text) (hends : kind.EndsBefore following) :
    cut (text ++ following) = .lexeme kind text :: cut following := by
  cases text with
  | nil => exact absurd rfl h.ne_nil
  | cons c run => exact cut_append (front_of_has h hends) rfl

end Piece

end BraceLisp.Source
