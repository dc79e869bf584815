import BraceLisp.Proofs.Source.Comments
import BraceLisp.Proofs.Source.Seam
import BraceLisp.Proofs.Text.Seam
import BraceLisp.Session.Basic

/-!
# Padding

Blanks and whole lines of comment can be put anywhere into a text but inside its lexemes, and the text is read as the
same values. At the end of a number, a symbol, a string or a delimiter the lexeme ends where it did, because no padding
starts with a character that could go on with it. At the end of a comment the padding goes on with the comment as far as
its first line end.
-/

namespace BraceLisp.Source

open CharClass

/-- Blanks and comments, each comment with a line feed behind it. -/
inductive Padding : List Char → Prop where
  | nil : Padding []
  | blank {c : Char} {rest : List Char} (blank : isBlank c) (padding : Padding rest) : Padding (c :: rest)
  | comment {body rest : List Char} (noLineEnd : ∀ c ∈ body, isLineEnd c = false) (padding : Padding rest) :
      Padding (';' :: (body ++ '\n' :: rest))

/-- The place between two parts of a text is inside a lexeme, of which each part has some characters. -/
def Piece.Splits (first second : List Char) : Prop :=
  ∃ before kind text after, cut (first ++ second) = before ++ .lexeme kind text :: after ∧
    (before.flatMap Piece.text).length < first.length ∧
    first.length < (before.flatMap Piece.text).length + text.length

/-! ## Padding in front of a text -/

theorem has_comment {body : List Char} (h : ∀ c ∈ body, isLineEnd c = false) : Kind.comment.Has (';' :: body) :=
  ⟨body, fun c hc => by simpa [isLineEnd] using h c hc, rfl⟩

/-- A comment is one word, whatever it says. -/
theorem withoutComments_words_comment {body following : List Char} (hbody : ∀ c ∈ body, isLineEnd c = false)
    (hends : Kind.comment.EndsBefore following) :
    withoutComments (words (';' :: body ++ following)) = withoutComments (words following) := by
  rw [words, Piece.cut_of_has (has_comment hbody) hends]
  rfl

/-- Padding in front of a text has no part in its words, comments apart. -/
theorem Padding.withoutComments_words {padding : List Char} (h : Padding padding) (following : List Char) :
    withoutComments (words (padding ++ following)) = withoutComments (words following) := by
  induction h with
  | nil => rfl
  | blank hblank _ ih => rw [List.cons_append, words_cons_of_isBlank hblank, ih]
  | @comment body rest hbody _ ih =>
      have hends : Kind.comment.EndsBefore ('\n' :: (rest ++ following)) := by
        intro c hc
        exact .inl (Option.some.inj hc).symm
      have hwords := withoutComments_words_comment hbody hends
      rw [words_cons_of_isBlank (by decide), ih] at hwords
      simpa using hwords

/-- The line ends of padding, if it has any, are followed by padding. -/
theorem Padding.exists_lineEnd {padding : List Char} (h : Padding padding) :
    ∃ line rest, padding = line ++ rest ∧ (∀ c ∈ line, isLineEnd c = false) ∧ Padding rest ∧
      ∀ c ∈ rest.head?, isLineEnd c := by
  induction h with
  | nil => exact ⟨[], [], rfl, List.forall_mem_nil _, .nil, fun c hc => nomatch hc⟩
  | @blank c rest hblank hrest ih =>
      cases hend : isLineEnd c with
      | true =>
          refine ⟨[], c :: rest, rfl, List.forall_mem_nil _, .blank hblank hrest, fun d hd => ?_⟩
          obtain rfl := Option.some.inj hd
          exact hend
      | false =>
          obtain ⟨line, more, rfl, hline, hmore, hhead⟩ := ih
          exact ⟨c :: line, more, rfl, List.forall_mem_cons.mpr ⟨hend, hline⟩, hmore, hhead⟩
  | @comment body rest hbody hrest _ =>
      refine ⟨';' :: body, '\n' :: rest, rfl, List.forall_mem_cons.mpr ⟨by decide, hbody⟩, ?_, fun c hc => ?_⟩
      · exact .blank (by decide) hrest
      · obtain rfl := Option.some.inj hc
        decide

/-! ## Padding between two parts of a text -/

/-- No padding goes on with a token, unless the token is a comment. -/
theorem Padding.endsBefore {padding following : List Char} (h : Padding padding) {kind : Kind}
    (hcomment : kind ≠ .comment) (hends : kind.EndsBefore following) : kind.EndsBefore (padding ++ following) := by
  cases h with
  | nil => exact hends
  | @blank c rest hblank _ =>
      refine Piece.endsBefore_of_stops (Piece.stops_cons ?_ _) hcomment
      cases hsymbol : isSymbolChar c with
      | false => rfl
      | true => exact absurd hblank (by simp [Piece.isBlank_of_isSymbolChar hsymbol])
  | comment => exact Piece.endsBefore_of_stops (Piece.stops_cons (by decide) _) hcomment

/-- Padding at the end of a comment makes it longer, up to the first line end of the padding. -/
theorem Padding.withoutComments_words_comment {padding body following : List Char} (h : Padding padding)
    (hbody : ∀ c ∈ body, isLineEnd c = false) (hends : Kind.comment.EndsBefore following) :
    withoutComments (words (';' :: body ++ (padding ++ following))) = withoutComments (words following) := by
  obtain ⟨line, rest, rfl, hline, hrest, hhead⟩ := h.exists_lineEnd
  have hlonger : ∀ c ∈ body ++ line, isLineEnd c = false := List.forall_mem_append.mpr ⟨hbody, hline⟩
  have hrestEnds : Kind.comment.EndsBefore (rest ++ following) := by
    cases rest with
    | nil => exact hends
    | cons c rest => exact fun d hd => eq_of_isLineEnd (hhead d hd)
  have hwords := Source.withoutComments_words_comment hlonger hrestEnds
  rw [hrest.withoutComments_words] at hwords
  simpa using hwords

/-- Padding behind a lexeme, or behind what follows it, changes no words if it changes none of what follows. -/
theorem Padding.withoutComments_words_behind {padding text rest second : List Char} {kind : Kind}
    (h : Padding padding) (hhas : kind.Has text) (hends : kind.EndsBefore (rest ++ second))
    (hrest : withoutComments (words (rest ++ (padding ++ second))) = withoutComments (words (rest ++ second))) :
    withoutComments (words (text ++ (rest ++ (padding ++ second)))) =
      withoutComments (words (text ++ (rest ++ second))) := by
  have hsame (hends' : kind.EndsBefore (rest ++ (padding ++ second))) :
      withoutComments (words (text ++ (rest ++ (padding ++ second)))) =
        withoutComments (words (text ++ (rest ++ second))) := by
    rw [words_append_of_has hhas hends, words_append_of_has hhas hends', ← List.singleton_append,
      withoutComments_append, hrest, ← withoutComments_append, List.singleton_append]
  by_cases hnil : rest = []
  · subst hnil
    by_cases hcomment : kind = .comment
    · subst hcomment
      obtain ⟨body, hbody, rfl⟩ := hhas
      have hnoLineEnd : ∀ c ∈ body, isLineEnd c = false := fun c hc => by simp [isLineEnd, hbody c hc]
      rw [List.nil_append] at hends
      rw [List.nil_append, List.nil_append, h.withoutComments_words_comment hnoLineEnd hends,
        Source.withoutComments_words_comment hnoLineEnd hends]
    · exact hsame (h.endsBefore hcomment hends)
  · exact hsame (hends.of_append hnil (padding ++ second))

/-- A lexeme at the front of a text that does not reach over a place ends in front of it. -/
theorem exists_eq_append_of_not_splits {kind : Kind} {first second text following : List Char} (hfirst : first ≠ [])
    (hseam : ¬ Piece.Splits first second) (hsplit : first ++ second = text ++ following)
    (hcut : Piece.cut (first ++ second) = .lexeme kind text :: Piece.cut following) :
    ∃ rest, first = text ++ rest ∧ following = rest ++ second := by
  rcases List.append_eq_append_iff.mp hsplit with ⟨excess, rfl, rfl⟩ | ⟨rest, rfl, rfl⟩
  · cases excess with
    | nil => exact ⟨[], by rw [List.append_nil, List.append_nil], rfl⟩
    | cons d excess =>
        refine absurd ⟨[], kind, _, _, hcut, List.length_pos_iff.mpr hfirst, ?_⟩ hseam
        rw [List.flatMap_nil, List.length_nil, List.length_append, List.length_cons]
        omega
  · exact ⟨rest, rfl, rfl⟩

/-- A place inside a lexeme is inside it too behind another piece. -/
theorem Piece.Splits.append {piece : Piece} {first second : List Char} (h : Splits first second)
    (hcut : cut (piece.text ++ (first ++ second)) = piece :: cut (first ++ second)) :
    Splits (piece.text ++ first) second := by
  obtain ⟨before, kind, text, after, hpieces, hbehind, hbefore⟩ := h
  refine ⟨piece :: before, kind, text, after, ?_, ?_, ?_⟩
  · rw [List.append_assoc, hcut, hpieces, List.cons_append]
  · rw [List.flatMap_cons, List.length_append, List.length_append]
    omega
  · rw [List.flatMap_cons, List.length_append, List.length_append]
    omega

/-- Padding anywhere but inside a lexeme has no part in the words of a text, comments apart. -/
theorem Padding.withoutComments_words_between {padding : List Char} (hpadding : Padding padding)
    (first second : List Char) (hlegal : ∀ w ∈ words (first ++ second), w.kind ≠ .illegal)
    (hseam : ¬ Piece.Splits first second) :
    withoutComments (words (first ++ (padding ++ second))) = withoutComments (words (first ++ second)) := by
  -- the first piece of the text ends in front of the place, or it is blanks that reach over it
  induction hlength : first.length using Nat.strongRecOn generalizing first with
  | ind length ih =>
      cases first with
      | nil => exact hpadding.withoutComments_words second
      | cons c more =>
          obtain ⟨following, hsplit, hnonempty, hcut⟩ := Piece.exists_cut_cons c (more ++ second)
          rw [← List.cons_append] at hsplit hcut
          have hfirst : c :: more ≠ [] := List.cons_ne_nil _ _
          generalize hcons : c :: more = first at *
          generalize hfront : Piece.front c (more ++ second) = piece at *
          have hbehind (rest : List Char) (htext : first = piece.text ++ rest) (hfollowing : following = rest ++ second)
              (hlegal : ∀ w ∈ words (rest ++ second), w.kind ≠ .illegal) :
              withoutComments (words (rest ++ (padding ++ second))) = withoutComments (words (rest ++ second)) := by
            refine ih rest.length ?_ rest hlegal (fun hin => hseam ?_) rfl
            · have hpositive := List.length_pos_iff.mpr hnonempty
              rw [← hlength, htext, List.length_append]
              omega
            · rw [htext, hfollowing, List.append_assoc] at hcut
              exact htext ▸ hin.append hcut
          cases piece with
          | blanks text =>
              have hblank := Piece.isBlank_of_front hfront
              rcases List.append_eq_append_iff.mp hsplit with ⟨excess, htext, -⟩ | ⟨rest, rfl, rfl⟩
              · have hfirst : ∀ d ∈ first, isBlank d := by
                  intro d hd
                  refine hblank d ?_
                  rw [show text = first ++ excess from htext]
                  exact List.mem_append_left excess hd
                rw [words_append_of_isBlank hfirst, words_append_of_isBlank hfirst, hpadding.withoutComments_words]
              · have hwords (behind : List Char) : words (text ++ rest ++ behind) = words (rest ++ behind) := by
                  rw [List.append_assoc, words_append_of_isBlank hblank]
                rw [Piece.text, hwords] at hlegal ⊢
                rw [hwords]
                exact hbehind rest rfl rfl hlegal
          | lexeme kind text =>
              obtain ⟨rest, rfl, rfl⟩ := exists_eq_append_of_not_splits hfirst hseam hsplit hcut
              rw [words, hcut] at hlegal
              have hlegalHere : kind ≠ .illegal := hlegal ⟨kind, Piece.literal kind text⟩ List.mem_cons_self
              have hlegalBehind : ∀ w ∈ words (rest ++ second), w.kind ≠ .illegal :=
                fun w hw => hlegal w (List.mem_cons_of_mem _ hw)
              have hreads := Piece.reads_of_front hfront (hcons ▸ hsplit)
              rw [List.append_assoc, List.append_assoc]
              exact hpadding.withoutComments_words_behind (hreads.has_text hlegalHere)
                (hreads.endsBefore hlegalHere) (hbehind rest rfl rfl hlegalBehind)

/-- A place between two pieces is inside no lexeme. -/
theorem Piece.not_splits_of_cut {first second : List Char} {pieces others : List Piece}
    (hcut : cut (first ++ second) = pieces ++ others) (hfirst : pieces.flatMap Piece.text = first) :
    ¬ Splits first second := by
  rintro ⟨before, kind, text, after, hpieces, hbehind, hbefore⟩
  subst hfirst
  rcases List.append_eq_append_iff.mp (hpieces.symm.trans hcut) with ⟨more, rfl, hmore⟩ | ⟨more, rfl, -⟩
  · cases more with
    | nil =>
        rw [List.append_nil] at hbehind
        exact absurd hbehind (Nat.lt_irrefl _)
    | cons piece more =>
        obtain ⟨rfl, -⟩ := List.cons.inj hmore
        rw [List.flatMap_append, List.flatMap_cons, Piece.text, List.length_append, List.length_append] at hbefore
        omega
  · rw [List.flatMap_append, List.length_append] at hbehind
    omega

/-! ## Padding in a text given as bytes -/

theorem toNat_lt_of_isBlank {c : Char} (h : isBlank c) : c.toNat < 0x80 := by
  simp only [isBlank, Bool.or_eq_true, beq_iff_eq] at h
  rcases h with ((((rfl | rfl) | rfl) | rfl) | rfl) | rfl <;> decide

theorem Padding.exists_head? {padding : List Char} (h : Padding padding) (hne : padding ≠ []) :
    ∃ c ∈ padding.head?, c.toNat < 0x80 := by
  cases h with
  | nil => exact absurd rfl hne
  | blank hblank _ => exact ⟨_, rfl, toNat_lt_of_isBlank hblank⟩
  | comment => exact ⟨_, rfl, by decide⟩

theorem Padding.exists_getLast? {padding : List Char} (h : Padding padding) (hne : padding ≠ []) :
    ∃ c ∈ padding.getLast?, c.toNat < 0x80 := by
  induction h with
  | nil => exact absurd rfl hne
  | @blank c rest hblank _ ih =>
      cases rest with
      | nil => exact ⟨c, rfl, toNat_lt_of_isBlank hblank⟩
      | cons d rest =>
          rw [List.getLast?_cons_cons]
          exact ih (List.cons_ne_nil _ _)
  | @comment body rest _ _ ih =>
      rw [← List.cons_append, List.getLast?_append]
      cases rest with
      | nil => exact ⟨'\n', rfl, by decide⟩
      | cons d rest =>
          obtain ⟨c, hc, hsmall⟩ := ih (List.cons_ne_nil _ _)
          refine ⟨c, ?_, hsmall⟩
          rw [List.getLast?_cons_cons, Option.mem_def.mp hc]
          rfl

variable {source first second padding : Bytes} {root : Root}

/-- Padding in a text is read as it is read alone. -/
theorem Padding.decode_between (h : Padding (Utf8.decode padding))
    (hplace : Utf8.decode (first ++ second) = Utf8.decode first ++ Utf8.decode second) :
    Utf8.decode (first ++ (padding ++ second)) = Utf8.decode first ++ (Utf8.decode padding ++ Utf8.decode second) := by
  by_cases hne : Utf8.decode padding = []
  · have hbytes := Utf8.flatMap_bytes_items padding
    rw [List.map_eq_nil_iff.mp hne] at hbytes
    rw [hne, ← hbytes]
    exact hplace
  · exact Utf8.decode_between (h.exists_head? hne) (h.exists_getLast? hne)

/--
A text that can be parsed can be parsed with padding at any place between two of its characters that is inside no
lexeme, and is read as the same value.
-/
theorem padding_irrelevant (hparse : Session.parse source (first ++ second) = .ok root)
    (hplace : Utf8.decode (first ++ second) = Utf8.decode first ++ Utf8.decode second)
    (hseam : ¬ Piece.Splits (Utf8.decode first) (Utf8.decode second)) (hpadding : Padding (Utf8.decode padding))
    (other : Bytes) :
    ∃ padded, Session.parse other (first ++ (padding ++ second)) = .ok padded ∧ padded.read = root.read := by
  rw [Session.parse, hplace] at hparse
  have hmeans := exists_parse_iff_means.mp ⟨root, hparse, rfl⟩
  have hwords := hpadding.withoutComments_words_between _ _ hmeans.kind_ne_illegal hseam
  rw [← means_withoutComments_iff, ← hwords, means_withoutComments_iff, ← hpadding.decode_between hplace] at hmeans
  obtain ⟨padded, hpadded, hprogram⟩ := exists_parse_iff_means.mpr hmeans
  refine ⟨padded, hpadded, ?_⟩
  rw [Root.read, Root.read, hprogram]

/-- At the end of a comment a line of padding goes on with the comment, and the rest of it stands on the next line. -/
theorem padding_irrelevant_behind_comment :
    ∃ root padded, Session.parse [] (Bytes.of "\x7b12 ;a" ++ Bytes.of "\n-5\x7d") = .ok root ∧
      Session.parse [] (Bytes.of "\x7b12 ;a" ++ (Bytes.of " ;\x7b\n;(\n\t" ++ Bytes.of "\n-5\x7d")) = .ok padded ∧
      root.read.render = Bytes.of "(\x7b12 -5\x7d)" ∧ padded.read = root.read := by
  have hread :
      ((Session.parse [] (Bytes.of "\x7b12 ;a" ++ Bytes.of "\n-5\x7d")).toOption.map fun root => root.read.render) =
        some (Bytes.of "(\x7b12 -5\x7d)") := by decide +kernel
  cases hparse : Session.parse [] (Bytes.of "\x7b12 ;a" ++ Bytes.of "\n-5\x7d") with
  | error e =>
      rw [hparse] at hread
      cases hread
  | ok root =>
      rw [hparse] at hread
      have hplace : Utf8.decode (Bytes.of "\x7b12 ;a" ++ Bytes.of "\n-5\x7d") =
          Utf8.decode (Bytes.of "\x7b12 ;a") ++ Utf8.decode (Bytes.of "\n-5\x7d") := by decide +kernel
      have hcut : Piece.cut (Utf8.decode (Bytes.of "\x7b12 ;a") ++ Utf8.decode (Bytes.of "\n-5\x7d")) =
          [.lexeme (.opening .brace) ['{'], .lexeme .number "12".toList, .blanks [' '], .lexeme .comment ";a".toList] ++
            [.blanks ['\n'], .lexeme .number "-5".toList, .lexeme (.closing .brace) ['}']] := by decide +kernel
      have hseam := Piece.not_splits_of_cut hcut (by decide +kernel)
      have hpadding : Padding (Utf8.decode (Bytes.of " ;\x7b\n;(\n\t")) := by
        have hdecode : Utf8.decode (Bytes.of " ;\x7b\n;(\n\t") = " ;\x7b\n;(\n\t".toList := Utf8.decode_encode _
        rw [hdecode]
        have hblank : Padding ['\t'] := .blank (by decide) .nil
        have hcomment : Padding (';' :: (['('] ++ '\n' :: ['\t'])) := .comment (List.forall_mem_singleton.mpr rfl) hblank
        have hcomments : Padding (';' :: (['{'] ++ '\n' :: (';' :: (['('] ++ '\n' :: ['\t'])))) :=
          .comment (List.forall_mem_singleton.mpr rfl) hcomment
        exact .blank (by decide) hcomments
      obtain ⟨padded, hpadded, hsame⟩ := padding_irrelevant hparse hplace hseam hpadding []
      exact ⟨root, padded, rfl, hpadded, Option.some.inj hread, hsame⟩

end BraceLisp.Source
