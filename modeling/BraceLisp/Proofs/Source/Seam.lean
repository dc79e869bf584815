import BraceLisp.Proofs.Source.Words

/-!
# Words across a line end

No lexeme but an open string runs on over the end of a text into the next line: comments end with their line, and a
line end is in no number or symbol. So a line end between two texts of which the first has no illegal word cuts their
words apart, whatever stands on its two sides, and two texts that can be parsed can be parsed one under the other.
-/

namespace BraceLisp.Source

open CharClass

theorem eq_of_isLineEnd {c : Char} (h : isLineEnd c) : c = '\n' ∨ c = '\r' := by
  simpa [isLineEnd] using h

theorem isBlank_of_isLineEnd {c : Char} (h : isLineEnd c) : isBlank c := by
  rcases eq_of_isLineEnd h with rfl | rfl
  · decide
  · decide

theorem isSymbolChar_of_isLineEnd {c : Char} (h : isLineEnd c) : isSymbolChar c = false := by
  rcases eq_of_isLineEnd h with rfl | rfl
  · decide
  · decide

/-- What can follow a token can follow it with something else behind, if there is anything of it. -/
theorem Kind.EndsBefore.of_append {kind : Kind} {first second : List Char} (h : kind.EndsBefore (first ++ second))
    (hne : first ≠ []) (other : List Char) : kind.EndsBefore (first ++ other) := by
  obtain ⟨c, rest, rfl⟩ := List.exists_cons_of_ne_nil hne
  cases kind <;> exact h

/-- A line end can follow any token, by itself or behind what can follow it. -/
theorem Kind.EndsBefore.append_lineEnd {kind : Kind} {c : Char} {following : List Char}
    (h : kind.EndsBefore following) (hc : isLineEnd c) (rest : List Char) :
    kind.EndsBefore (following ++ c :: rest) := by
  cases following with
  | nil =>
      by_cases hcomment : kind = .comment
      · subst hcomment
        intro d hd
        obtain rfl := Option.some.inj hd
        exact eq_of_isLineEnd hc
      · exact Piece.endsBefore_of_stops (Piece.stops_cons (isSymbolChar_of_isLineEnd hc) rest) hcomment
  | cons d following =>
      rw [← List.append_nil (d :: following)] at h
      exact h.of_append (List.cons_ne_nil _ _) _

/-! ## Words at a seam -/

theorem words_append {piece : Piece} {c : Char} {run rest : List Char}
    (hfront : Piece.front c (run ++ rest) = piece) (htext : piece.text = c :: run) :
    words (c :: run ++ rest) = piece.word?.toList ++ words rest := by
  rw [words, Piece.cut_append hfront htext, List.filterMap_cons]
  cases piece with
  | blanks => rfl
  | lexeme => rfl

/-- A blank has no part in the words of a text. -/
theorem words_cons_of_isBlank {c : Char} (hc : isBlank c) (rest : List Char) : words (c :: rest) = words rest := by
  have hrun {d : Char} (hd : isBlank d) (text : List Char) : words (d :: text) = words (text.dropWhile isBlank) := by
    have hfront : Piece.front d (text.takeWhile isBlank ++ text.dropWhile isBlank) =
        .blanks (d :: text.takeWhile isBlank) := by
      rw [List.takeWhile_append_dropWhile, Piece.front, if_pos hd]
    have hwords := words_append hfront rfl
    rwa [List.cons_append, List.takeWhile_append_dropWhile] at hwords
  rw [hrun hc]
  cases rest with
  | nil => rfl
  | cons d rest =>
      by_cases hd : isBlank d
      · rw [List.dropWhile_cons_of_pos hd, hrun hd]
      · rw [List.dropWhile_cons_of_neg hd]

theorem words_append_of_isBlank {blanks : List Char} (h : ∀ c ∈ blanks, isBlank c) (rest : List Char) :
    words (blanks ++ rest) = words rest := by
  induction blanks with
  | nil => rfl
  | cons c blanks ih =>
      obtain ⟨hc, hblanks⟩ := List.forall_mem_cons.mp h
      rw [List.cons_append, words_cons_of_isBlank hc, ih hblanks]

/-- A line end behind legal words cuts them off from what follows. -/
theorem words_append_lineEnd {c : Char} (hc : isLineEnd c) (first rest : List Char)
    (hlegal : ∀ w ∈ words first, w.kind ≠ .illegal) :
    words (first ++ c :: rest) = words first ++ words rest := by
  -- the first piece of the first text is there in front of the line end too, and what follows it is shorter
  induction hlength : first.length using Nat.strongRecOn generalizing first with
  | ind length ih =>
      cases first with
      | nil => exact words_cons_of_isBlank (isBlank_of_isLineEnd hc) rest
      | cons d more =>
          obtain ⟨run, htext, following, rfl⟩ := Piece.text_front d more
          have hfirst : words (d :: run ++ following) = (Piece.front d (run ++ following)).word?.toList ++
              words following := words_append rfl htext
          rw [← List.cons_append, hfirst, List.forall_mem_append] at hlegal
          have hshorter : following.length < length := by
            rw [← hlength, List.length_cons, List.length_append]
            omega
          have hrest := ih following.length hshorter following hlegal.2 rfl
          rw [← List.cons_append, hfirst, List.append_assoc, List.append_assoc, ← hrest]
          cases hfront : Piece.front d (run ++ following) with
          | blanks text =>
              rw [hfront] at htext
              obtain rfl : text = d :: run := htext
              exact words_append_of_isBlank (Piece.isBlank_of_front hfront) _
          | lexeme kind text =>
              rw [hfront] at htext hlegal
              obtain rfl : text = d :: run := htext
              have hkind : kind ≠ .illegal := hlegal.1 _ (List.mem_singleton.mpr rfl)
              have hreads := Piece.reads_of_front hfront rfl
              have hhas := hreads.has_text hkind
              rw [words_append_of_has hhas ((hreads.endsBefore hkind).append_lineEnd hc rest), Piece.word?,
                Piece.literal_of_has hhas]
              rfl

theorem words_opener (d : Delimiter) (rest : List Char) :
    words (d.opener :: rest) = ⟨.opening d, [d.opener]⟩ :: words rest := by
  rw [words, Piece.cut_opener]
  rfl

theorem words_closer (d : Delimiter) (rest : List Char) :
    words (d.closer :: rest) = ⟨.closing d, [d.closer]⟩ :: words rest := by
  rw [words, Piece.cut_closer]
  rfl

/-! ## Texts under one another and between delimiters -/

variable {source other : Bytes} {c : Char} {first second text : List Char} {root root' : Root}

/-- Two texts that can be parsed can be parsed one under the other, and give the values of both. -/
theorem exists_parse_append_lineEnd (hc : isLineEnd c) (hfirst : Root.parse source first = .ok root)
    (hsecond : Root.parse other second = .ok root') (both : Bytes) :
    ∃ joined, Root.parse both (first ++ c :: second) = .ok joined ∧
      joined.program = root.program ++ root'.program := by
  have hmeans := exists_parse_iff_means.mp ⟨root, hfirst, rfl⟩
  have hmeans' := exists_parse_iff_means.mp ⟨root', hsecond, rfl⟩
  rw [exists_parse_iff_means, words_append_lineEnd hc first second hmeans.kind_ne_illegal]
  exact hmeans.append hmeans'

/-- A text that can be parsed can be parsed between delimiters on a line end, and gives the list of its values. -/
theorem exists_parse_between (d : Delimiter) (hc : isLineEnd c) (h : Root.parse source text = .ok root)
    (other : Bytes) :
    ∃ listed, Root.parse other (d.opener :: (text ++ [c, d.closer])) = .ok listed ∧
      listed.program = [d.list root.program] := by
  have hmeans := exists_parse_iff_means.mp ⟨root, h, rfl⟩
  rw [exists_parse_iff_means, words_opener, words_append_lineEnd hc text _ hmeans.kind_ne_illegal, words_closer]
  exact .list d [d.opener] [d.closer] hmeans .nil

end BraceLisp.Source
