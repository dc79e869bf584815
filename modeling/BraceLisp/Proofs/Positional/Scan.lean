import BraceLisp.Positional.Scan
import BraceLisp.Proofs.Source.Scan

/-!
# Tokens found by position

The characters of every token are found where they are looked for, and what is read is what a cursor gives.
-/

namespace BraceLisp.Positional.Supplier

open Source CharClass

variable {s t : Supplier} {c : Char} {rest : List Char}

/-! ## Runs and strings -/

theorem takeRun_of_next {isMember : Char → Bool} (h : s.cursor.rest = c :: rest) (hnext : s.next = .ok t) :
    s.takeRun isMember =
      if isMember c then t.takeRun isMember >>= fun (run, u) => return (c :: run, u) else return ([], s) := by
  rw [takeRun, dif_neg (not_atEnd h), current_eq h]
  change (if isMember c then _ else _) = _
  split
  · split
    · rename_i hb
      cases hnext.symm.trans hb
    · rename_i t' ht'
      obtain rfl := Except.ok.inj (hnext.symm.trans ht')
      rfl
  · rfl

theorem takeRun_eq (isMember : Char → Bool) (s : Supplier) :
    ∃ t, s.takeRun isMember = .ok (s.cursor.rest.takeWhile isMember, t) ∧
      t.cursor = s.cursor.skip (s.cursor.rest.takeWhile isMember).length := by
  induction h : s.cursor.rest generalizing s with
  | nil =>
      rw [takeRun, dif_pos (atEnd_iff.mpr h)]
      exact ⟨s, rfl, rfl⟩
  | cons c rest ih =>
      obtain ⟨t, hnext, hcursor, ht⟩ := next_eq h
      obtain ⟨u, hrun, hu⟩ := ih t ht
      rw [takeRun_of_next h hnext, hrun]
      by_cases hc : isMember c
      · rw [if_pos hc, List.takeWhile_cons_of_pos hc, List.length_cons, Cursor.skip, ← hcursor]
        exact ⟨u, rfl, hu⟩
      · rw [if_neg hc, List.takeWhile_cons_of_neg hc]
        exact ⟨s, rfl, rfl⟩

theorem takeString_of_next (h : s.cursor.rest = c :: rest) (hnext : s.next = .ok t) :
    s.takeString =
      if c = '\\' then
        if t.atEnd then return (none, t)
        else t.current >>= fun d => t.next >>= fun u => u.takeString >>= fun (tail, v) =>
          return (tail.map (c :: d :: ·), v)
      else if c = '"' then return (some [c], t)
      else t.takeString >>= fun (tail, u) => return (tail.map (c :: ·), u) := by
  rw [takeString, dif_neg (not_atEnd h), current_eq h]
  dsimp only [bind, Except.bind]
  split
  · rename_i hb
    cases hnext.symm.trans hb
  · rename_i t' ht'
    obtain rfl := Except.ok.inj (hnext.symm.trans ht')
    split
    · split
      · rfl
      · cases t.current with
        | error b => rfl
        | ok d =>
            dsimp only
            split
            · rename_i hb
              rw [hb]
            · rename_i u hu
              rw [hu]
    · rfl

theorem takeString_nil (h : s.cursor.rest = []) : s.takeString = .ok (none, s) := by
  rw [takeString, dif_pos (atEnd_iff.mpr h)]
  rfl

/-- A string is taken up to its closing quote, or the whole text if that has none. -/
theorem takeString_eq (s : Supplier) :
    ∃ t, s.takeString = .ok (Piece.stringTail? s.cursor.rest, t) ∧
      t.cursor = s.cursor.skip ((Piece.stringTail? s.cursor.rest).getD s.cursor.rest).length := by
  have hquote : ('"' : Char) ≠ '\\' := by decide
  -- The cases are nothing, one last character (a quote or not), a quote, an escaped character, and any other.
  induction h : s.cursor.rest using Piece.stringTail?.induct generalizing s with
  | case1 => exact ⟨s, takeString_nil h, rfl⟩
  | case2 =>
      obtain ⟨t, hnext, hcursor, -⟩ := next_eq h
      rw [takeString_of_next h hnext, Piece.stringTail?, if_neg hquote, if_pos rfl, if_pos rfl]
      exact ⟨t, rfl, hcursor⟩
  | case3 c hc =>
      obtain ⟨t, hnext, hcursor, ht⟩ := next_eq h
      rw [takeString_of_next h hnext, Piece.stringTail?, if_neg hc, if_neg hc, if_pos (atEnd_iff.mpr ht),
        takeString_nil ht]
      exact ⟨t, ite_self _, hcursor⟩
  | case4 d more =>
      obtain ⟨t, hnext, hcursor, -⟩ := next_eq h
      rw [takeString_of_next h hnext, Piece.stringTail?, if_neg hquote, if_pos rfl, if_pos rfl]
      exact ⟨t, rfl, hcursor⟩
  | case5 d more hc ih =>
      obtain ⟨t, hnext, hcursor, ht⟩ := next_eq h
      obtain ⟨u, hnext', hcursor', hu⟩ := next_eq ht
      obtain ⟨v, hstring, hv⟩ := ih u hu
      rw [takeString_of_next h hnext, Piece.stringTail?, if_neg hc, if_pos rfl, if_pos rfl,
        if_neg (not_atEnd ht), current_eq ht, hnext']
      change ∃ w, (u.takeString >>= fun (tail, v) => return (tail.map ('\\' :: d :: ·), v)) = _ ∧ _
      rw [hstring]
      refine ⟨v, rfl, ?_⟩
      rw [hv, hcursor', hcursor]
      cases Piece.stringTail? more with
      | none => rfl
      | some tail => rfl
  | case6 c d more hc hbackslash ih =>
      obtain ⟨t, hnext, hcursor, ht⟩ := next_eq h
      obtain ⟨u, hstring, hu⟩ := ih t ht
      rw [takeString_of_next h hnext, Piece.stringTail?, if_neg hc, if_neg hc, if_neg hbackslash, if_neg hbackslash,
        hstring]
      refine ⟨u, rfl, ?_⟩
      rw [hu, hcursor]
      cases Piece.stringTail? (d :: more) with
      | none => rfl
      | some tail => rfl

/-! ## Tokens -/

theorem takeRun_cons (isMember : Char → Bool) (h : s.cursor.rest = c :: rest) (hc : isMember c) :
    ∃ t, s.takeRun isMember = .ok (c :: rest.takeWhile isMember, t) ∧
      t.cursor = s.cursor.skip (c :: rest.takeWhile isMember).length := by
  have hrun := takeRun_eq isMember s
  rwa [h, List.takeWhile_cons_of_pos hc] at hrun

theorem takeNumber_eq (h : s.cursor.rest = c :: rest) (hc : isDigit c ∨ c = '-') :
    ∃ t, s.takeNumber c = .ok (c :: rest.takeWhile isDigit, t) ∧
      t.cursor = s.cursor.skip (c :: rest.takeWhile isDigit).length := by
  rw [takeNumber]
  by_cases hminus : c = '-'
  · obtain ⟨t, hnext, hcursor, ht⟩ := next_eq h
    obtain ⟨u, hrun, hu⟩ := takeRun_eq isDigit t
    rw [ht, hcursor] at hu
    rw [if_pos hminus, hnext]
    refine ⟨u, ?_, hu⟩
    change (t.takeRun isDigit >>= fun (digits, u) => return (c :: digits, u)) = _
    rw [hrun, ht]
    rfl
  · rw [if_neg hminus]
    exact takeRun_cons _ h (hc.resolve_right hminus)

theorem takeQuoted_eq (h : s.cursor.rest = '"' :: rest) :
    ∃ t, s.takeQuoted = (match Piece.stringTail? rest with
        | some tail => .ok (.string, '"' :: tail, t)
        | none => .ok (.illegal, "unterminated string".toList, t)) ∧
      t.cursor = s.cursor.skip ('"' :: (Piece.stringTail? rest).getD rest).length := by
  obtain ⟨t, hnext, hcursor, ht⟩ := next_eq h
  obtain ⟨u, hstring, hu⟩ := takeString_eq t
  rw [ht, hcursor] at hu
  rw [ht] at hstring
  refine ⟨u, ?_, hu⟩
  rw [takeQuoted, hnext]
  dsimp only [bind, Except.bind]
  rw [hstring]
  cases Piece.stringTail? rest with
  | none => rfl
  | some tail => rfl

theorem startsNumber_eq (c : Char) (rest : List Char) :
    (isDigit c || (c == '-' && isDigit (rest.headD '\x00'))) = Piece.startsNumber c rest := by
  cases rest with
  | nil => simp [Piece.startsNumber, isDigit]
  | cons d rest => rfl

theorem takeWord_eq (h : s.cursor.rest = c :: rest) (hquote : c ≠ '"') :
    ∃ kind text t,
      (if Piece.startsNumber c rest then Piece.lexeme .number (c :: rest.takeWhile isDigit)
        else if isSymbolChar c then .lexeme .symbol (c :: rest.takeWhile isSymbolChar)
        else .lexeme .illegal [c]) = .lexeme kind text ∧
      s.takeWord c = .ok (kind, Piece.literal kind text, t) ∧ t.cursor = s.cursor.skip text.length := by
  rw [takeWord, peek_eq h]
  change ∃ kind text t, _ ∧
    (if (isDigit c || (c == '-' && isDigit (rest.headD '\x00'))) = true then _ else _) = _ ∧ _
  rw [startsNumber_eq]
  by_cases hstarts : Piece.startsNumber c rest
  · have hc : isDigit c ∨ c = '-' := by
      simp only [Piece.startsNumber, Bool.or_eq_true, Bool.and_eq_true, beq_iff_eq] at hstarts
      exact hstarts.imp_right And.left
    obtain ⟨t, hnumber, ht⟩ := takeNumber_eq h hc
    rw [if_pos hstarts, if_pos hstarts, hnumber]
    exact ⟨_, _, t, rfl, rfl, ht⟩
  · rw [if_neg hstarts, if_neg hstarts]
    by_cases hsymbol : isSymbolChar c
    · obtain ⟨t, hrun, ht⟩ := takeRun_cons _ h hsymbol
      rw [if_pos hsymbol, if_pos hsymbol, hrun]
      exact ⟨_, _, t, rfl, rfl, ht⟩
    · obtain ⟨t, hnext, hcursor, -⟩ := next_eq h
      have hliteral : Piece.literal .illegal [c] = "unexpected character ".toList ++ Quoted.char c := by
        simp only [Piece.literal, Piece.complaint, hquote, if_false]
      rw [if_neg hsymbol, if_neg hsymbol, hnext, ← hliteral]
      exact ⟨_, _, t, rfl, rfl, hcursor⟩

/-- What is found by position is the lexeme at the front of what is left. -/
theorem lexeme_eq {kind : Kind} {text : List Char} (h : s.cursor.rest = c :: rest)
    (hfront : Piece.front c rest = .lexeme kind text) :
    ∃ t, s.lexeme c = .ok (kind, Piece.literal kind text, t) ∧ t.cursor = s.cursor.skip text.length := by
  unfold Piece.front at hfront
  split at hfront
  · cases hfront
  · cases hdelimiter : Piece.delimiterKind? c with
    | some delimiter =>
        obtain ⟨after, hnext, hafter, -⟩ := next_eq h
        rw [hdelimiter] at hfront
        obtain ⟨rfl, rfl⟩ := Piece.lexeme.inj hfront
        have hliteral : Piece.literal delimiter [c] = [c] := by
          obtain ⟨d, ⟨rfl, -⟩ | ⟨rfl, -⟩⟩ := Piece.delimiterKind?_eq_some hdelimiter
          · rfl
          · rfl
        rw [lexeme, hdelimiter, hnext, hliteral]
        exact ⟨after, rfl, hafter⟩
    | none =>
        rw [hdelimiter] at hfront
        rw [lexeme, hdelimiter]
        dsimp only at hfront ⊢
        by_cases hcomment : c = ';'
        · subst hcomment
          obtain ⟨rfl, rfl⟩ := Piece.lexeme.inj hfront
          obtain ⟨t, hrun, ht⟩ := takeRun_cons (fun d => !isLineEnd d) h rfl
          rw [if_pos rfl, hrun]
          exact ⟨t, rfl, ht⟩
        · rw [if_neg hcomment] at hfront ⊢
          by_cases hquote : c = '"'
          · subst hquote
            obtain ⟨t, hquoted, ht⟩ := takeQuoted_eq h
            rw [if_pos rfl] at hfront ⊢
            rw [hquoted]
            cases htail : Piece.stringTail? rest with
            | some tail =>
                rw [htail] at hfront ht
                obtain ⟨rfl, rfl⟩ := Piece.lexeme.inj hfront
                exact ⟨t, rfl, ht⟩
            | none =>
                rw [htail] at hfront ht
                obtain ⟨rfl, rfl⟩ := Piece.lexeme.inj hfront
                exact ⟨t, rfl, ht⟩
          · rw [if_neg hquote] at hfront ⊢
            obtain ⟨kind', text', t, hword, htake, ht⟩ := takeWord_eq h hquote
            obtain ⟨rfl, rfl⟩ := Piece.lexeme.inj (hword.symm.trans hfront)
            exact ⟨t, htake, ht⟩

theorem nextToken_skip_blanks (source : Bytes) (c : Cursor) :
    (c.skip (c.rest.takeWhile isBlank).length).nextToken source = c.nextToken source := by
  cases hrest : c.rest with
  | nil => rfl
  | cons d rest =>
      by_cases hd : isBlank d
      · have hfront : Piece.front d rest = .blanks (d :: rest.takeWhile isBlank) := by rw [Piece.front, if_pos hd]
        rw [List.takeWhile_cons_of_pos hd, c.nextToken_of_blanks hrest hfront]
      · rw [List.takeWhile_cons_of_neg hd]
        rfl

theorem exists_lexeme_of_not_blank (rest : List Char) (hc : isBlank c = false) :
    ∃ kind text, Piece.front c rest = .lexeme kind text := by
  cases hfront : Piece.front c rest with
  | blanks text =>
      obtain ⟨run, hrun, -⟩ := Piece.text_front c rest
      have hblank := Piece.isBlank_of_front hfront c
      rw [hfront] at hrun
      obtain rfl : text = c :: run := hrun
      rw [hblank List.mem_cons_self] at hc
      cases hc
  | lexeme kind text => exact ⟨kind, text, rfl⟩

/-- The next token is the one that the cursor gives. -/
theorem nextToken_eq (source : Bytes) (s : Supplier) :
    ∃ t, s.nextToken source = .ok ((s.cursor.nextToken source).1, t) ∧
      t.cursor = (s.cursor.nextToken source).2 := by
  obtain ⟨first, hblanks, hfirst⟩ := takeRun_eq isBlank s
  have hdrop : first.cursor.rest = s.cursor.rest.dropWhile isBlank := by
    rw [hfirst, Cursor.skip_eq List.takeWhile_append_dropWhile.symm]
  rw [nextToken, hblanks, ← nextToken_skip_blanks, ← hfirst]
  change ∃ t, (if first.atEnd then _ else _) = _ ∧ _
  cases hrest : first.cursor.rest with
  | nil =>
      rw [if_pos (atEnd_iff.mpr hrest), Cursor.nextToken_of_nil hrest]
      exact ⟨first, rfl, rfl⟩
  | cons c rest =>
      have hhead : c ∈ (s.cursor.rest.dropWhile isBlank).head? := by
        rw [← hdrop, hrest]
        rfl
      obtain ⟨kind, text, hfront⟩ := exists_lexeme_of_not_blank rest (Piece.not_of_mem_head?_dropWhile hhead)
      obtain ⟨last, hlexeme, hlast⟩ := lexeme_eq hrest hfront
      obtain ⟨following, hsplit, -, -⟩ := Piece.exists_cut_cons c rest
      rw [hfront, Piece.text] at hsplit
      have hcolumn : last.cursor.position = first.cursor.position.after text := by
        rw [hlast, Cursor.skip_eq (hrest.trans hsplit)]
      rw [if_neg (not_atEnd hrest), current_eq hrest, Cursor.nextToken_of_lexeme hrest hfront]
      change ∃ t, (first.lexeme c >>= _) = _ ∧ _
      rw [hlexeme]
      refine ⟨last, ?_, hlast⟩
      rw [Token.ofLexeme, ← hcolumn]
      rfl

theorem length_rest_nextToken_lt {source : Bytes} {c : Cursor} (h : (c.nextToken source).1.kind ≠ .eof) :
    (c.nextToken source).2.rest.length < c.rest.length := by
  fun_induction Cursor.nextToken source c with
  | case1 c hrest => exact absurd rfl h
  | case2 c d rest hrest text hfront ih =>
      have hlength := Cursor.length_drop_front_lt d rest
      rw [hfront, ← hrest, ← Cursor.rest_skip] at hlength
      exact Nat.lt_trans (ih h) hlength
  | case3 c d rest hrest kind text hfront =>
      have hlength := Cursor.length_drop_front_lt d rest
      rw [hfront, ← hrest, ← Cursor.rest_skip] at hlength
      exact hlength

end BraceLisp.Positional.Supplier
