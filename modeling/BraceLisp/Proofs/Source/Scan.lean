import BraceLisp.Proofs.Source.Classes
import BraceLisp.Source.Stream

/-!
# Cutting a text into tokens

The tokens of a text are those that a cursor gives one after another, and they account for every character: a
text is a run of blanks and a lexeme, over and over, and blanks at the end. Each token stands where the line
feeds before it say.
-/

namespace BraceLisp.Source

open CharClass

/-! ## Places -/

def columnAfter (prior : List Char) : Nat :=
  (prior.reverse.takeWhile (· ≠ '\n')).length

theorem Position.after_append (p : Position) (first second : List Char) :
    p.after (first ++ second) = (p.after first).after second :=
  List.foldl_append

theorem Position.after_start (prior : List Char) :
    Position.start.after prior = ⟨1 + prior.count '\n', columnAfter prior⟩ := by
  obtain ⟨reversed, rfl⟩ : ∃ reversed : List Char, prior = reversed.reverse := ⟨_, (List.reverse_reverse _).symm⟩
  induction reversed with
  | nil => rfl
  | cons c reversed ih =>
      rw [List.reverse_cons, Position.after_append, ih]
      by_cases hc : c = '\n'
      · subst hc
        simp [Position.after, Position.next, columnAfter, Nat.add_assoc]
      · simp [Position.after, Position.next, columnAfter, hc]

/-- A token comes from a source and stands behind a text, and takes up another. -/
structure Token.Stands (source : Bytes) (prior text : List Char) (t : Token) : Prop where
  source : t.source = source
  line : t.line = 1 + prior.count '\n'
  startColumn : t.startColumn = columnAfter prior
  endColumn : t.endColumn = columnAfter (prior ++ text)

theorem Token.stands_ofLexeme (source : Bytes) (prior text : List Char) (kind : Kind) :
    (Token.ofLexeme source (Position.start.after prior) kind text).Stands source prior text := by
  constructor
  · rfl
  · simp only [Token.ofLexeme, Position.after_start]
  · simp only [Token.ofLexeme, Position.after_start]
  · simp only [Token.ofLexeme]
    rw [← Position.after_append, Position.after_start]

theorem Token.stands_atEnd (source : Bytes) (prior : List Char) :
    (Token.atEnd source (Position.start.after prior)).Stands source prior [] := by
  constructor
  · rfl
  · simp only [Token.atEnd, Position.after_start]
  · simp only [Token.atEnd, Position.after_start]
  · simp only [Token.atEnd, List.append_nil, Position.after_start]

/-! ## Every character is accounted for -/

/--
The rest of a text, behind what comes before it, has the given tokens: blanks and a lexeme for each of them, and
blanks in front of the end.
-/
inductive Lexed (source : Bytes) : (prior rest : List Char) → List Token → Prop where
  | done {prior blanks : List Char} {t : Token} (blank : ∀ c ∈ blanks, isBlank c) (kind : t.kind = .eof)
      (literal : t.literal = []) (stands : t.Stands source (prior ++ blanks) []) : Lexed source prior blanks [t]
  | token {prior blanks text following : List Char} {t : Token} {tokens : List Token}
      (blank : ∀ c ∈ blanks, isBlank c) (nonempty : text ≠ []) (reads : Reads t.kind t.literal text following)
      (stands : t.Stands source (prior ++ blanks) text)
      (more : Lexed source (prior ++ blanks ++ text) following tokens) :
      Lexed source prior (blanks ++ text ++ following) (t :: tokens)

variable {source : Bytes}

theorem Lexed.blanks {prior blanks rest : List Char} {tokens : List Token} (hblank : ∀ c ∈ blanks, isBlank c)
    (h : Lexed source (prior ++ blanks) rest tokens) : Lexed source prior (blanks ++ rest) tokens := by
  cases h with
  | done hmore hkind hliteral hstands =>
      rw [List.append_assoc] at hstands
      exact .done (List.forall_mem_append.mpr ⟨hblank, hmore⟩) hkind hliteral hstands
  | @token _ between text following t tokens hmore hnonempty hreads hstands hrest =>
      rw [List.append_assoc] at hstands
      rw [List.append_assoc prior] at hrest
      have hlexed := Lexed.token (List.forall_mem_append.mpr ⟨hblank, hmore⟩) hnonempty hreads hstands hrest
      rwa [List.append_assoc, List.append_assoc, ← List.append_assoc between] at hlexed

theorem Lexed.lexeme {prior text following : List Char} {t : Token} {tokens : List Token}
    (h : Lexed source (prior ++ text) following tokens) (hnonempty : text ≠ [])
    (hreads : Reads t.kind t.literal text following) (hstands : t.Stands source prior text) :
    Lexed source prior (text ++ following) (t :: tokens) := by
  rw [← List.append_nil prior] at h hstands
  exact .token (List.forall_mem_nil _) hnonempty hreads hstands h

/-- The literal of a token that is not illegal, and not the end, is a text of its kind. -/
theorem Lexed.has {prior rest : List Char} {tokens : List Token} (h : Lexed source prior rest tokens) :
    ∀ t ∈ tokens, t.kind ≠ .illegal → t.kind ≠ .eof → t.kind.Has t.literal := by
  induction h with
  | done _ hkind _ _ => exact List.forall_mem_singleton.mpr fun _ hend => absurd hkind hend
  | token _ _ hreads _ _ ih => exact List.forall_mem_cons.mpr ⟨fun hlegal _ => hreads.has hlegal, ih⟩

namespace Piece

theorem isBlank_of_front {c : Char} {rest text : List Char} (h : front c rest = .blanks text) :
    ∀ d ∈ text, isBlank d := by
  unfold front at h
  split at h
  · rename_i hc
    obtain rfl := Piece.blanks.inj h
    exact List.forall_mem_cons.mpr ⟨hc, List.all_eq_true.mp List.all_takeWhile⟩
  · split at h
    · cases h
    · split at h
      · cases h
      · split at h
        · split at h
          · cases h
          · cases h
        · split at h
          · cases h
          · split at h
            · cases h
            · cases h

/-- A text that is not empty is cut into its first piece and the pieces of what is behind it. -/
theorem exists_cut_cons (c : Char) (rest : List Char) :
    ∃ following, c :: rest = (front c rest).text ++ following ∧ (front c rest).text ≠ [] ∧
      cut (c :: rest) = front c rest :: cut following := by
  obtain ⟨run, hrun, following, rfl⟩ := text_front c rest
  refine ⟨following, ?_, ?_, cut_append rfl hrun⟩
  · rw [hrun, List.cons_append]
  · rw [hrun]
    exact List.cons_ne_nil _ _

end Piece

/-- The tokens of the rest of a text account for all of it. -/
theorem lexed_place (prior rest : List Char) :
    Lexed source prior rest (Token.place source (Position.start.after prior) (Piece.cut rest)) := by
  induction hlength : rest.length using Nat.strongRecOn generalizing prior rest with
  | ind length ih =>
      cases rest with
      | nil =>
          have hstands := Token.stands_atEnd source prior
          exact .done (List.forall_mem_nil _) rfl rfl (by rwa [List.append_nil])
      | cons c rest =>
          obtain ⟨following, hsplit, hnonempty, hcut⟩ := Piece.exists_cut_cons c rest
          have hshorter : following.length < length := by
            have hsum := congrArg List.length hsplit
            have hpositive := List.length_pos_iff.mpr hnonempty
            rw [List.length_append, hlength] at hsum
            omega
          have hmore := ih following.length hshorter (prior ++ (Piece.front c rest).text) following rfl
          rw [hcut]
          cases hfront : Piece.front c rest with
          | blanks text =>
              rw [hfront] at hsplit hmore
              rw [hsplit]
              have hlexed := hmore.blanks (Piece.isBlank_of_front hfront)
              rwa [Position.after_append] at hlexed
          | lexeme kind text =>
              rw [hfront] at hsplit hmore hnonempty
              have hreads := Piece.reads_of_front hfront hsplit
              have hstands := Token.stands_ofLexeme source prior text kind
              rw [hsplit]
              have hlexed := hmore.lexeme hnonempty hreads hstands
              rw [Position.after_append] at hlexed
              exact hlexed

/-! ## The tokens that a cursor gives -/

namespace Cursor

theorem skip_eq {c : Cursor} {run following : List Char} (h : c.rest = run ++ following) :
    c.skip run.length = ⟨following, c.position.after run⟩ := by
  induction run generalizing c with
  | nil =>
      cases c
      cases h
      rfl
  | cons d run ih =>
      have hnext : c.next = ⟨run ++ following, c.position.next d⟩ := by
        rw [next, h]
        rfl
      rw [List.length_cons, skip, hnext, ih rfl]
      rfl

/-- A cursor gives the first of the tokens that are left, and goes on with the others unless it was the end. -/
theorem place_cut (source : Bytes) (c : Cursor) :
    (c.nextToken source).1.kind = .eof ∧ nextToken source (c.nextToken source).2 = c.nextToken source ∧
        Token.place source c.position (Piece.cut c.rest) = [(c.nextToken source).1] ∨
      (c.nextToken source).1.kind ≠ .eof ∧
        Token.place source c.position (Piece.cut c.rest) =
          (c.nextToken source).1 ::
            Token.place source (c.nextToken source).2.position (Piece.cut (c.nextToken source).2.rest) := by
  fun_induction nextToken source c with
  | case1 c hrest =>
      left
      refine ⟨rfl, nextToken_of_nil hrest, ?_⟩
      rw [hrest]
      rfl
  | case2 c d rest hrest text hfront ih =>
      obtain ⟨following, hsplit, -, hcut⟩ := Piece.exists_cut_cons d rest
      rw [hfront] at hsplit hcut
      have hskip : c.skip text.length = ⟨following, c.position.after text⟩ := skip_eq (hrest.trans hsplit)
      rw [hskip] at ih ⊢
      rw [hrest, hcut]
      exact ih
  | case3 c d rest hrest kind text hfront =>
      right
      obtain ⟨following, hsplit, -, hcut⟩ := Piece.exists_cut_cons d rest
      rw [hfront] at hsplit hcut
      have hskip : c.skip text.length = ⟨following, c.position.after text⟩ := skip_eq (hrest.trans hsplit)
      refine ⟨(Piece.reads_of_front hfront hsplit).kind_ne_eof, ?_⟩
      rw [hskip, hrest, hcut]
      rfl

theorem afterTokens_of_stays {c : Cursor} (h : (c.nextToken source).2 = c) (n : Nat) :
    c.afterTokens source n = c := by
  induction n with
  | zero => rfl
  | succ n ih => rw [afterTokens, h, ih]

/-- The tokens of the rest of a text are those that the cursor gives in turn: others, then the end for ever. -/
theorem exists_tokens (source : Bytes) (c : Cursor) :
    ∃ tokens last, Token.place source c.position (Piece.cut c.rest) = tokens ++ [last] ∧ last.kind = .eof ∧
      (∀ t ∈ tokens, t.kind ≠ .eof) ∧
      ∀ n, ((c.afterTokens source n).nextToken source).1 = tokens.getD n last := by
  induction hlength : (Token.place source c.position (Piece.cut c.rest)).length generalizing c with
  | zero =>
      rcases place_cut source c with ⟨-, -, hplace⟩ | ⟨-, hplace⟩
      · rw [hplace] at hlength
        cases hlength
      · rw [hplace] at hlength
        cases hlength
  | succ length ih =>
      rcases place_cut source c with ⟨hkind, hagain, hplace⟩ | ⟨hkind, hplace⟩
      · refine ⟨[], _, hplace, hkind, List.forall_mem_nil _, fun n => ?_⟩
        cases n with
        | zero => rfl
        | succ n => rw [afterTokens, afterTokens_of_stays (congrArg Prod.snd hagain), hagain, List.getD_nil]
      · rw [hplace, List.length_cons] at hlength
        obtain ⟨tokens, last, htokens, hlast, hends, hnth⟩ := ih _ (Nat.succ.inj hlength)
        refine ⟨_ :: tokens, last, ?_, hlast, List.forall_mem_cons.mpr ⟨hkind, hends⟩, fun n => ?_⟩
        · rw [hplace, htokens]
          rfl
        · cases n with
          | zero => rfl
          | succ n => exact hnth n

end Cursor

/-! ## The tokens of a text -/

/-- A text has tokens that are not its end, and then its end. -/
theorem exists_tokens_scan (source : Bytes) (text : List Char) :
    ∃ tokens last, Token.scan source text = tokens ++ [last] ∧ last.kind = .eof ∧
      (∀ t ∈ tokens, t.kind ≠ .eof) ∧
      ∀ n, (((Cursor.ofText text).afterTokens source n).nextToken source).1 = tokens.getD n last :=
  Cursor.exists_tokens source (Cursor.ofText text)

theorem lexed_scan (source : Bytes) (text : List Char) : Lexed source [] text (Token.scan source text) :=
  lexed_place [] text

/--
A cursor gives finitely many tokens of a text, and then its end for ever. Together they take up the whole text:
each token the longest text of its kind, behind blanks, and each stands where the text before it says.
-/
theorem tokens_lossless_and_maximal (source : Bytes) (text : List Char) :
    ∃ tokens last, Token.scan source text = tokens ++ [last] ∧ last.kind = .eof ∧
      (∀ t ∈ tokens, t.kind ≠ .eof) ∧
      (∀ n, (((Cursor.ofText text).afterTokens source n).nextToken source).1 = tokens.getD n last) ∧
      Lexed source [] text (tokens ++ [last]) := by
  obtain ⟨tokens, last, hscan, hlast, hends, hnth⟩ := exists_tokens_scan source text
  have hlexed := lexed_scan source text
  rw [hscan] at hlexed
  exact ⟨tokens, last, hscan, hlast, hends, hnth, hlexed⟩

end BraceLisp.Source
