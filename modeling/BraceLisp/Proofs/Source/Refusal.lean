import BraceLisp.Proofs.Source.Descent
import BraceLisp.Proofs.Source.Seam

/-!
# The first token that cannot be continued

A stack of opening tokens is all that is needed to tell whether the next token can stand where it does. The error of a
text that cannot be parsed is about the first token that cannot, and names the innermost list that is open there. What
stands in front of that token is never to blame: closing all open lists on a line of their own makes it a text that can
be parsed.
-/

namespace BraceLisp.Source

open CharClass Root

/-! ## The stack -/

/-- The opening tokens that are still open behind a token, innermost first, if the token can stand behind those. -/
def Token.nest? (opened : List Token) (t : Token) : Option (List Token) :=
  match t.kind, opened with
  | .opening _, _ => some (t :: opened)
  | .closing d, opener :: outer => if opener.kind = .opening d then some outer else none
  | .closing _, [] => none
  | .eof, _ :: _ => none
  | .illegal, _ => none
  | _, _ => some opened

/-- The tokens that cannot stand behind some that are still open, and what is said of them. -/
inductive Refused : (opened : List Token) → Token → (message : Bytes) → Prop where
  | illegal {t : Token} (opened : List Token) (kind : t.kind = .illegal) : Refused opened t (Utf8.encode t.literal)
  | stray {t : Token} {d : Delimiter} (kind : t.kind = .closing d) :
      Refused [] t (Bytes.of "unexpected " ++ Utf8.encode (Problem.quoted d.closer))
  | mismatched {t opener : Token} {expected got : Delimiter} (outer : List Token)
      (opening : opener.kind = .opening expected) (kind : t.kind = .closing got) (other : expected ≠ got) :
      Refused (opener :: outer) t
        (Bytes.of "expected " ++ Utf8.encode (Problem.quoted expected.closer) ++
          Bytes.of " but got " ++ Utf8.encode (Problem.quoted got.closer))
  | unclosed {t opener : Token} {d : Delimiter} (outer : List Token) (opening : opener.kind = .opening d)
      (kind : t.kind = .eof) :
      Refused (opener :: outer) t
        (Bytes.of "expected " ++ Utf8.encode (Problem.quoted d.closer) ++
          Bytes.of " to close " ++ Utf8.encode (Problem.quoted d.opener) ++
          Bytes.of " opened at line " ++ Utf8.encode (Decimal.ofNat opener.line) ++
          Bytes.of ", column " ++ Utf8.encode (Decimal.ofNat (opener.startColumn + 1)))

theorem Refused.nest?_eq_none {opened : List Token} {t : Token} {message : Bytes} (h : Refused opened t message) :
    Token.nest? opened t = none := by
  cases h with
  | illegal _ kind => simp only [Token.nest?, kind]
  | stray kind => simp only [Token.nest?, kind]
  | mismatched _ opening kind other => simp [Token.nest?, kind, opening, other]
  | unclosed _ _ kind => simp only [Token.nest?, kind]

theorem Node.AtomOf.nest?_eq {node : Node} {t : Token} (h : node.AtomOf t) (opened : List Token) :
    Token.nest? opened t = some opened := by
  cases h with
  | number kind => simp only [Token.nest?, kind]
  | string kind => simp only [Token.nest?, kind]
  | symbol kind => simp only [Token.nest?, kind]
  | comment kind => simp only [Token.nest?, kind]

/-- Behind the tokens of some nodes the same lists are open as in front of them. -/
theorem Spells.foldlM_nest? {nodes : List Node} {tokens : List Token} (h : Spells nodes tokens) (opened : List Token) :
    tokens.foldlM Token.nest? opened = some opened := by
  induction h generalizing opened with
  | nil => rfl
  | atom hatom _ ih =>
      rw [List.foldlM_cons, hatom.nest?_eq]
      exact ih opened
  | @list d opener closer cells nodes inside tokens hopening hclosing _ _ ihinner ihrest =>
      have hopened : Token.nest? opened opener = some (opener :: opened) := by simp only [Token.nest?, hopening]
      have hclosed : Token.nest? (opener :: opened) closer = some opened := by
        simp only [Token.nest?, hclosing, hopening, if_true]
      rw [List.foldlM_cons, hopened, Option.bind_eq_bind, Option.bind_some, List.foldlM_append, ihinner,
        Option.bind_eq_bind, Option.bind_some, List.foldlM_cons, hclosed]
      exact ihrest opened

namespace Seen

variable {stack : List OpenList} {nodes : List Node} {seen : List Token}

theorem opening {list : OpenList} {outer : List OpenList} (h : Seen (list :: outer) nodes seen) :
    list.token.kind = .opening list.delimiter := by
  cases h with
  | inside hopening _ _ => exact hopening

/--
One token ends the reading, or stops it because it is refused, or is taken; then the lists that are open are those
that the stack says.
-/
theorem step (h : Seen stack nodes seen) (t : Token) :
    (∃ forms, ∀ rest, formsFrom stack nodes (t :: rest) = .ok forms) ∨
    (∃ problem, (∀ rest, formsFrom stack nodes (t :: rest) = .error (.atToken t problem)) ∧
      Refused (stack.map OpenList.token) t problem.text) ∨
    ∃ later next, Seen later next (seen ++ [t]) ∧
      Token.nest? (stack.map OpenList.token) t = some (later.map OpenList.token) ∧
      ∀ rest, formsFrom stack nodes (t :: rest) = formsFrom later next rest := by
  have hatom {node : Node} (hnode : node.AtomOf t) :
      ∃ later next, Seen later next (seen ++ [t]) ∧
        Token.nest? (stack.map OpenList.token) t = some (later.map OpenList.token) ∧
        ∀ rest, formsFrom stack nodes (t :: rest) = formsFrom later next rest :=
    ⟨stack, node :: nodes, h.atom hnode, hnode.nest?_eq _, formsFrom_atom hnode stack nodes⟩
  cases hkind : t.kind with
  | number => exact .inr (.inr (hatom (.number hkind)))
  | string => exact .inr (.inr (hatom (.string hkind)))
  | symbol => exact .inr (.inr (hatom (.symbol hkind)))
  | comment => exact .inr (.inr (hatom (.comment hkind)))
  | opening d =>
      refine .inr (.inr ⟨⟨d, t, nodes⟩ :: stack, [], h.opened hkind, ?_, ?_⟩)
      · simp only [Token.nest?, hkind, List.map_cons]
      · simp only [formsFrom, hkind, implies_true]
  | closing d =>
      cases stack with
      | nil =>
          refine .inr (.inl ⟨.stray d, ?_, .stray hkind⟩)
          simp only [formsFrom, hkind, implies_true]
      | cons list outer =>
          by_cases hmatched : list.delimiter = d
          · subst hmatched
            refine .inr (.inr ⟨outer, _, h.closed hkind, ?_, ?_⟩)
            · simp only [Token.nest?, hkind, List.map_cons, h.opening, if_true]
            · simp only [formsFrom, hkind, if_true, implies_true]
          · refine .inr (.inl ⟨.mismatched list.delimiter d, ?_, .mismatched _ h.opening hkind hmatched⟩)
            simp only [formsFrom, hkind, hmatched, if_false, implies_true]
  | illegal =>
      refine .inr (.inl ⟨.illegal t.literal, ?_, .illegal _ hkind⟩)
      simp only [formsFrom, hkind, implies_true]
  | eof =>
      cases stack with
      | nil =>
          refine .inl ⟨nodes.reverse, ?_⟩
          simp only [formsFrom, hkind, implies_true]
      | cons list outer =>
          refine .inr (.inl ⟨.unclosed list.delimiter list.token.line (list.token.startColumn + 1), ?_,
            .unclosed _ h.opening hkind⟩)
          simp only [formsFrom, hkind, implies_true]

/-- An error is about the first token that is refused. -/
theorem exists_refused (h : Seen stack nodes seen) {tokens : List Token} {e : ParseError}
    (herror : formsFrom stack nodes tokens = .error e) :
    ∃ taken t others later next problem, tokens = taken ++ t :: others ∧ Seen later next (seen ++ taken) ∧
      taken.foldlM Token.nest? (stack.map OpenList.token) = some (later.map OpenList.token) ∧
      Refused (later.map OpenList.token) t problem.text ∧ e = .atToken t problem := by
  induction tokens generalizing stack nodes seen with
  | nil => cases herror
  | cons t rest ih =>
      rcases h.step t with ⟨forms, hends⟩ | ⟨problem, hstops, hrefused⟩ | ⟨later, next, hseen, hnest, hgoes⟩
      · rw [hends] at herror
        cases herror
      · rw [hstops] at herror
        refine ⟨[], t, rest, stack, nodes, problem, rfl, ?_, rfl, hrefused, (Except.error.inj herror).symm⟩
        rwa [List.append_nil]
      · rw [hgoes] at herror
        obtain ⟨taken, t', others, last, final, problem, rfl, hlast, hfold, hrefused, he⟩ := ih hseen herror
        refine ⟨t :: taken, t', others, last, final, problem, rfl, ?_, ?_, hrefused, he⟩
        · rwa [List.append_assoc] at hlast
        · rw [List.foldlM_cons, hnest]
          exact hfold

/-- Closing tokens for all open lists complete the forms. -/
theorem exists_closed (h : Seen stack nodes seen) :
    ∃ forms closers, Spells forms (seen ++ closers) ∧
      closers.map Token.word = stack.map fun list => ⟨.closing list.delimiter, [list.delimiter.closer]⟩ := by
  induction stack generalizing nodes seen with
  | nil =>
      cases h with
      | outermost hspells => exact ⟨nodes.reverse, [], by rwa [List.append_nil], rfl⟩
  | cons list outer ih =>
      let closer : Token := ⟨.closing list.delimiter, [list.delimiter.closer], 0, 0, 0, []⟩
      have hclosed := h.closed (t := closer) rfl
      obtain ⟨forms, closers, hspells, hwords⟩ := ih hclosed
      rw [List.append_assoc] at hspells
      exact ⟨forms, closer :: closers, hspells, congrArg (closer.word :: ·) hwords⟩

end Seen

/-! ## What stands in front of a token -/

def closersOf (stack : List OpenList) : List Char :=
  stack.map fun list => list.delimiter.closer

theorem words_closersOf (stack : List OpenList) :
    words (closersOf stack) = stack.map fun list => ⟨.closing list.delimiter, [list.delimiter.closer]⟩ := by
  induction stack with
  | nil => rfl
  | cons list outer ih => exact (words_closer list.delimiter _).trans (congrArg _ ih)

theorem words_of_isBlank {blanks : List Char} (h : ∀ c ∈ blanks, isBlank c) : words blanks = [] := by
  have hwords := words_append_of_isBlank h []
  rwa [List.append_nil] at hwords

theorem Kind.EndsBefore.left {kind : Kind} {first second : List Char} (h : kind.EndsBefore (first ++ second)) :
    kind.EndsBefore first := by
  cases first with
  | nil => cases kind <;> simp [Kind.EndsBefore]
  | cons c rest =>
      have hends := h.of_append (List.cons_ne_nil c rest) []
      rwa [List.append_nil] at hends

theorem Reads.literal_eq {kind : Kind} {literal text following : List Char} (h : Reads kind literal text following)
    (hkind : kind ≠ .illegal) : literal = text := by
  cases h with
  | token => rfl
  | stray => exact absurd rfl hkind
  | unterminated => exact absurd rfl hkind

/-- The text in front of a token has the words of the tokens in front of it, if these are legal. -/
theorem Lexed.exists_prior {source : Bytes} {behind rest : List Char} {tokens others : List Token} {t : Token}
    (h : Lexed source behind rest (tokens ++ t :: others)) (hlegal : ∀ a ∈ tokens, a.kind ≠ .illegal) :
    ∃ prior lexeme following, rest = prior ++ lexeme ++ following ∧ t.Stands source (behind ++ prior) lexeme ∧
      words prior = tokens.map Token.word := by
  induction tokens generalizing behind rest with
  | nil =>
      cases h with
      | done hblank _ _ hstands => exact ⟨rest, [], [], by simp, hstands, words_of_isBlank hblank⟩
      | @token _ blanks text following _ _ hblank _ _ hstands _ =>
          exact ⟨blanks, text, following, rfl, hstands, words_of_isBlank hblank⟩
  | cons a tokens ih =>
      obtain ⟨ha, hlegal⟩ := List.forall_mem_cons.mp hlegal
      generalize hall : a :: tokens ++ t :: others = all at h
      cases h with
      | done => cases tokens <;> cases hall
      | @token _ blanks text _ _ _ hblank _ hreads _ hmore =>
          obtain ⟨rfl, rfl⟩ := List.cons.inj hall
          obtain ⟨prior, lexeme, following, rfl, hstands, hwords⟩ := ih hmore hlegal
          -- the text that is cut off behind `prior` cannot make this token any longer
          have hends := hreads.endsBefore ha
          rw [List.append_assoc] at hends
          refine ⟨blanks ++ text ++ prior, lexeme, following, by simp, by simpa using hstands, ?_⟩
          rw [List.append_assoc, words_append_of_isBlank hblank, words_append_of_has (hreads.has_text ha) hends.left,
            hwords, List.map_cons, Token.word, hreads.literal_eq ha]

/-! ## The error of a text -/

/-- All tokens of a text that can be parsed are taken, and nothing is open at the end. -/
theorem foldlM_nest?_of_parse {source : Bytes} {text : List Char} {root : Root}
    (h : Root.parse source text = .ok root) :
    (Token.scan source text).foldlM Token.nest? [] = some [] := by
  obtain ⟨tokens, last, hscan, hlast, hspells, -⟩ := exists_spells_of_parse h
  have hended : Token.nest? [] last = some [] := by simp only [Token.nest?, hlast]
  rw [hscan, List.foldlM_append, hspells.foldlM_nest?]
  exact congrArg (· >>= some) hended

/-- The text in front of a token that comes behind taken ones can be completed to a text that can be parsed. -/
theorem Seen.exists_parse {stack : List OpenList} {nodes : List Node} {seen : List Token} (h : Seen stack nodes seen)
    {prior : List Char} (hwords : words prior = seen.map Token.word) (source : Bytes) :
    ∃ completion root, Root.parse source (prior ++ completion) = .ok root := by
  obtain ⟨forms, closers, hspells, hclosers⟩ := h.exists_closed
  have hmeans := hspells.means
  rw [List.map_append, hclosers, ← words_closersOf, ← hwords] at hmeans
  obtain ⟨hlegal, -⟩ := List.forall_mem_append.mp hmeans.kind_ne_illegal
  have hlineEnd : isLineEnd '\n' := by decide
  rw [← words_append_lineEnd hlineEnd prior _ hlegal] at hmeans
  obtain ⟨root, hroot, -⟩ := exists_parse_iff_means.mpr hmeans
  exact ⟨'\n' :: closersOf stack, root, hroot⟩

/--
By descent a text comes to what it comes to with a stack. It is an error just when a token is refused. Then all tokens
in front of the one that the error is about are taken, and that one is refused, with the message and at the place that
the error has; and what stands in front of it can be completed to a text that can be parsed.
-/
theorem Root.parse_error_at_first_refused (source : Bytes) (text : List Char) :
    Descent.parse source text = Root.parse source text ∧
    ((∃ e, Root.parse source text = .error e) ↔ (Token.scan source text).foldlM Token.nest? [] = none) ∧
    ∀ e, Root.parse source text = .error e →
      ∃ tokens t others opened,
        Token.scan source text = tokens ++ t :: others ∧
        tokens.foldlM Token.nest? [] = some opened ∧ Refused opened t e.problem.text ∧
        e.source = source ∧ e.line = t.line ∧ e.column = t.startColumn + 1 ∧
        ∃ prior lexeme following, text = prior ++ lexeme ++ following ∧ t.Stands source prior lexeme ∧
          ∃ completion root, Root.parse source (prior ++ completion) = .ok root := by
  have hstart : Seen [] [] [] := .outermost .nil
  refine ⟨Descent.parse_eq source text, ⟨?_, fun h => ?_⟩, fun e h => ?_⟩
  · rintro ⟨e, h⟩
    obtain ⟨tokens, t, others, stack, nodes, problem, hscan, -, hfold, hrefused, -⟩ :=
      hstart.exists_refused (formsFrom_of_parse_error h)
    rw [List.map_nil] at hfold
    rw [hscan, List.foldlM_append, hfold, Option.bind_eq_bind, Option.bind_some, List.foldlM_cons,
      hrefused.nest?_eq_none]
    rfl
  · cases hparse : Root.parse source text with
    | ok root =>
        rw [foldlM_nest?_of_parse hparse] at h
        cases h
    | error e => exact ⟨e, rfl⟩
  · obtain ⟨tokens, t, others, stack, nodes, problem, hscan, hseen, hfold, hrefused, rfl⟩ :=
      hstart.exists_refused (formsFrom_of_parse_error h)
    obtain ⟨forms, closers, hspells, -⟩ := hseen.exists_closed
    obtain ⟨hlegal, -⟩ := List.forall_mem_append.mp hspells.kind_ne_illegal
    have hlexed := lexed_scan source text
    rw [hscan] at hlexed
    obtain ⟨prior, lexeme, following, htext, hstands, hwords⟩ := hlexed.exists_prior hlegal
    exact ⟨tokens, t, others, _, hscan, hfold, hrefused, hstands.source, rfl, rfl, prior, lexeme, following, htext,
      hstands, hseen.exists_parse hwords source⟩

/-- Behind `(a` on one line and `{b` on the next a parenthesis is refused, since the inner list is still open. -/
theorem Root.parse_error_at_first_refused_of_inner_list :
    let text := "(a\n \x7bb) c".toList
    Descent.parse [] text = .error ⟨[], 2, 4, .mismatched .brace .paren⟩ ∧
      ∃ tokens t others opened, Token.scan [] text = tokens ++ t :: others ∧
        tokens.foldlM Token.nest? [] = some opened ∧ Refused opened t (Bytes.of "expected \"\x7d\" but got \")\"") ∧
        t.line = 2 ∧ t.startColumn = 3 ∧
        ∃ prior lexeme following, text = prior ++ lexeme ++ following ∧ t.Stands [] prior lexeme ∧
          ∃ completion root, Root.parse [] (prior ++ completion) = .ok root := by
  intro text
  have herror : Root.parse [] text = .error ⟨[], 2, 4, .mismatched .brace .paren⟩ := by rfl
  obtain ⟨hdescent, -, hspec⟩ := Root.parse_error_at_first_refused [] text
  obtain ⟨tokens, t, others, opened, hscan, hfold, hrefused, -, hline, hcolumn, hprior⟩ := hspec _ herror
  have hmessage : (Problem.mismatched .brace .paren).text = Bytes.of "expected \"\x7d\" but got \")\"" := by
    decide +kernel
  refine ⟨hdescent.trans herror, tokens, t, others, opened, hscan, hfold, ?_, hline.symm, ?_, hprior⟩
  · rw [← hmessage]
    exact hrefused
  · exact (Nat.succ.inj hcolumn).symm

end BraceLisp.Source
