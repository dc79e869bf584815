import BraceLisp.Proofs.Source.Forms
import BraceLisp.Proofs.Source.Scan

/-!
# Errors in source texts

What is wrong with a text, and where, depends on the text alone. The name of its source is written into the error and
makes no other difference, and every error has a line and a column.
-/

namespace BraceLisp.Source

open Root

/-! ## Reading under another name -/

def Token.renamed (other : Bytes) (t : Token) : Token :=
  { t with source := other }

theorem Token.place_renamed (source other : Bytes) (p : Position) (pieces : List Piece) :
    (place source p pieces).map (renamed other) = place other p pieces := by
  induction pieces generalizing p with
  | nil => rfl
  | cons piece rest ih =>
      cases piece with
      | blanks text => exact ih _
      | lexeme kind text => exact congrArg (ofLexeme other p kind text :: ·) (ih _)

def OpenList.told (list : OpenList) : Delimiter × Nat × Nat :=
  (list.delimiter, list.token.line, list.token.startColumn)

variable {stack stack' : List OpenList}

/--
With lists open that were opened at the same places, and under whatever names, one token does the same: it ends the
reading, or stops it with the same problem, or leaves lists open that were opened at the same places.
-/
theorem formsFrom_cons_renamed (hstack : stack.map OpenList.told = stack'.map OpenList.told) (nodes nodes' : List Node)
    (t : Token) (other : Bytes) :
    (∃ forms, ∀ rest, formsFrom stack nodes (t :: rest) = .ok forms) ∨
    (∃ problem, (∀ rest, formsFrom stack nodes (t :: rest) = .error (.atToken t problem)) ∧
      ∀ rest, formsFrom stack' nodes' (t.renamed other :: rest) = .error (.atToken (t.renamed other) problem)) ∨
    ∃ later later' next next', later.map OpenList.told = later'.map OpenList.told ∧
      (∀ rest, formsFrom stack nodes (t :: rest) = formsFrom later next rest) ∧
      ∀ rest, formsFrom stack' nodes' (t.renamed other :: rest) = formsFrom later' next' rest := by
  have hrenamed : (t.renamed other).kind = t.kind := rfl
  have hatom {node node' : Node} (h : node.AtomOf t) (h' : node'.AtomOf (t.renamed other)) :
      ∃ later later' next next', later.map OpenList.told = later'.map OpenList.told ∧
        (∀ rest, formsFrom stack nodes (t :: rest) = formsFrom later next rest) ∧
        ∀ rest, formsFrom stack' nodes' (t.renamed other :: rest) = formsFrom later' next' rest :=
    ⟨stack, stack', node :: nodes, node' :: nodes', hstack, formsFrom_atom h stack nodes,
      formsFrom_atom h' stack' nodes'⟩
  cases hkind : t.kind with
  | number => exact .inr (.inr (hatom (.number hkind) (.number hkind)))
  | string => exact .inr (.inr (hatom (.string hkind) (.string hkind)))
  | symbol => exact .inr (.inr (hatom (.symbol hkind) (.symbol hkind)))
  | comment => exact .inr (.inr (hatom (.comment hkind) (.comment hkind)))
  | opening d =>
      refine .inr (.inr ⟨⟨d, t, nodes⟩ :: stack, ⟨d, t.renamed other, nodes'⟩ :: stack', [], [], ?_, ?_, ?_⟩)
      · rw [List.map_cons, List.map_cons, hstack]
        rfl
      · simp only [formsFrom, hkind, implies_true]
      · simp only [formsFrom, hrenamed, hkind, implies_true]
  | closing d =>
      cases stack with
      | nil =>
          obtain rfl := List.map_eq_nil_iff.mp hstack.symm
          refine .inr (.inl ⟨.stray d, ?_, ?_⟩)
          · simp only [formsFrom, hkind, implies_true]
          · simp only [formsFrom, hrenamed, hkind, implies_true]
      | cons list outer =>
          obtain ⟨list', outer', rfl, htold, houter⟩ := List.map_eq_cons_iff.mp hstack.symm
          obtain ⟨hdelimiter, -⟩ := Prod.mk.inj htold
          by_cases hmatched : list.delimiter = d
          · refine .inr (.inr ⟨outer, outer', .list d list.token nodes.reverse :: list.before,
              .list d list'.token nodes'.reverse :: list'.before, houter.symm, ?_, ?_⟩)
            · simp only [formsFrom, hkind, hmatched, if_true, implies_true]
            · simp only [formsFrom, hrenamed, hkind, hdelimiter, hmatched, if_true, implies_true]
          · refine .inr (.inl ⟨.mismatched list.delimiter d, ?_, ?_⟩)
            · simp only [formsFrom, hkind, hmatched, if_false, implies_true]
            · simp only [formsFrom, hrenamed, hkind, hdelimiter, hmatched, if_false, implies_true]
  | illegal =>
      refine .inr (.inl ⟨.illegal t.literal, ?_, ?_⟩)
      · simp only [formsFrom, hkind, implies_true]
      · intro rest
        simp only [formsFrom, hrenamed, hkind]
        rfl
  | eof =>
      cases stack with
      | nil =>
          refine .inl ⟨nodes.reverse, ?_⟩
          simp only [formsFrom, hkind, implies_true]
      | cons list outer =>
          obtain ⟨list', outer', rfl, htold, -⟩ := List.map_eq_cons_iff.mp hstack.symm
          obtain ⟨hdelimiter, hplace⟩ := Prod.mk.inj htold
          obtain ⟨hline, hcolumn⟩ := Prod.mk.inj hplace
          refine .inr (.inl ⟨.unclosed list.delimiter list.token.line (list.token.startColumn + 1), ?_, ?_⟩)
          · simp only [formsFrom, hkind, implies_true]
          · simp only [formsFrom, hrenamed, hkind, hdelimiter, hline, hcolumn, implies_true]

/-- An error stands at one of the tokens, and under another name the same error stands at the same token. -/
theorem formsFrom_renamed {tokens : List Token} {nodes : List Node} {e : ParseError}
    (hstack : stack.map OpenList.told = stack'.map OpenList.told) (nodes' : List Node) (other : Bytes)
    (h : formsFrom stack nodes tokens = .error e) :
    ∃ t ∈ tokens, ∃ problem, e = .atToken t problem ∧
      formsFrom stack' nodes' (tokens.map (Token.renamed other)) = .error (.atToken (t.renamed other) problem) := by
  induction tokens generalizing stack stack' nodes nodes' with
  | nil => cases h
  | cons t rest ih =>
      rw [List.map_cons]
      rcases formsFrom_cons_renamed hstack nodes nodes' t other with
        ⟨forms, hends⟩ | ⟨problem, hstops, hstops'⟩ | ⟨later, later', next, next', hlater, hgoes, hgoes'⟩
      · rw [hends] at h
        cases h
      · rw [hstops] at h
        exact ⟨t, List.mem_cons_self, problem, (Except.error.inj h).symm, hstops' _⟩
      · rw [hgoes] at h
        obtain ⟨t', ht', problem, he, hother⟩ := ih hlater next' h
        refine ⟨t', List.mem_cons_of_mem t ht', problem, he, ?_⟩
        rw [hgoes', hother]

/-! ## The error of a text -/

theorem Lexed.line_ne_zero {source : Bytes} {prior rest : List Char} {tokens : List Token}
    (h : Lexed source prior rest tokens) : ∀ t ∈ tokens, t.line ≠ 0 := by
  have hline {prior text : List Char} {t : Token} (hstands : t.Stands source prior text) : t.line ≠ 0 := by
    rw [hstands.line]
    omega
  induction h with
  | done _ _ _ hstands => exact List.forall_mem_singleton.mpr (hline hstands)
  | token _ _ _ hstands _ ih => exact List.forall_mem_cons.mpr ⟨hline hstands, ih⟩

/-- A text that cannot be parsed has the same error, on the same line, under whatever name. -/
theorem Root.parse_renamed {source : Bytes} {text : List Char} {e : ParseError} (h : parse source text = .error e)
    (other : Bytes) : parse other text = .error { e with source := other } ∧ e.line ≠ 0 := by
  have hplace := Token.place_renamed source other .start (Piece.cut text)
  have hstack : ([] : List OpenList).map OpenList.told = [].map OpenList.told := rfl
  obtain ⟨t, ht, problem, rfl, hother⟩ := formsFrom_renamed hstack [] other (formsFrom_of_parse_error h)
  refine ⟨?_, (lexed_scan source text).line_ne_zero t ht⟩
  rw [parse, ofTokens, Token.scan, ← hplace, ← Token.scan, hother]
  rfl

/-- What an error tells behind the name of its source: the line, the column and the problem. -/
def ParseError.told (e : ParseError) : Bytes :=
  Bytes.of ":" ++ Utf8.encode (Decimal.ofNat e.line) ++ Bytes.of ":" ++ Utf8.encode (Decimal.ofNat e.column) ++
    Bytes.of ": error: " ++ e.problem.text

/-- An error that has a line is reported with all that it tells. -/
theorem ParseError.message_of_line_ne_zero {e : ParseError} (h : e.line ≠ 0) : e.message = e.source ++ e.told := by
  rw [message, if_neg h, told]
  simp only [List.append_assoc]

/-- A text that cannot be parsed has an error that tells the same under whatever name. -/
theorem Root.message_of_parse_error {source : Bytes} {text : List Char} {e : ParseError}
    (h : parse source text = .error e) (other : Bytes) :
    e.message = source ++ e.told ∧ { e with source := other }.message = other ++ e.told := by
  obtain ⟨-, hline⟩ := parse_renamed h other
  obtain ⟨hsame, -⟩ := parse_renamed h source
  have hsource : e.source = source := congrArg ParseError.source (Except.error.inj (h.symm.trans hsame))
  constructor
  · rw [ParseError.message_of_line_ne_zero hline, hsource]
  · have hrenamed : { e with source := other }.line ≠ 0 := hline
    exact ParseError.message_of_line_ne_zero hrenamed

end BraceLisp.Source
