import BraceLisp.Source.Parse
import BraceLisp.Source.Read

/-!
# How trees are built from pieces

Pieces denote values if, wherever they stand in a text, building the tree goes on behind them with nodes of
those values. This composes: pieces after one another denote the values of both, and what stands between two
delimiters denotes a list. In the other direction, whatever is true of all atoms of a text and kept by lists is
true of the forms of the tree.
-/

namespace BraceLisp.Source

open Root

/-! ## From pieces to values -/

/-- Wherever the pieces stand, building the tree goes on behind them with nodes that have the given values. -/
def Denotes (pieces : List Piece) (values : List Value) : Prop :=
  ∀ (source : Bytes) (p : Position), ∃ (nodes : List Node) (q : Position),
    Node.readAll nodes = values ∧ nodes.length = values.length ∧
      ∀ (stack : List OpenList) (before : List Node) (rest : List Piece),
        formsFrom stack before (Token.place source p (pieces ++ rest)) =
          formsFrom stack (nodes.reverse ++ before) (Token.place source q rest)

theorem Node.readAll_append (first second : List Node) :
    readAll (first ++ second) = readAll first ++ readAll second := by
  induction first with
  | nil => rfl
  | cons node rest ih =>
      rw [List.cons_append, readAll, readAll, ih]
      cases read? node with
      | none => rfl
      | some v => rfl

theorem denotes_nil : Denotes [] [] :=
  fun _ p => ⟨[], p, rfl, rfl, fun _ _ _ => rfl⟩

/-- Pieces after one another denote values after one another. -/
theorem Denotes.append {first second : List Piece} {values others : List Value} (hfirst : Denotes first values)
    (hsecond : Denotes second others) : Denotes (first ++ second) (values ++ others) := by
  intro source p
  obtain ⟨nodes, q, hread, hlength, hforms⟩ := hfirst source p
  obtain ⟨nodes', q', hread', hlength', hforms'⟩ := hsecond source q
  refine ⟨nodes ++ nodes', q', ?_, ?_, fun stack before rest => ?_⟩
  · rw [Node.readAll_append, hread, hread']
  · rw [List.length_append, List.length_append, hlength, hlength']
  · rw [List.append_assoc, hforms, hforms', List.reverse_append, List.append_assoc]

theorem denotes_blanks (text : List Char) : Denotes [.blanks text] [] :=
  fun _ p => ⟨[], p.after text, rfl, rfl, fun _ _ _ => rfl⟩

theorem denotes_number (text : List Char) : Denotes [.lexeme .number text] [readNumber text] :=
  fun source p => ⟨[.number (.ofLexeme source p .number text)], p.after text, rfl, rfl, fun _ _ _ => rfl⟩

theorem denotes_string (text : List Char) : Denotes [.lexeme .string text] [readString text] :=
  fun source p => ⟨[.string (.ofLexeme source p .string text)], p.after text, rfl, rfl, fun _ _ _ => rfl⟩

theorem denotes_symbol (text : List Char) : Denotes [.lexeme .symbol text] [.symbol (Utf8.encode text)] :=
  fun source p => ⟨[.symbol (.ofLexeme source p .symbol text)], p.after text, rfl, rfl, fun _ _ _ => rfl⟩

/-- What stands between two delimiters denotes a list. -/
theorem Denotes.list {pieces : List Piece} {values : List Value} (h : Denotes pieces values) (d : Delimiter) :
    Denotes (.lexeme (.opening d) [d.opener] :: (pieces ++ [.lexeme (.closing d) [d.closer]])) [d.list values] := by
  intro source p
  obtain ⟨nodes, q, hread, -, hforms⟩ := h source (p.after [d.opener])
  refine ⟨[.list d (.ofLexeme source p (.opening d) [d.opener]) nodes], q.after [d.closer], ?_, rfl, ?_⟩
  · rw [← hread]
    rfl
  · intro stack before rest
    have hopened : formsFrom stack before (Token.place source p
        (.lexeme (.opening d) [d.opener] :: (pieces ++ [.lexeme (.closing d) [d.closer]]) ++ rest)) =
        formsFrom (⟨d, .ofLexeme source p (.opening d) [d.opener], before⟩ :: stack) []
          (Token.place source (p.after [d.opener]) (pieces ++ (.lexeme (.closing d) [d.closer] :: rest))) := by
      rw [List.cons_append, List.append_assoc]
      rfl
    rw [hopened, hforms]
    simp [Token.place, Token.ofLexeme, formsFrom]

/-- A text whose pieces denote values has a tree with one form for each, and is read as those values. -/
theorem Denotes.parse {text : List Char} {values : List Value} (h : Denotes (Piece.cut text) values)
    (source : Bytes) :
    ∃ root, Root.parse source text = .ok root ∧ root.forms.length = values.length ∧
      root.read = .sexpr values := by
  obtain ⟨nodes, q, hread, hlength, hforms⟩ := h source .start
  have hforms := hforms [] [] []
  rw [List.append_nil, List.append_nil] at hforms
  have hend : formsFrom [] nodes.reverse (Token.place source q []) = .ok nodes := by
    simp [Token.place, Token.atEnd, formsFrom]
  refine ⟨⟨(Token.scan source text).headD (Token.atEnd source .start), nodes⟩, ?_, hlength, ?_⟩
  · rw [Root.parse, ofTokens, Token.scan, hforms, hend]
    rfl
  · rw [Root.read, program, hread]

/-! ## From trees to atoms -/

/-- The node of a token that is neither a delimiter nor illegal. -/
inductive Node.AtomOf (t : Token) : Node → Prop where
  | number (kind : t.kind = .number) : AtomOf t (.number t)
  | string (kind : t.kind = .string) : AtomOf t (.string t)
  | symbol (kind : t.kind = .symbol) : AtomOf t (.symbol t)
  | comment (kind : t.kind = .comment) : AtomOf t (.comment t)

/-- Reading goes on behind an atom. -/
theorem formsFrom_atom {t : Token} {node : Node} (h : node.AtomOf t) (stack : List OpenList) (nodes : List Node)
    (rest : List Token) : formsFrom stack nodes (t :: rest) = formsFrom stack (node :: nodes) rest := by
  cases h with
  | number kind => simp only [formsFrom, kind]
  | string kind => simp only [formsFrom, kind]
  | symbol kind => simp only [formsFrom, kind]
  | comment kind => simp only [formsFrom, kind]

/-- What is true of the atoms of a run of tokens, and kept by lists, is true of the forms. -/
theorem forall_mem_formsFrom {good : Node → Prop}
    (hlist : ∀ d t cells, (∀ cell ∈ cells, good cell) → good (.list d t cells)) {tokens : List Token}
    (hatoms : ∀ t ∈ tokens, ∀ node : Node, node.AtomOf t → good node) {stack : List OpenList}
    {nodes forms : List Node} (hstack : ∀ list ∈ stack, ∀ node ∈ list.before, good node)
    (hnodes : ∀ node ∈ nodes, good node) (h : formsFrom stack nodes tokens = .ok forms) :
    ∀ node ∈ forms, good node := by
  have hreverse {nodes : List Node} (hnodes : ∀ node ∈ nodes, good node) : ∀ node ∈ nodes.reverse, good node :=
    fun node hnode => hnodes node (List.mem_reverse.mp hnode)
  induction tokens generalizing stack nodes with
  | nil =>
      obtain rfl := Except.ok.inj h
      exact hreverse hnodes
  | cons t rest ih =>
      obtain ⟨hatom, hrest⟩ := List.forall_mem_cons.mp hatoms
      have hnext {node : Node} (hnode : node.AtomOf t) : ∀ n ∈ node :: nodes, good n :=
        List.forall_mem_cons.mpr ⟨hatom node hnode, hnodes⟩
      cases hkind : t.kind with
      | number =>
          simp only [formsFrom, hkind] at h
          exact ih hrest hstack (hnext (.number hkind)) h
      | string =>
          simp only [formsFrom, hkind] at h
          exact ih hrest hstack (hnext (.string hkind)) h
      | symbol =>
          simp only [formsFrom, hkind] at h
          exact ih hrest hstack (hnext (.symbol hkind)) h
      | comment =>
          simp only [formsFrom, hkind] at h
          exact ih hrest hstack (hnext (.comment hkind)) h
      | opening d =>
          simp only [formsFrom, hkind] at h
          exact ih hrest (List.forall_mem_cons.mpr ⟨hnodes, hstack⟩) (List.forall_mem_nil _) h
      | closing d =>
          cases stack with
          | nil =>
              simp only [formsFrom, hkind] at h
              cases h
          | cons list outer =>
              obtain ⟨hbefore, houter⟩ := List.forall_mem_cons.mp hstack
              simp only [formsFrom, hkind] at h
              split at h
              · have hclosed := hlist d list.token nodes.reverse (hreverse hnodes)
                exact ih hrest houter (List.forall_mem_cons.mpr ⟨hclosed, hbefore⟩) h
              · cases h
      | illegal =>
          simp only [formsFrom, hkind] at h
          cases h
      | eof =>
          cases stack with
          | nil =>
              simp only [formsFrom, hkind] at h
              obtain rfl := Except.ok.inj h
              exact hreverse hnodes
          | cons list outer =>
              simp only [formsFrom, hkind] at h
              cases h

theorem formsFrom_of_parse {source : Bytes} {text : List Char} {root : Root}
    (h : Root.parse source text = .ok root) :
    formsFrom [] [] (Token.scan source text) = .ok root.forms := by
  unfold Root.parse ofTokens at h
  cases hforms : formsFrom [] [] (Token.scan source text) with
  | error e =>
      rw [hforms] at h
      cases h
  | ok forms =>
      rw [hforms] at h
      obtain rfl := Except.ok.inj h
      rfl

theorem formsFrom_of_parse_error {source : Bytes} {text : List Char} {e : ParseError}
    (h : Root.parse source text = .error e) : formsFrom [] [] (Token.scan source text) = .error e := by
  unfold Root.parse ofTokens at h
  cases hforms : formsFrom [] [] (Token.scan source text) with
  | ok forms =>
      rw [hforms] at h
      cases h
  | error e' =>
      rw [hforms] at h
      exact congrArg Except.error (Except.error.inj h)

end BraceLisp.Source
