import BraceLisp.Proofs.Source.Forms
import BraceLisp.Proofs.Source.Scan

/-!
# Nesting

A text has a tree just when none of its tokens is illegal and its delimiters are nested and matched, and the
tree holds every token of the text: written out, with a closing delimiter behind the cells of each list, it is
the tokens again.

Both directions go through one relation between nodes and the tokens they are built of. Reading runs over the
tokens of given nodes and comes out with these nodes; and at every point of a reading the tokens read so far are
those of the finished nodes and of the lists still open.
-/

namespace BraceLisp.Source

open Root

/-! ## Nested delimiters -/

/-- Every opening delimiter is closed by its own closing one, and what is between the two is nested again. -/
inductive Nested : List Kind → Prop where
  | nil : Nested []
  | plain {kind : Kind} {rest : List Kind} (notOpening : ∀ d, kind ≠ .opening d)
      (notClosing : ∀ d, kind ≠ .closing d) (nested : Nested rest) : Nested (kind :: rest)
  | list (d : Delimiter) {inside rest : List Kind} (inner : Nested inside) (outer : Nested rest) :
      Nested (.opening d :: (inside ++ .closing d :: rest))

def Token.beforeEnd (tokens : List Token) : List Token :=
  tokens.takeWhile fun t => t.kind != .eof

/-! ## Trees as tokens -/

/-- What a tree keeps of a token: all of it, but of a closing delimiter only its kind and its literal. -/
inductive Mark where
  | token (t : Token)
  | closing (kind : Kind) (literal : List Char)

def Token.mark (t : Token) : Mark :=
  match t.kind with
  | .closing d => .closing (.closing d) t.literal
  | _ => .token t

namespace Node

mutual

/-- A node written out: its token, and for a list the cells and the delimiter that closes it. -/
def marks : Node → List Mark
  | .comment t => [.token t]
  | .number t => [.token t]
  | .string t => [.token t]
  | .symbol t => [.token t]
  | .list d t cells => .token t :: (marksAll cells ++ [.closing (.closing d) [d.closer]])

def marksAll : List Node → List Mark
  | [] => []
  | node :: rest => marks node ++ marksAll rest

end

end Node

/--
Nodes are built of tokens, in order: each atom of a token of its kind, and each list of an opening delimiter,
the tokens of its cells, and the delimiter that closes it.
-/
inductive Spells : List Node → List Token → Prop where
  | nil : Spells [] []
  | atom {t : Token} {node : Node} {nodes : List Node} {tokens : List Token} (atom : node.AtomOf t)
      (rest : Spells nodes tokens) : Spells (node :: nodes) (t :: tokens)
  | list {d : Delimiter} {opener closer : Token} {cells nodes : List Node} {inside tokens : List Token}
      (opening : opener.kind = .opening d) (closing : closer.kind = .closing d) (inner : Spells cells inside)
      (rest : Spells nodes tokens) :
      Spells (.list d opener cells :: nodes) (opener :: (inside ++ closer :: tokens))

namespace Spells

variable {nodes others : List Node} {tokens more : List Token}

theorem append (h : Spells nodes tokens) (h' : Spells others more) : Spells (nodes ++ others) (tokens ++ more) := by
  induction h with
  | nil => exact h'
  | atom hatom _ ih => exact .atom hatom ih
  | list hopening hclosing hinner _ _ ih =>
      rw [List.cons_append, List.cons_append, List.append_assoc]
      exact .list hopening hclosing hinner ih

/-- Reading the tokens of some nodes gives these nodes, wherever the tokens stand. -/
theorem formsFrom_append (h : Spells nodes tokens) (stack : List OpenList) (before : List Node)
    (rest : List Token) :
    formsFrom stack before (tokens ++ rest) = formsFrom stack (nodes.reverse ++ before) rest := by
  induction h generalizing stack before rest with
  | nil => rfl
  | atom hatom _ ih =>
      rw [List.reverse_cons, List.append_assoc, List.singleton_append, ← ih, List.cons_append, formsFrom_atom hatom]
  | @list d opener closer cells nodes inside tokens hopening hclosing _ _ ihinner ihrest =>
      have hopened : formsFrom stack before (opener :: (inside ++ closer :: tokens) ++ rest) =
          formsFrom (⟨d, opener, before⟩ :: stack) [] (inside ++ (closer :: (tokens ++ rest))) := by
        simp only [List.cons_append, List.append_assoc, formsFrom, hopening]
      rw [hopened, ihinner]
      simp only [formsFrom, hclosing, if_true, List.append_nil, List.reverse_reverse, ihrest,
        List.reverse_cons, List.append_assoc, List.singleton_append]

theorem nested (h : Spells nodes tokens) : Nested (tokens.map Token.kind) := by
  induction h with
  | nil => exact .nil
  | atom hatom _ ih =>
      cases hatom with
      | number kind => exact .plain (by simp [kind]) (by simp [kind]) ih
      | string kind => exact .plain (by simp [kind]) (by simp [kind]) ih
      | symbol kind => exact .plain (by simp [kind]) (by simp [kind]) ih
      | comment kind => exact .plain (by simp [kind]) (by simp [kind]) ih
  | list hopening hclosing _ _ ihinner ihrest =>
      rw [List.map_cons, List.map_append, List.map_cons, hopening, hclosing]
      exact .list _ ihinner ihrest

theorem kind_ne_illegal (h : Spells nodes tokens) : ∀ t ∈ tokens, t.kind ≠ .illegal := by
  induction h with
  | nil => exact List.forall_mem_nil _
  | atom hatom _ ih =>
      refine List.forall_mem_cons.mpr ⟨?_, ih⟩
      cases hatom with
      | number kind => simp [kind]
      | string kind => simp [kind]
      | symbol kind => simp [kind]
      | comment kind => simp [kind]
  | list hopening hclosing _ _ ihinner ihrest =>
      refine List.forall_mem_cons.mpr ⟨by simp [hopening], List.forall_mem_append.mpr ⟨ihinner, ?_⟩⟩
      exact List.forall_mem_cons.mpr ⟨by simp [hclosing], ihrest⟩

/-- Nodes written out are the tokens they are built of. -/
theorem marksAll_eq (h : Spells nodes tokens)
    (hclosers : ∀ t ∈ tokens, ∀ d, t.kind = .closing d → t.literal = [d.closer]) :
    Node.marksAll nodes = tokens.map Token.mark := by
  induction h with
  | nil => rfl
  | @atom t node nodes tokens hatom _ ih =>
      obtain ⟨-, hrest⟩ := List.forall_mem_cons.mp hclosers
      have hnode : Node.marks node = [t.mark] := by
        cases hatom with
        | number kind => simp only [Node.marks, Token.mark, kind]
        | string kind => simp only [Node.marks, Token.mark, kind]
        | symbol kind => simp only [Node.marks, Token.mark, kind]
        | comment kind => simp only [Node.marks, Token.mark, kind]
      rw [Node.marksAll, hnode, ih hrest]
      rfl
  | @list d opener closer cells nodes inside tokens hopening hclosing _ _ ihinner ihrest =>
      obtain ⟨-, hinside, hafter⟩ := by
        simpa only [List.forall_mem_cons, List.forall_mem_append] using hclosers
      have hopener : opener.mark = .token opener := by simp only [Token.mark, hopening]
      have hcloser : closer.mark = .closing (.closing d) [d.closer] := by
        simp only [Token.mark, hclosing, hafter.1 d hclosing]
      rw [Node.marksAll, Node.marks, ihinner hinside, ihrest hafter.2, List.map_cons, List.map_append,
        List.map_cons, hopener, hcloser]
      simp

end Spells

/-! ## Nested tokens have a tree -/

/-- Legal tokens whose delimiters are nested are the tokens of some nodes. -/
theorem Nested.exists_spells {kinds : List Kind} (h : Nested kinds) {tokens : List Token}
    (hkinds : tokens.map Token.kind = kinds) (hlegal : ∀ t ∈ tokens, t.kind ≠ .illegal)
    (hend : ∀ t ∈ tokens, t.kind ≠ .eof) : ∃ nodes, Spells nodes tokens := by
  induction h generalizing tokens with
  | nil =>
      obtain rfl := List.map_eq_nil_iff.mp hkinds
      exact ⟨[], .nil⟩
  | @plain kind rest hopening hclosing _ ih =>
      obtain ⟨t, tokens, rfl, rfl, hrest⟩ := List.map_eq_cons_iff.mp hkinds
      obtain ⟨hlegalFirst, hlegal⟩ := List.forall_mem_cons.mp hlegal
      obtain ⟨hendFirst, hend⟩ := List.forall_mem_cons.mp hend
      obtain ⟨nodes, hnodes⟩ := ih hrest hlegal hend
      cases hkind : t.kind with
      | number => exact ⟨.number t :: nodes, .atom (.number hkind) hnodes⟩
      | string => exact ⟨.string t :: nodes, .atom (.string hkind) hnodes⟩
      | symbol => exact ⟨.symbol t :: nodes, .atom (.symbol hkind) hnodes⟩
      | comment => exact ⟨.comment t :: nodes, .atom (.comment hkind) hnodes⟩
      | opening d => exact absurd hkind (hopening d)
      | closing d => exact absurd hkind (hclosing d)
      | illegal => exact absurd hkind hlegalFirst
      | eof => exact absurd hkind hendFirst
  | list d _ _ ihinner ihrest =>
      obtain ⟨opener, tokens, rfl, hopening, hrest⟩ := List.map_eq_cons_iff.mp hkinds
      obtain ⟨inside, tokens, rfl, hinside, hrest⟩ := List.map_eq_append_iff.mp hrest
      obtain ⟨closer, tokens, rfl, hclosing, hrest⟩ := List.map_eq_cons_iff.mp hrest
      simp only [List.forall_mem_cons, List.forall_mem_append] at hlegal hend
      obtain ⟨cells, hcells⟩ := ihinner hinside hlegal.2.1 hend.2.1
      obtain ⟨nodes, hnodes⟩ := ihrest hrest hlegal.2.2.2 hend.2.2.2
      exact ⟨.list d opener cells :: nodes, .list hopening hclosing hcells hnodes⟩

/-! ## Trees have nested tokens -/

/--
The tokens read so far: those of the nodes of the innermost list, behind the opening delimiter of that list and
the tokens read before it.
-/
inductive Seen : List OpenList → List Node → List Token → Prop where
  | outermost {nodes : List Node} {tokens : List Token} (spells : Spells nodes.reverse tokens) :
      Seen [] nodes tokens
  | inside {list : OpenList} {outer : List OpenList} {nodes : List Node} {earlier tokens : List Token}
      (opening : list.token.kind = .opening list.delimiter) (before : Seen outer list.before earlier)
      (spells : Spells nodes.reverse tokens) :
      Seen (list :: outer) nodes (earlier ++ list.token :: tokens)

namespace Seen

variable {stack : List OpenList} {nodes : List Node} {tokens : List Token}

/-- Further nodes can be read wherever reading stands. -/
theorem extend (h : Seen stack nodes tokens) {node : Node} {more : List Token} (hnode : Spells [node] more) :
    Seen stack (node :: nodes) (tokens ++ more) := by
  cases h with
  | outermost hspells =>
      have hmore := hspells.append hnode
      rw [← List.reverse_cons] at hmore
      exact .outermost hmore
  | inside hopening hbefore hspells =>
      have hmore := hspells.append hnode
      rw [← List.reverse_cons] at hmore
      rw [List.append_assoc, List.cons_append]
      exact .inside hopening hbefore hmore

theorem atom (h : Seen stack nodes tokens) {t : Token} {node : Node} (hatom : node.AtomOf t) :
    Seen stack (node :: nodes) (tokens ++ [t]) :=
  h.extend (.atom hatom .nil)

theorem opened (h : Seen stack nodes tokens) {d : Delimiter} {t : Token} (hkind : t.kind = .opening d) :
    Seen (⟨d, t, nodes⟩ :: stack) [] (tokens ++ [t]) := by
  have hlist : (OpenList.mk d t nodes).token.kind = .opening (OpenList.mk d t nodes).delimiter := hkind
  exact .inside hlist h .nil

theorem closed {list : OpenList} {outer : List OpenList} (h : Seen (list :: outer) nodes tokens) {t : Token}
    (hkind : t.kind = .closing list.delimiter) :
    Seen outer (.list list.delimiter list.token nodes.reverse :: list.before) (tokens ++ [t]) := by
  cases h with
  | inside hopening hbefore hspells =>
      rw [List.append_assoc, List.cons_append]
      exact hbefore.extend (.list hopening hkind hspells .nil)

/-- When the end of the text has been read, all tokens before it are those of the forms. -/
theorem spells_of_formsFrom (h : Seen stack nodes tokens) {rest : List Token} (hend : ∀ t ∈ rest, t.kind ≠ .eof)
    {last : Token} (hlast : last.kind = .eof) {forms : List Node}
    (hforms : formsFrom stack nodes (rest ++ [last]) = .ok forms) : Spells forms (tokens ++ rest) := by
  induction rest generalizing stack nodes tokens with
  | nil =>
      rw [List.append_nil]
      cases h with
      | outermost hspells =>
          simp only [List.nil_append, formsFrom, hlast] at hforms
          obtain rfl := Except.ok.inj hforms
          exact hspells
      | inside hopening hbefore hspells =>
          simp only [List.nil_append, formsFrom, hlast] at hforms
          cases hforms
  | cons t rest ih =>
      obtain ⟨hfirst, hend⟩ := List.forall_mem_cons.mp hend
      rw [← List.singleton_append, ← List.append_assoc]
      rw [List.cons_append] at hforms
      cases hkind : t.kind with
      | number =>
          simp only [formsFrom, hkind] at hforms
          exact ih (h.atom (.number hkind)) hend hforms
      | string =>
          simp only [formsFrom, hkind] at hforms
          exact ih (h.atom (.string hkind)) hend hforms
      | symbol =>
          simp only [formsFrom, hkind] at hforms
          exact ih (h.atom (.symbol hkind)) hend hforms
      | comment =>
          simp only [formsFrom, hkind] at hforms
          exact ih (h.atom (.comment hkind)) hend hforms
      | opening d =>
          simp only [formsFrom, hkind] at hforms
          exact ih (h.opened hkind) hend hforms
      | closing d =>
          cases stack with
          | nil =>
              simp only [formsFrom, hkind] at hforms
              cases hforms
          | cons list outer =>
              simp only [formsFrom, hkind] at hforms
              split at hforms
              · rename_i hmatched
                subst hmatched
                exact ih (h.closed hkind) hend hforms
              · cases hforms
      | illegal =>
          simp only [formsFrom, hkind] at hforms
          cases hforms
      | eof => exact absurd hkind hfirst

end Seen

/-! ## The tree of a text -/

theorem Token.beforeEnd_append {tokens : List Token} {last : Token} (hends : ∀ t ∈ tokens, t.kind ≠ .eof)
    (hlast : last.kind = .eof) : Token.beforeEnd (tokens ++ [last]) = tokens := by
  rw [Token.beforeEnd, List.takeWhile_append_of_pos (fun t ht => by simpa using hends t ht)]
  simp [hlast]

/--
A text has a tree just when no token before its end is illegal and its delimiters are nested, and the tree
written out is those tokens.
-/
theorem Root.parse_iff_nested (source : Bytes) (text : List Char) :
    ((∃ root, Root.parse source text = .ok root) ↔
      (∀ t ∈ Token.beforeEnd (Token.scan source text), t.kind ≠ .illegal) ∧
        Nested ((Token.beforeEnd (Token.scan source text)).map Token.kind)) ∧
    ∀ root, Root.parse source text = .ok root →
      Spells root.forms (Token.beforeEnd (Token.scan source text)) ∧
        Node.marksAll root.forms = (Token.beforeEnd (Token.scan source text)).map Token.mark := by
  obtain ⟨tokens, last, hscan, hlast, hends, -⟩ := exists_tokens_scan source text
  have hbefore : Token.beforeEnd (Token.scan source text) = tokens := by
    rw [hscan, Token.beforeEnd_append hends hlast]
  have hspells (root : Root) (hroot : Root.parse source text = .ok root) : Spells root.forms tokens := by
    have hforms := formsFrom_of_parse hroot
    rw [hscan] at hforms
    have hstart : Seen [] [] [] := .outermost .nil
    exact hstart.spells_of_formsFrom hends hlast hforms
  have hclosers : ∀ t ∈ tokens, ∀ d, t.kind = .closing d → t.literal = [d.closer] := by
    intro t ht d hkind
    have hhas := (lexed_scan source text).has
    rw [hscan] at hhas
    have hliteral := hhas t (List.mem_append_left _ ht) (by simp [hkind]) (by simp [hkind])
    rwa [hkind] at hliteral
  rw [hbefore]
  refine ⟨⟨?_, ?_⟩, fun root hroot => ⟨hspells root hroot, (hspells root hroot).marksAll_eq hclosers⟩⟩
  · rintro ⟨root, hroot⟩
    exact ⟨(hspells root hroot).kind_ne_illegal, (hspells root hroot).nested⟩
  · rintro ⟨hlegal, hnested⟩
    obtain ⟨nodes, hnodes⟩ := hnested.exists_spells rfl hlegal hends
    refine ⟨⟨(Token.scan source text).headD (Token.atEnd source .start), nodes⟩, ?_⟩
    have hforms := hnodes.formsFrom_append [] [] [last]
    simp only [formsFrom, hlast, List.append_nil, List.reverse_reverse] at hforms
    rw [Root.parse, Root.ofTokens, hscan, hforms]
    rfl

theorem Root.parse_iff_nested_of_quoted_number :
    ∃ root, Root.parse [] "(a ; b\n \x7b-1\x7d)".toList = .ok root ∧
      Spells root.forms (Token.beforeEnd (Token.scan [] "(a ; b\n \x7b-1\x7d)".toList)) ∧
      Node.marksAll root.forms =
        (Token.beforeEnd (Token.scan [] "(a ; b\n \x7b-1\x7d)".toList)).map Token.mark := by
  refine ⟨_, rfl, ?_⟩
  exact (Root.parse_iff_nested [] "(a ; b\n \x7b-1\x7d)".toList).2 _ rfl

end BraceLisp.Source
