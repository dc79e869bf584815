import BraceLisp.Proofs.Source.Comments
import BraceLisp.Proofs.Source.Seam
import BraceLisp.Session.Basic

/-!
# Trees written out

A tree is written out without its comments, with a space between neighbours and none next to a delimiter. However
close the tokens stood to one another in the source, the words of what is written are those of the source without the
comments. So it is parsed into the same tree, comments and places apart, and is read as the same values.
-/

namespace BraceLisp.Source

open CharClass Root

/-! ## Trees without places and without comments -/

def Token.unplaced (t : Token) : Token :=
  { t with line := 0, startColumn := 0, endColumn := 0, source := [] }

theorem Token.unplaced_eq_of_word {t t' : Token} (h : t.word = t'.word) : t.unplaced = t'.unplaced := by
  obtain ⟨hkind, hliteral⟩ := Word.mk.inj h
  rw [unplaced, unplaced, hkind, hliteral]

namespace Node

mutual

def unplaced : Node → Node
  | .comment t => .comment t.unplaced
  | .number t => .number t.unplaced
  | .string t => .string t.unplaced
  | .symbol t => .symbol t.unplaced
  | .list d t cells => .list d t.unplaced (unplacedAll cells)

def unplacedAll : List Node → List Node
  | [] => []
  | node :: rest => unplaced node :: unplacedAll rest

end

mutual

def uncommented : Node → Node
  | .list d t cells => .list d t (uncommentedAll cells)
  | node => node

def uncommentedAll : List Node → List Node
  | [] => []
  | .comment _ :: rest => uncommentedAll rest
  | node :: rest => uncommented node :: uncommentedAll rest

end

/-- The places of nodes have no part in what is written out. -/
theorem renderCells_unplacedAll (nodes : List Node) : renderCells (unplacedAll nodes) = renderCells nodes := by
  match nodes with
  | [] => rfl
  | .comment _ :: rest => exact renderCells_unplacedAll rest
  | .number t :: rest => exact congrArg (t.literal :: ·) (renderCells_unplacedAll rest)
  | .string t :: rest => exact congrArg (t.literal :: ·) (renderCells_unplacedAll rest)
  | .symbol t :: rest => exact congrArg (t.literal :: ·) (renderCells_unplacedAll rest)
  | .list d t cells :: rest =>
      simp only [unplacedAll, unplaced, renderCells, render, renderCells_unplacedAll cells,
        renderCells_unplacedAll rest]

/-- Nor have the comments. -/
theorem renderCells_uncommentedAll (nodes : List Node) : renderCells (uncommentedAll nodes) = renderCells nodes := by
  match nodes with
  | [] => rfl
  | .comment _ :: rest => exact renderCells_uncommentedAll rest
  | .number t :: rest => exact congrArg (t.literal :: ·) (renderCells_uncommentedAll rest)
  | .string t :: rest => exact congrArg (t.literal :: ·) (renderCells_uncommentedAll rest)
  | .symbol t :: rest => exact congrArg (t.literal :: ·) (renderCells_uncommentedAll rest)
  | .list d t cells :: rest =>
      simp only [uncommentedAll, uncommented, renderCells, render, renderCells_uncommentedAll cells,
        renderCells_uncommentedAll rest]

end Node

namespace Spells

variable {nodes : List Node} {tokens others : List Token}

/-- Nodes without the comments are built of the tokens without the comments. -/
theorem uncommentedAll (h : Spells nodes tokens) :
    Spells (Node.uncommentedAll nodes) (tokens.filter fun t => t.kind != .comment) := by
  induction h with
  | nil => exact .nil
  | @atom t node nodes tokens hatom _ ih =>
      cases hatom with
      | number kind =>
          rw [List.filter_cons_of_pos (by rw [kind]; rfl)]
          exact .atom (.number kind) ih
      | string kind =>
          rw [List.filter_cons_of_pos (by rw [kind]; rfl)]
          exact .atom (.string kind) ih
      | symbol kind =>
          rw [List.filter_cons_of_pos (by rw [kind]; rfl)]
          exact .atom (.symbol kind) ih
      | comment kind =>
          rw [List.filter_cons_of_neg (by rw [kind]; decide)]
          exact ih
  | @list d opener closer cells nodes inside tokens hopening hclosing _ _ ihinner ihrest =>
      rw [List.filter_cons_of_pos (by rw [hopening]; rfl), List.filter_append,
        List.filter_cons_of_pos (by rw [hclosing]; rfl)]
      exact .list hopening hclosing ihinner ihrest

/-- Tokens with the words of others are built into the same nodes, places apart. -/
theorem exists_unplacedAll_eq (h : Spells nodes tokens) (hwords : others.map Token.word = tokens.map Token.word) :
    ∃ nodes', Spells nodes' others ∧ Node.unplacedAll nodes' = Node.unplacedAll nodes := by
  induction h generalizing others with
  | nil =>
      obtain rfl := List.map_eq_nil_iff.mp hwords
      exact ⟨[], .nil, rfl⟩
  | @atom t node nodes tokens hatom _ ih =>
      obtain ⟨t', others, rfl, ht, hrest⟩ := List.map_eq_cons_iff.mp hwords
      obtain ⟨nodes', hspells, hsame⟩ := ih hrest
      have hkind : t'.kind = t.kind := congrArg Word.kind ht
      have htoken := Token.unplaced_eq_of_word ht
      cases hatom with
      | number kind =>
          refine ⟨.number t' :: nodes', .atom (.number (hkind.trans kind)) hspells, ?_⟩
          rw [Node.unplacedAll, Node.unplacedAll, Node.unplaced, Node.unplaced, htoken, hsame]
      | string kind =>
          refine ⟨.string t' :: nodes', .atom (.string (hkind.trans kind)) hspells, ?_⟩
          rw [Node.unplacedAll, Node.unplacedAll, Node.unplaced, Node.unplaced, htoken, hsame]
      | symbol kind =>
          refine ⟨.symbol t' :: nodes', .atom (.symbol (hkind.trans kind)) hspells, ?_⟩
          rw [Node.unplacedAll, Node.unplacedAll, Node.unplaced, Node.unplaced, htoken, hsame]
      | comment kind =>
          refine ⟨.comment t' :: nodes', .atom (.comment (hkind.trans kind)) hspells, ?_⟩
          rw [Node.unplacedAll, Node.unplacedAll, Node.unplaced, Node.unplaced, htoken, hsame]
  | @list d opener closer cells nodes inside tokens hopening hclosing _ _ ihinner ihrest =>
      rw [List.map_cons, List.map_append, List.map_cons] at hwords
      obtain ⟨opener', others, rfl, hopener, hothers⟩ := List.map_eq_cons_iff.mp hwords
      obtain ⟨inside', others, rfl, hinside, hothers⟩ := List.map_eq_append_iff.mp hothers
      obtain ⟨closer', others, rfl, hcloser, hrest⟩ := List.map_eq_cons_iff.mp hothers
      obtain ⟨cells', hcells, hsameCells⟩ := ihinner hinside
      obtain ⟨nodes', hnodes, hsame⟩ := ihrest hrest
      have hopening' : opener'.kind = .opening d := (congrArg Word.kind hopener).trans hopening
      have hclosing' : closer'.kind = .closing d := (congrArg Word.kind hcloser).trans hclosing
      refine ⟨.list d opener' cells' :: nodes', .list hopening' hclosing' hcells hnodes, ?_⟩
      rw [Node.unplacedAll, Node.unplacedAll, Node.unplaced, Node.unplaced, Token.unplaced_eq_of_word hopener,
        hsameCells, hsame]

end Spells

/-! ## The words of what is written -/

/-- A text has some words in front of whatever cannot extend it. -/
def Carries (text : List Char) (carried : List Word) : Prop :=
  ∀ rest, Piece.Stops rest → words (text ++ rest) = carried ++ words rest

namespace Carries

variable {text : List Char} {parts : List (List Char)} {carried others : List Word}

theorem nil : Carries [] [] :=
  fun _ _ => rfl

theorem token {kind : Kind} (h : kind.Has text) (hcomment : kind ≠ .comment) : Carries text [⟨kind, text⟩] := by
  intro rest hrest
  exact words_append_of_has h (Piece.endsBefore_of_stops hrest hcomment)

/-- A text and more texts behind spaces. -/
theorem spaced_cons (h : Carries text carried) (h' : Carries (Node.spaced parts) others) :
    Carries (Node.spaced (text :: parts)) (carried ++ others) := by
  intro rest hrest
  cases parts with
  | nil =>
      have hothers : others = [] := by
        have hwords := h' [] fun c hc => nomatch hc
        simpa [Node.spaced] using hwords
      rw [Node.spaced, hothers, List.append_nil]
      exact h rest hrest
  | cons part parts =>
      have hspace := Piece.stops_cons (c := ' ') (by decide) (Node.spaced (part :: parts) ++ rest)
      have hspaced : Node.spaced (text :: part :: parts) = text ++ ' ' :: Node.spaced (part :: parts) := rfl
      rw [hspaced, List.append_assoc, List.cons_append, h _ hspace, words_cons_of_isBlank (by decide),
        h' rest hrest, List.append_assoc]

theorem list (h : Carries text carried) (d : Delimiter) :
    Carries (d.opener :: text ++ [d.closer])
      (⟨.opening d, [d.opener]⟩ :: (carried ++ [⟨.closing d, [d.closer]⟩])) := by
  intro rest _
  have hcloser : Piece.Stops (d.closer :: rest) := Piece.stops_cons (by cases d <;> decide) rest
  rw [List.cons_append, List.cons_append, List.append_assoc, List.singleton_append, words_opener, h _ hcloser,
    words_closer, List.cons_append, List.append_assoc, List.singleton_append]

end Carries

/-- Nodes are written out with the words of their tokens, comments apart. -/
theorem Spells.carries {nodes : List Node} {tokens : List Token} (h : Spells nodes tokens)
    (hhas : ∀ t ∈ tokens, t.kind.Has t.literal) :
    Carries (Node.spaced (Node.renderCells nodes)) (withoutComments (tokens.map Token.word)) := by
  induction h with
  | nil => exact .nil
  | @atom t node nodes tokens hatom _ ih =>
      obtain ⟨ht, hrest⟩ := List.forall_mem_cons.mp hhas
      rw [List.map_cons]
      cases hatom with
      | number kind =>
          have hword : t.word.kind ≠ .comment := by rw [Token.word, kind]; exact Kind.noConfusion
          rw [withoutComments_cons hword]
          exact (Carries.token ht hword).spaced_cons (ih hrest)
      | string kind =>
          have hword : t.word.kind ≠ .comment := by rw [Token.word, kind]; exact Kind.noConfusion
          rw [withoutComments_cons hword]
          exact (Carries.token ht hword).spaced_cons (ih hrest)
      | symbol kind =>
          have hword : t.word.kind ≠ .comment := by rw [Token.word, kind]; exact Kind.noConfusion
          rw [withoutComments_cons hword]
          exact (Carries.token ht hword).spaced_cons (ih hrest)
      | comment kind =>
          rw [Token.word, kind]
          exact ih hrest
  | @list d opener closer cells nodes inside tokens hopening hclosing _ _ ihinner ihrest =>
      obtain ⟨hopener, hothers⟩ := List.forall_mem_cons.mp hhas
      obtain ⟨hinside, hothers⟩ := List.forall_mem_append.mp hothers
      obtain ⟨hcloser, hrest⟩ := List.forall_mem_cons.mp hothers
      rw [hopening] at hopener
      rw [hclosing] at hcloser
      have hopenerWord : opener.word = ⟨.opening d, [d.opener]⟩ := by
        rw [Token.word, hopening, show opener.literal = [d.opener] from hopener]
      have hcloserWord : closer.word = ⟨.closing d, [d.closer]⟩ := by
        rw [Token.word, hclosing, show closer.literal = [d.closer] from hcloser]
      have hlist : Carries (Node.spaced (Node.renderCells (.list d opener cells :: nodes))) _ :=
        ((ihinner hinside).list d).spaced_cons (ihrest hrest)
      rw [List.map_cons, List.map_append, List.map_cons, hopenerWord, hcloserWord,
        withoutComments_cons Kind.noConfusion, withoutComments_append, withoutComments_cons Kind.noConfusion]
      simpa only [List.cons_append, List.append_assoc, List.nil_append] using hlist

/-! ## Reading what is written -/

/-- A text with the words of some nodes is parsed into these nodes, places apart. -/
theorem Spells.exists_parse {nodes : List Node} {tokens : List Token} (h : Spells nodes tokens) {text : List Char}
    (hwords : words text = tokens.map Token.word) (source : Bytes) :
    ∃ root, Root.parse source text = .ok root ∧ Node.unplacedAll root.forms = Node.unplacedAll nodes := by
  obtain ⟨others, last, hscan, hlast, -, hothers⟩ := exists_scan_eq source text
  obtain ⟨nodes', hspells, hsame⟩ := h.exists_unplacedAll_eq (hothers.trans hwords)
  have hforms := hspells.formsFrom_append [] [] [last]
  simp only [formsFrom, hlast, List.append_nil, List.reverse_reverse] at hforms
  refine ⟨⟨(Token.scan source text).headD (Token.atEnd source .start), nodes'⟩, ?_, hsame⟩
  rw [Root.parse, ofTokens, hscan, hforms]
  rfl

/--
The tree of a text, written out, is parsed into the same tree without its comments, places apart, which is written out
as the same text again and read as the same values.
-/
theorem render_reads_back {source text : Bytes} {root : Root} (h : Session.parse source text = .ok root)
    (other : Bytes) :
    ∃ reread, Session.parse other (Utf8.encode root.render) = .ok reread ∧
      Node.unplacedAll reread.forms = Node.unplacedAll (Node.uncommentedAll root.forms) ∧
      reread.render = root.render ∧ reread.read = root.read := by
  obtain ⟨tokens, last, -, -, hspells, htokens, hhas⟩ := exists_spells_of_parse h
  have hwords : words root.render = withoutComments (tokens.map Token.word) := by
    have hcarries := hspells.carries hhas [] fun c hc => nomatch hc
    rwa [List.append_nil, show words [] = [] from rfl, List.append_nil] at hcarries
  have hfilter : words root.render = (tokens.filter fun t => t.kind != .comment).map Token.word := by
    rw [hwords, withoutComments, List.filter_map]
    rfl
  obtain ⟨reread, hreread, hforms⟩ := hspells.uncommentedAll.exists_parse hfilter other
  refine ⟨reread, ?_, hforms, ?_, ?_⟩
  · rw [Session.parse, Utf8.decode_encode]
    exact hreread
  · rw [Root.render, Root.render, ← Node.renderCells_unplacedAll, hforms, Node.renderCells_unplacedAll,
      Node.renderCells_uncommentedAll]
  · -- both texts mean the values of the words that are no comments
    have hmeans := exists_parse_iff_means.mp ⟨root, h, rfl⟩
    rw [← htokens, ← means_withoutComments_iff, ← hwords] at hmeans
    obtain ⟨again, hagain, hprogram⟩ : ∃ again, Root.parse other _ = .ok again ∧ again.program = _ :=
      exists_parse_iff_means.mpr hmeans
    obtain rfl := Except.ok.inj (hagain.symm.trans hreread)
    rw [Root.read, Root.read, hprogram]

/-- Neighbours that touch in the source are written apart, and the two lines of comment are left out. -/
theorem render_reads_back_of_neighbours :
    ∃ root reread, Session.parse [] (Bytes.of "\x7b12ab-5 12-5;c\x7d\n\"x\"\"y\"-(;(\n-)\x7d") = .ok root ∧
      Utf8.encode root.render = Bytes.of "\x7b12 ab-5 12 -5 \"x\" \"y\" - (-)\x7d" ∧
      Session.parse [] (Utf8.encode root.render) = .ok reread ∧
      Node.unplacedAll reread.forms = Node.unplacedAll (Node.uncommentedAll root.forms) ∧
      reread.render = root.render ∧ reread.read = root.read := by
  have hrender : ((Session.parse [] (Bytes.of "\x7b12ab-5 12-5;c\x7d\n\"x\"\"y\"-(;(\n-)\x7d")).toOption.map
      fun root => Utf8.encode root.render) = some (Bytes.of "\x7b12 ab-5 12 -5 \"x\" \"y\" - (-)\x7d") := by
    decide +kernel
  cases hparse : Session.parse [] (Bytes.of "\x7b12ab-5 12-5;c\x7d\n\"x\"\"y\"-(;(\n-)\x7d") with
  | error e =>
      rw [hparse] at hrender
      cases hrender
  | ok root =>
      rw [hparse] at hrender
      obtain ⟨reread, hreread, hforms, hagain, hread⟩ := render_reads_back hparse []
      exact ⟨root, reread, rfl, Option.some.inj hrender, hreread, hforms, hagain, hread⟩

end BraceLisp.Source
