import BraceLisp.Proofs.Source.Nesting

/-!
# What words mean

The words of a text are its tokens without their places. They alone decide whether the text can be parsed and what it
is read as: there is a grammar of words, in which each run of words that can be parsed means some values, and a text is
parsed and read as these values just when its words mean them.
-/

namespace BraceLisp.Source

open Root

/-! ## The words of a text -/

/-- What a token is apart from its place: its kind and its literal. -/
structure Word where
  kind : Kind
  literal : List Char
  deriving DecidableEq, Repr

def Token.word (t : Token) : Word := ⟨t.kind, t.literal⟩

def Piece.word? : Piece → Option Word
  | .blanks _ => none
  | .lexeme kind text => some ⟨kind, literal kind text⟩

def words (text : List Char) : List Word :=
  (Piece.cut text).filterMap Piece.word?

theorem Piece.literal_of_has {kind : Kind} {text : List Char} (h : kind.Has text) : literal kind text = text := by
  cases kind with
  | illegal => exact h.elim
  | _ => rfl

/-- A text of a kind is a word by itself, in front of whatever can follow that kind. -/
theorem words_append_of_has {kind : Kind} {text following : List Char} (h : kind.Has text)
    (hends : kind.EndsBefore following) : words (text ++ following) = ⟨kind, text⟩ :: words following := by
  rw [words, Piece.cut_of_has h hends, List.filterMap_cons_some (b := ⟨kind, text⟩)]
  · rfl
  · rw [Piece.word?, Piece.literal_of_has h]

/-- The tokens of pieces are their words at some places, and then the end. -/
theorem exists_place_eq (source : Bytes) (p : Position) (pieces : List Piece) :
    ∃ tokens last, Token.place source p pieces = tokens ++ [last] ∧
      tokens.map Token.word = pieces.filterMap Piece.word? := by
  induction pieces generalizing p with
  | nil => exact ⟨[], _, rfl, rfl⟩
  | cons piece pieces ih =>
      cases piece with
      | blanks text => exact ih (p.after text)
      | lexeme kind text =>
          obtain ⟨tokens, last, hplace, hwords⟩ := ih (p.after text)
          refine ⟨.ofLexeme source p kind text :: tokens, last, ?_, ?_⟩
          · rw [Token.place, hplace]
            rfl
          · rw [List.map_cons, hwords]
            rfl

/-- A text has tokens with its words, none of which is the end, and then its end. -/
theorem exists_scan_eq (source : Bytes) (text : List Char) :
    ∃ tokens last, Token.scan source text = tokens ++ [last] ∧ last.kind = .eof ∧
      (∀ t ∈ tokens, t.kind ≠ .eof) ∧ tokens.map Token.word = words text := by
  obtain ⟨tokens, last, hscan, hlast, hends, -⟩ := exists_tokens_scan source text
  obtain ⟨others, final, hplace, hwords⟩ := exists_place_eq source .start (Piece.cut text)
  obtain ⟨rfl, -⟩ := List.append_inj' (hscan.symm.trans hplace) rfl
  exact ⟨tokens, last, hscan, hlast, hends, hwords⟩

/-- The tokens of a text with a tree are those that its forms are built of, and the end. -/
theorem exists_spells_of_parse {source : Bytes} {text : List Char} {root : Root}
    (h : Root.parse source text = .ok root) :
    ∃ tokens last, Token.scan source text = tokens ++ [last] ∧ last.kind = .eof ∧ Spells root.forms tokens ∧
      tokens.map Token.word = words text ∧ ∀ t ∈ tokens, t.kind.Has t.literal := by
  obtain ⟨tokens, last, hscan, hlast, hends, hwords⟩ := exists_scan_eq source text
  have hforms := formsFrom_of_parse h
  rw [hscan] at hforms
  have hstart : Seen [] [] [] := .outermost .nil
  have hspells := hstart.spells_of_formsFrom hends hlast hforms
  refine ⟨tokens, last, hscan, hlast, hspells, hwords, fun t ht => ?_⟩
  have hmem : t ∈ Token.scan source text := hscan ▸ List.mem_append_left [last] ht
  exact (lexed_scan source text).has t hmem (hspells.kind_ne_illegal t ht) (hends t ht)

/-! ## The values of words -/

/--
Words mean values: numbers, strings and symbols what their literals do, comments nothing, and words between two
delimiters a list of what they mean.
-/
inductive Means : List Word → List Value → Prop where
  | nil : Means [] []
  | number (literal : List Char) {words : List Word} {values : List Value} (rest : Means words values) :
      Means (⟨.number, literal⟩ :: words) (readNumber literal :: values)
  | string (literal : List Char) {words : List Word} {values : List Value} (rest : Means words values) :
      Means (⟨.string, literal⟩ :: words) (readString literal :: values)
  | symbol (literal : List Char) {words : List Word} {values : List Value} (rest : Means words values) :
      Means (⟨.symbol, literal⟩ :: words) (.symbol (Utf8.encode literal) :: values)
  | comment (literal : List Char) {words : List Word} {values : List Value} (rest : Means words values) :
      Means (⟨.comment, literal⟩ :: words) values
  | list (d : Delimiter) (opener closer : List Char) {inside words : List Word} {cells values : List Value}
      (inner : Means inside cells) (rest : Means words values) :
      Means (⟨.opening d, opener⟩ :: (inside ++ ⟨.closing d, closer⟩ :: words)) (d.list cells :: values)

namespace Means

variable {words more : List Word} {values others : List Value}

/-- Words after one another mean the values of both. -/
theorem append (h : Means words values) (h' : Means more others) : Means (words ++ more) (values ++ others) := by
  induction h with
  | nil => exact h'
  | number literal _ ih => exact .number literal ih
  | string literal _ ih => exact .string literal ih
  | symbol literal _ ih => exact .symbol literal ih
  | comment literal _ ih => exact .comment literal ih
  | list d opener closer hinner _ _ ih =>
      rw [List.cons_append, List.append_assoc, List.cons_append, List.cons_append]
      exact .list d opener closer hinner ih

/-- Words that mean something are legal. -/
theorem kind_ne_illegal (h : Means words values) : ∀ w ∈ words, w.kind ≠ .illegal := by
  induction h with
  | nil => exact List.forall_mem_nil _
  | number literal _ ih => exact List.forall_mem_cons.mpr ⟨Kind.noConfusion, ih⟩
  | string literal _ ih => exact List.forall_mem_cons.mpr ⟨Kind.noConfusion, ih⟩
  | symbol literal _ ih => exact List.forall_mem_cons.mpr ⟨Kind.noConfusion, ih⟩
  | comment literal _ ih => exact List.forall_mem_cons.mpr ⟨Kind.noConfusion, ih⟩
  | list d opener closer _ _ ihinner ihrest =>
      refine List.forall_mem_cons.mpr ⟨Kind.noConfusion, List.forall_mem_append.mpr ⟨ihinner, ?_⟩⟩
      exact List.forall_mem_cons.mpr ⟨Kind.noConfusion, ihrest⟩

end Means

/-- The tokens of nodes mean the values that are read from the nodes. -/
theorem Spells.means {nodes : List Node} {tokens : List Token} (h : Spells nodes tokens) :
    Means (tokens.map Token.word) (Node.readAll nodes) := by
  induction h with
  | nil => exact .nil
  | @atom t node nodes tokens hatom _ ih =>
      rw [List.map_cons, Token.word]
      cases hatom with
      | number kind => exact kind ▸ .number t.literal ih
      | string kind => exact kind ▸ .string t.literal ih
      | symbol kind => exact kind ▸ .symbol t.literal ih
      | comment kind => exact kind ▸ .comment t.literal ih
  | @list d opener closer cells nodes inside tokens hopening hclosing _ _ ihinner ihrest =>
      rw [List.map_cons, List.map_append, List.map_cons, Token.word, Token.word, hopening, hclosing]
      exact .list d opener.literal closer.literal ihinner ihrest

/-- Tokens with words that mean values are those of nodes with these values. -/
theorem Means.exists_spells {words : List Word} {values : List Value} (h : Means words values)
    {tokens : List Token} (hwords : tokens.map Token.word = words) :
    ∃ nodes, Spells nodes tokens ∧ Node.readAll nodes = values := by
  induction h generalizing tokens with
  | nil =>
      obtain rfl := List.map_eq_nil_iff.mp hwords
      exact ⟨[], .nil, rfl⟩
  | number literal _ ih =>
      obtain ⟨t, tokens, rfl, ht, hrest⟩ := List.map_eq_cons_iff.mp hwords
      obtain ⟨hkind, rfl⟩ := Word.mk.inj ht
      obtain ⟨nodes, hspells, rfl⟩ := ih hrest
      exact ⟨.number t :: nodes, .atom (.number hkind) hspells, rfl⟩
  | string literal _ ih =>
      obtain ⟨t, tokens, rfl, ht, hrest⟩ := List.map_eq_cons_iff.mp hwords
      obtain ⟨hkind, rfl⟩ := Word.mk.inj ht
      obtain ⟨nodes, hspells, rfl⟩ := ih hrest
      exact ⟨.string t :: nodes, .atom (.string hkind) hspells, rfl⟩
  | symbol literal _ ih =>
      obtain ⟨t, tokens, rfl, ht, hrest⟩ := List.map_eq_cons_iff.mp hwords
      obtain ⟨hkind, rfl⟩ := Word.mk.inj ht
      obtain ⟨nodes, hspells, rfl⟩ := ih hrest
      exact ⟨.symbol t :: nodes, .atom (.symbol hkind) hspells, rfl⟩
  | comment literal _ ih =>
      obtain ⟨t, tokens, rfl, ht, hrest⟩ := List.map_eq_cons_iff.mp hwords
      obtain ⟨hkind, rfl⟩ := Word.mk.inj ht
      obtain ⟨nodes, hspells, rfl⟩ := ih hrest
      exact ⟨.comment t :: nodes, .atom (.comment hkind) hspells, rfl⟩
  | list d opener closer _ _ ihinner ihrest =>
      obtain ⟨first, tokens, rfl, hfirst, hrest⟩ := List.map_eq_cons_iff.mp hwords
      obtain ⟨inside, tokens, rfl, hinside, hrest⟩ := List.map_eq_append_iff.mp hrest
      obtain ⟨last, tokens, rfl, hlast, hrest⟩ := List.map_eq_cons_iff.mp hrest
      obtain ⟨hopening, -⟩ := Word.mk.inj hfirst
      obtain ⟨hclosing, -⟩ := Word.mk.inj hlast
      obtain ⟨cells, hcells, rfl⟩ := ihinner hinside
      obtain ⟨nodes, hnodes, rfl⟩ := ihrest hrest
      exact ⟨.list d first cells :: nodes, .list hopening hclosing hcells hnodes, rfl⟩

/-- A text is parsed, and read as some values, just when its words mean them. -/
theorem exists_parse_iff_means {source : Bytes} {text : List Char} {values : List Value} :
    (∃ root, Root.parse source text = .ok root ∧ root.program = values) ↔ Means (words text) values := by
  constructor
  · rintro ⟨root, hroot, rfl⟩
    obtain ⟨tokens, last, -, -, hspells, hwords, -⟩ := exists_spells_of_parse hroot
    rw [← hwords]
    exact hspells.means
  · intro hmeans
    obtain ⟨tokens, last, hscan, hlast, -, hwords⟩ := exists_scan_eq source text
    obtain ⟨nodes, hspells, hvalues⟩ := hmeans.exists_spells hwords
    have hforms := hspells.formsFrom_append [] [] [last]
    simp only [formsFrom, hlast, List.append_nil, List.reverse_reverse] at hforms
    refine ⟨⟨(Token.scan source text).headD (Token.atEnd source .start), nodes⟩, ?_, hvalues⟩
    rw [Root.parse, ofTokens, hscan, hforms]
    rfl

end BraceLisp.Source
