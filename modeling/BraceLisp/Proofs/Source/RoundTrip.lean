import BraceLisp.Proofs.Source.Forms
import BraceLisp.Proofs.Source.Lexemes
import BraceLisp.Proofs.Value.Part
import BraceLisp.Session.Basic

/-!
# Printing and reading

A readable value is one that can be written in source text: a number, a string of characters, a symbol with a
name that is cut as a symbol, and lists of readable values. What is printed of it is a text that reads back as
the value. In the other direction, all that is read from a text is readable, except for the errors that stand in
the places of numbers out of range, and for the lists around them.

The two sides meet in the pieces of a value: they are what its printed form is cut into, and they denote it.
-/

namespace BraceLisp

open Source

namespace Value

/-! ## Readable values -/

mutual

/-- Whether a value can be written in source text. -/
def isReadable : Value → Bool
  | .number _ => true
  | .string s => Utf8.isValid s
  | .symbol name => Utf8.isValid name && Piece.isSymbolName (Utf8.decode name)
  | .sexpr cells => areReadable cells
  | .qexpr cells => areReadable cells
  | _ => false

def areReadable : List Value → Bool
  | [] => true
  | v :: rest => isReadable v && areReadable rest

end

theorem areReadable_iff {values : List Value} : areReadable values ↔ ∀ v ∈ values, v.isReadable := by
  induction values with
  | nil => exact ⟨fun _ => List.forall_mem_nil _, fun _ => rfl⟩
  | cons v rest ih => rw [areReadable, Bool.and_eq_true, ih, List.forall_mem_cons]

end Value

/-! ## From values to text -/

/--
A text is that of some pieces and is cut into them in front of whatever cannot extend it, and the pieces denote
some values. If there are values, the text does not start with a blank.
-/
structure Written (text : Bytes) (values : List Value) (pieces : List Piece) : Prop where
  encoded : text = Utf8.encode (pieces.flatMap Piece.text)
  cut : ∀ rest, Piece.Stops rest → Piece.cut (pieces.flatMap Piece.text ++ rest) = pieces ++ Piece.cut rest
  start : values ≠ [] → ∃ c more, pieces.flatMap Piece.text = c :: more ∧ CharClass.isBlank c = false
  denotes : Denotes pieces values

namespace Written

theorem nil : Written [] [] [] :=
  ⟨rfl, fun _ _ => rfl, fun h => absurd rfl h, denotes_nil⟩

theorem number {text : List Char} (h : Piece.isNumeral text) :
    Written (Utf8.encode text) [readNumber text] [.lexeme .number text] := by
  refine ⟨by simp [Piece.text], fun rest hrest => ?_, fun _ => ?_, denotes_number text⟩
  · simpa [Piece.text] using Piece.cut_numeral h hrest
  · cases text with
    | nil => cases h
    | cons c rest =>
        have hc := Piece.isSymbolChar_of_startsNumber ((Bool.and_eq_true _ _).mp h).1
        exact ⟨c, rest, by simp [Piece.text], Piece.isBlank_of_isSymbolChar hc⟩

theorem symbol {text : List Char} (h : Piece.isSymbolName text) :
    Written (Utf8.encode text) [.symbol (Utf8.encode text)] [.lexeme .symbol text] := by
  refine ⟨by simp [Piece.text], fun rest hrest => ?_, fun _ => ?_, denotes_symbol text⟩
  · simpa [Piece.text] using Piece.cut_symbolName h hrest
  · cases text with
    | nil => cases h
    | cons c rest =>
        have hc := ((Bool.and_eq_true _ _).mp ((Bool.and_eq_true _ _).mp h).1).1
        exact ⟨c, rest, by simp [Piece.text], Piece.isBlank_of_isSymbolChar hc⟩

/-- A text between quotes is read as that text. -/
theorem readString_escape (text : List Char) :
    readString ('"' :: (text.flatMap Escape.escapeChar ++ ['"'])) = .string (Utf8.encode text) := by
  rw [readString, List.tail_cons, List.dropLast_concat, Escape.unescape_encode, Escape.unescapeChars_escape]

theorem string (text : List Char) :
    Written (Value.quote (Utf8.encode text)) [.string (Utf8.encode text)]
      [.lexeme .string ('"' :: (text.flatMap Escape.escapeChar ++ ['"']))] := by
  refine ⟨?_, fun rest _ => ?_, fun _ => ?_, ?_⟩
  · rw [Value.quote, Escape.escape, Utf8.decode_encode]
    simp [Piece.text, Bytes.of, Utf8.encode]
  · simpa [Piece.text] using Piece.cut_string text rest
  · exact ⟨'"', text.flatMap Escape.escapeChar ++ ['"'], by simp [Piece.text], by decide⟩
  · rw [← readString_escape]
    exact denotes_string _

/-- A value, and more of them after a space. -/
theorem cons {text text' : Bytes} {v : Value} {values : List Value} {pieces pieces' : List Piece}
    (hfirst : Written text [v] pieces) (hrest : Written text' values pieces') (hvalues : values ≠ []) :
    Written (text ++ Bytes.of " " ++ text') (v :: values) (pieces ++ .blanks [' '] :: pieces') := by
  obtain ⟨c, more, hstart, hblank⟩ := hfirst.start (List.cons_ne_nil _ _)
  obtain ⟨d, more', hstart', hblank'⟩ := hrest.start hvalues
  refine ⟨?_, fun rest hstops => ?_, fun _ => ?_, ?_⟩
  · rw [hfirst.encoded, hrest.encoded]
    simp [Piece.text, Bytes.of, Utf8.encode]
  · -- The space cannot extend the first text, and is a piece of its own since no blank follows it.
    have hspace := Piece.stops_cons (c := ' ') (by decide) (pieces'.flatMap Piece.text ++ rest)
    have hnext : ∀ c ∈ (pieces'.flatMap Piece.text ++ rest).head?, CharClass.isBlank c = false := by
      rw [hstart']
      intro c hc
      obtain rfl := Option.some.inj hc
      exact hblank'
    have hcut := hfirst.cut _ hspace
    rw [Piece.cut_space hnext, hrest.cut rest hstops] at hcut
    simpa [Piece.text] using hcut
  · rw [List.flatMap_append, hstart, List.cons_append]
    exact ⟨c, _, rfl, hblank⟩
  · have hblanks := (denotes_blanks [' ']).append hrest.denotes
    exact hfirst.denotes.append hblanks

theorem list {text : Bytes} {values : List Value} {pieces : List Piece} (h : Written text values pieces)
    (d : Delimiter) :
    Written (Utf8.encode [d.opener] ++ text ++ Utf8.encode [d.closer]) [d.list values]
      (.lexeme (.opening d) [d.opener] :: (pieces ++ [.lexeme (.closing d) [d.closer]])) := by
  refine ⟨?_, fun rest _ => ?_, fun _ => ⟨d.opener, _, rfl, ?_⟩, h.denotes.list d⟩
  · rw [h.encoded]
    simp [Piece.text, Utf8.encode]
  · have hcloser : Piece.Stops (d.closer :: rest) := Piece.stops_cons (by cases d <;> decide) rest
    have hcut := h.cut _ hcloser
    rw [Piece.cut_closer] at hcut
    simp [Piece.text, Piece.cut_opener, hcut]
  · cases d <;> decide

mutual

/-- A readable value is written as it is printed. -/
theorem exists_render {v : Value} (h : v.isReadable) : ∃ pieces, Written v.render [v] pieces := by
  cases v with
  | number n =>
      have hwritten := number (Piece.isNumeral_ofInt n.toInt)
      rw [readNumber, Decimal.toInt_ofInt, Number.ofInt?_toInt] at hwritten
      exact ⟨_, hwritten⟩
  | string s =>
      have hwritten := string (Utf8.decode s)
      rw [Utf8.encode_decode h] at hwritten
      exact ⟨_, hwritten⟩
  | symbol name =>
      obtain ⟨hvalid, hname⟩ := (Bool.and_eq_true _ _).mp h
      have hwritten := symbol hname
      rw [Utf8.encode_decode hvalid] at hwritten
      exact ⟨_, hwritten⟩
  | sexpr cells =>
      obtain ⟨pieces, hcells⟩ := exists_separate h
      exact ⟨_, hcells.list .paren⟩
  | qexpr cells =>
      obtain ⟨pieces, hcells⟩ := exists_separate h
      exact ⟨_, hcells.list .brace⟩
  | error kind id message => cases h
  | builtin b => cases h
  | closure formals body own entered => cases h

/-- Readable values are written as they are printed inside a list. -/
theorem exists_separate {values : List Value} (h : Value.areReadable values) :
    ∃ pieces, Written (Layout.separate (Bytes.of " ") (Value.renderAll values)) values pieces := by
  match values with
  | [] => exact ⟨[], nil⟩
  | [v] =>
      obtain ⟨hv, -⟩ := (Bool.and_eq_true _ _).mp h
      exact exists_render hv
  | v :: w :: rest =>
      obtain ⟨hv, hrest⟩ := (Bool.and_eq_true _ _).mp h
      obtain ⟨pieces, hfirst⟩ := exists_render hv
      obtain ⟨pieces', hothers⟩ := exists_separate hrest
      exact ⟨_, hfirst.cons hothers (List.cons_ne_nil _ _)⟩

end

/-- A text that is written for values is parsed into one form for each of them, and read as them. -/
theorem parse {text : Bytes} {values : List Value} {pieces : List Piece} (h : Written text values pieces)
    (source : Bytes) :
    ∃ root, Session.parse source text = .ok root ∧ root.forms.length = values.length ∧
      root.read = .sexpr values := by
  have hcut := h.cut [] fun c hc => nomatch hc
  rw [List.append_nil, show Piece.cut [] = [] from rfl, List.append_nil] at hcut
  rw [Session.parse, h.encoded, Utf8.decode_encode]
  exact Denotes.parse (hcut.symm ▸ h.denotes) source

end Written

/-! ## From text to values -/

/-- The error that stands in the place of a number out of range, which is one of the tokens. -/
def OutOfRange (tokens : List Token) (v : Value) : Prop :=
  ∃ t ∈ tokens, t.kind = .number ∧ Number.ofInt? (Decimal.toInt t.literal) = none ∧
    v = (Fault.badNumber (.text (Utf8.encode t.literal))).toValue

/-- The error of a number out of range, or a list around it, at any distance. -/
inductive Marred (tokens : List Token) : Value → Prop
  | error {v : Value} : OutOfRange tokens v → Marred tokens v
  | list (d : Delimiter) {cells : List Value} {v : Value} :
      v ∈ cells → Marred tokens v → Marred tokens (d.list cells)

def ReadableUpTo (tokens : List Token) (v : Value) : Prop :=
  v.isReadable ∨ Marred tokens v

variable {tokens : List Token}

/-- A list of such values is such a value, and all its parts are. -/
theorem every_readableUpTo_list {values : List Value} (h : ∀ v ∈ values, v.Every (ReadableUpTo tokens))
    (d : Delimiter) : (d.list values).Every (ReadableUpTo tokens) := by
  have hcomponents : (d.list values).components = values := by cases d <;> rfl
  have hreadable (hvalues : Value.areReadable values) : (d.list values).isReadable := by cases d <;> exact hvalues
  rw [Value.every_iff, hcomponents]
  refine ⟨?_, h⟩
  by_cases hall : Value.areReadable values
  · exact .inl (hreadable hall)
  · simp only [Value.areReadable_iff, Classical.not_forall] at hall
    obtain ⟨v, hv, hunreadable⟩ := hall
    have hmarred := (h v hv).self.resolve_left hunreadable
    exact .inr (.list d hv hmarred)

theorem every_readableUpTo_atom {v : Value} (hv : v.components = [])
    (h : v.isReadable ∨ OutOfRange tokens v) : v.Every (ReadableUpTo tokens) := by
  refine Value.every_of_components_eq_nil hv ?_
  rcases h with hreadable | hrange
  · exact .inl hreadable
  · exact .inr (.error hrange)

/-- What is read of a node, and all its parts, is readable up to numbers out of range. -/
def Source.Node.ReadsWell (tokens : List Token) (node : Node) : Prop :=
  ∀ v ∈ node.read?, v.Every (ReadableUpTo tokens)

/-- The atoms of a text read well. -/
theorem Source.Node.AtomOf.readsWell {source : Bytes} {text : List Char} {t : Token}
    (ht : t ∈ Token.scan source text) {node : Node} (h : node.AtomOf t) :
    node.ReadsWell (Token.scan source text) := by
  rintro v hv
  cases h with
  | number kind =>
      obtain rfl := Option.some.inj hv
      unfold readNumber
      cases hrange : Number.ofInt? (Decimal.toInt t.literal) with
      | some n => exact every_readableUpTo_atom rfl (.inl rfl)
      | none => exact every_readableUpTo_atom rfl (.inr ⟨t, ht, kind, hrange, rfl⟩)
  | string kind =>
      obtain rfl := Option.some.inj hv
      refine every_readableUpTo_atom rfl (.inl ?_)
      rw [readString, Value.isReadable, Escape.unescape_encode]
      exact Utf8.isValid_encode _
  | symbol kind =>
      obtain rfl := Option.some.inj hv
      refine every_readableUpTo_atom rfl (.inl ?_)
      rw [Value.isReadable, Utf8.decode_encode, Utf8.isValid_encode, Token.isSymbolName_literal ht kind]
      rfl
  | comment kind => cases hv

theorem Source.Node.every_of_mem_readAll {nodes : List Node} (h : ∀ node ∈ nodes, node.ReadsWell tokens) :
    ∀ v ∈ readAll nodes, v.Every (ReadableUpTo tokens) := by
  induction nodes with
  | nil => exact List.forall_mem_nil _
  | cons node rest ih =>
      obtain ⟨hnode, hrest⟩ := List.forall_mem_cons.mp h
      rw [readAll]
      cases hread : node.read? with
      | none => exact ih hrest
      | some v => exact List.forall_mem_cons.mpr ⟨hnode v hread, ih hrest⟩

/-- All that is read of a text is readable up to numbers out of range. -/
theorem every_readableUpTo_read {source text : Bytes} {root : Root} (h : Session.parse source text = .ok root) :
    root.read.Every (ReadableUpTo (Token.scan source (Utf8.decode text))) := by
  have hforms : ∀ node ∈ root.forms, node.ReadsWell (Token.scan source (Utf8.decode text)) := by
    refine forall_mem_formsFrom ?_ ?_ (List.forall_mem_nil _) (List.forall_mem_nil _) (formsFrom_of_parse h)
    · intro d t cells hcells v hv
      obtain rfl := Option.some.inj hv
      exact every_readableUpTo_list (Node.every_of_mem_readAll hcells) d
    · exact fun t ht node hatom => hatom.readsWell ht
  exact every_readableUpTo_list (Node.every_of_mem_readAll hforms) .paren

/-! ## Both directions -/

/--
What is printed of a readable value is parsed into a single form, and read as the value. All that is read of any
text, at any depth, is readable, or is the error of a number in the text that is out of range, or a list around it.
-/
theorem print_and_read_inverse (source : Bytes) :
    (∀ v : Value, v.isReadable → ∃ root, Session.parse source v.render = .ok root ∧ root.forms.length = 1 ∧
      root.read = .sexpr [v]) ∧
    ∀ text root, Session.parse source text = .ok root →
      ∀ x, Value.Part x root.read →
        x.isReadable ∨ Marred (Token.scan source (Utf8.decode text)) x := by
  constructor
  · intro v hv
    obtain ⟨pieces, hwritten⟩ := Written.exists_render hv
    exact hwritten.parse source
  · intro text root h x hx
    exact every_readableUpTo_read h x hx

/-- The least number, a string of characters that are all escaped, and symbols that look like other things. -/
theorem print_and_read_inverse_extremes :
    (∃ root, Session.parse []
        (Value.sexpr [.number (-9223372036854775808), .string (Bytes.of "\"\\\n\x00"),
          .qexpr [.symbol (Bytes.of "-"), .symbol (Bytes.of "\\n"), .sexpr []]]).render = .ok root ∧
      root.forms.length = 1 ∧
      root.read = .sexpr [.sexpr [.number (-9223372036854775808), .string (Bytes.of "\"\\\n\x00"),
        .qexpr [.symbol (Bytes.of "-"), .symbol (Bytes.of "\\n"), .sexpr []]]]) ∧
    ∃ root, Session.parse [] (Bytes.of "9223372036854775808") = .ok root ∧
      ∀ x, Value.Part x root.read →
        x.isReadable ∨ Marred (Token.scan [] (Utf8.decode (Bytes.of "9223372036854775808"))) x := by
  refine ⟨(print_and_read_inverse []).1 _ (by decide +kernel), ?_⟩
  have hparses : (Session.parse [] (Bytes.of "9223372036854775808")).toOption.isSome := by decide +kernel
  cases hparse : Session.parse [] (Bytes.of "9223372036854775808") with
  | error e =>
      rw [hparse] at hparses
      cases hparses
  | ok root => exact ⟨root, rfl, (print_and_read_inverse []).2 _ root hparse⟩

end BraceLisp
