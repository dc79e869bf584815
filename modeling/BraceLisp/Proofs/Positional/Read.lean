import BraceLisp.Positional.Read
import BraceLisp.Proofs.Positional.Operation
import BraceLisp.Proofs.Positional.Print
import BraceLisp.Proofs.Source.Forms
import BraceLisp.Proofs.Source.Scan

/-!
# Reading never breaks down

Every tree that a text has can be read: its string literals have the quotes that are cut off them, and comments
are passed over wherever values are read.
-/

namespace BraceLisp.Positional

open Source

/-! ## Escapes -/

theorem slice_append_length (first middle rest : Bytes) :
    slice (first ++ middle ++ rest) first.length (first.length + middle.length) = .ok middle := by
  have hin : (0 : Int) ≤ first.length ∧ (first.length : Int) ≤ first.length + middle.length ∧
      (first.length + middle.length : Int) ≤ (first ++ middle ++ rest).length := by
    simp only [List.length_append]
    omega
  have hhigh : ((first.length : Int) + middle.length).toNat = (first ++ middle).length := by
    rw [List.length_append]
    omega
  rw [slice, if_pos hin, hhigh, Int.toNat_natCast, List.take_left, List.drop_left]

theorem unescapeFrom_length (s : Bytes) : unescapeFrom s s.length = .ok [] := by
  rw [unescapeFrom, if_neg (Nat.lt_irrefl _)]
  rfl

/-- A byte that starts no escape stands for itself. -/
theorem unescapeFrom_plain {done rest text : Bytes} {b : UInt8} (hplain : b ≠ Escape.backslash ∨ rest = [])
    (hrest : unescapeFrom (done ++ [b] ++ rest) (done ++ [b]).length = .ok text) :
    unescapeFrom (done ++ b :: rest) done.length = .ok (b :: text) := by
  have hlt : done.length < (done ++ b :: rest).length := by simp
  have hends : b ≠ Escape.backslash ∨ done.length + 1 = (done ++ b :: rest).length := by
    rcases hplain with hb | rfl
    · exact .inl hb
    · exact .inr (by simp)
  rw [List.append_assoc, List.singleton_append, List.length_append, List.length_singleton] at hrest
  rw [unescapeFrom, if_pos hlt, entry_append_length]
  change (if b ≠ Escape.backslash ∨ done.length + 1 = (done ++ b :: rest).length then _ else _) = _
  rw [if_pos hends, hrest]
  rfl

theorem resolve?_eq (m : UInt8) : resolve? [Escape.backslash, m] = .ok (Escape.marked? m) := by
  have hforms : escapedForms = Escape.table.map fun row => [Escape.backslash, UInt8.ofNat row.2.toNat] := by
    decide +kernel
  have hpair (b : UInt8) : ([Escape.backslash, b] == [Escape.backslash, m]) = (b == m) := by simp
  rw [resolve?, hforms, escapedChars_eq, lookup?_map]
  simp only [hpair]
  change Except.ok (((Escape.table.find? _).map Prod.fst).map fun c => UInt8.ofNat c.toNat) = _
  rw [Option.map_map]
  rfl

/-- A backslash and the byte behind it are cut out together. -/
theorem unescapeFrom_pair (done rest : Bytes) (m : UInt8) :
    unescapeFrom (done ++ Escape.backslash :: m :: rest) done.length =
      match Escape.marked? m with
      | some c => (unescapeFrom (done ++ Escape.backslash :: m :: rest) (done.length + 2)).map (c :: ·)
      | none =>
          (unescapeFrom (done ++ Escape.backslash :: m :: rest) (done.length + 1)).map (Escape.backslash :: ·) := by
  have hlt : done.length < (done ++ Escape.backslash :: m :: rest).length := by simp
  have hmore : ¬ (Escape.backslash ≠ Escape.backslash ∨
      done.length + 1 = (done ++ Escape.backslash :: m :: rest).length) := by simp
  have hpair : slice (done ++ Escape.backslash :: m :: rest) done.length (done.length + 2) =
      .ok [Escape.backslash, m] := by
    have h := slice_append_length done [Escape.backslash, m] rest
    rwa [List.append_assoc] at h
  rw [unescapeFrom, if_pos hlt, entry_append_length]
  change (if Escape.backslash ≠ Escape.backslash ∨ _ then _ else _) = _
  rw [if_neg hmore, hpair]
  change (resolve? [Escape.backslash, m] >>= _) = _
  rw [resolve?_eq]
  cases Escape.marked? m with
  | some c => rfl
  | none => rfl

theorem unescapeFrom_eq (done rest : Bytes) :
    unescapeFrom (done ++ rest) done.length = .ok (Escape.unescape rest) := by
  fun_induction Escape.unescape rest generalizing done with
  | case1 =>
      rw [List.append_nil]
      exact unescapeFrom_length done
  | case2 b =>
      refine unescapeFrom_plain (.inr rfl) ?_
      rw [List.append_nil]
      exact unescapeFrom_length _
  | case3 m rest c hmarked ih =>
      have hrest := ih (done ++ [Escape.backslash, m])
      rw [List.append_assoc, List.length_append] at hrest
      rw [unescapeFrom_pair, hmarked]
      exact congrArg (Except.map (c :: ·)) hrest
  | case4 m rest hmarked ih =>
      have hrest := ih (done ++ [Escape.backslash])
      rw [List.append_assoc, List.length_append] at hrest
      rw [unescapeFrom_pair, hmarked]
      exact congrArg (Except.map (Escape.backslash :: ·)) hrest
  | case5 b m rest hb ih => exact unescapeFrom_plain (.inl hb) (ih (done ++ [b]))

/-! ## Literals -/

theorem readNumber_eq (literal : List Char) : readNumber literal = .ok (Source.readNumber literal) := by
  unfold readNumber Source.readNumber
  cases Number.ofInt? (Decimal.toInt literal) with
  | some n => rfl
  | none => exact raise_eq (.badNumber (.text (Utf8.encode literal)))

theorem readString_eq {literal : List Char} (h : Kind.string.Has literal) :
    readString literal = .ok (Source.readString literal) := by
  obtain ⟨body, -, rfl⟩ := h
  have hencode : Utf8.encode ('"' :: (body ++ ['"'])) =
      Utf8.encode ['"'] ++ Utf8.encode body ++ Utf8.encode ['"'] := by
    simp [Utf8.encode]
  have hlength : ((Utf8.encode ('"' :: (body ++ ['"']))).length : Int) - 1 =
      (Utf8.encode ['"']).length + (Utf8.encode body).length := by
    have hquote : (Utf8.encode ['"']).length = 1 := rfl
    rw [hencode, List.length_append, List.length_append, hquote]
    omega
  have hinner : slice (Utf8.encode ('"' :: (body ++ ['"']))) 1
      ((Utf8.encode ('"' :: (body ++ ['"']))).length - 1) = .ok (Utf8.encode body) := by
    rw [hlength, hencode]
    exact slice_append_length (Utf8.encode ['"']) (Utf8.encode body) (Utf8.encode ['"'])
  have htext : unescapeFrom (Utf8.encode body) 0 = .ok (Escape.unescape (Utf8.encode body)) :=
    unescapeFrom_eq [] (Utf8.encode body)
  have hbody : ('"' :: (body ++ ['"'])).tail.dropLast = body := List.dropLast_concat
  rw [readString, Source.readString, hbody]
  change (slice _ 1 _ >>= fun inner => unescapeFrom inner 0 >>= fun text => pure (Value.string text)) = _
  rw [hinner]
  change (unescapeFrom (Utf8.encode body) 0 >>= fun text => pure (Value.string text)) = _
  rw [htext]
  rfl

/-- A literal without quotes has nothing between them to be cut out. -/
example : readString [] = .error .outOfRange := rfl

/-! ## Trees -/

/-- Wherever a node has a value, reading it by position gives that value. -/
def Readable (node : Node) : Prop :=
  ∀ v, node.read? = some v → read node = .ok v

theorem readCells_eq {nodes : List Node} (h : ∀ node ∈ nodes, Readable node) :
    readCells nodes = .ok (Node.readAll nodes) := by
  induction nodes with
  | nil => rfl
  | cons node rest ih =>
      obtain ⟨hnode, hrest⟩ := List.forall_mem_cons.mp h
      have hcells := ih hrest
      cases node with
      | comment t =>
          rw [readCells, Node.readAll]
          exact hcells
      | _ =>
          rw [readCells, hnode _ rfl, hcells]
          rfl

theorem readable_list (d : Delimiter) (t : Token) {cells : List Node} (h : ∀ cell ∈ cells, Readable cell) :
    Readable (.list d t cells) := by
  intro v hv
  obtain rfl := Option.some.inj hv
  rw [read, readCells_eq h]
  rfl

theorem readable_atom {t : Token} (hstring : t.kind = .string → Kind.string.Has t.literal) {node : Node}
    (hatom : node.AtomOf t) : Readable node := by
  intro v hv
  cases hatom with
  | number kind =>
      obtain rfl := Option.some.inj hv
      exact readNumber_eq t.literal
  | string kind =>
      obtain rfl := Option.some.inj hv
      exact readString_eq (hstring kind)
  | symbol kind =>
      obtain rfl := Option.some.inj hv
      rfl
  | comment kind => cases hv

/-- The tree of a text can be read. -/
theorem readCells_of_parse {source : Bytes} {text : List Char} {root : Root}
    (h : Root.parse source text = .ok root) : readCells root.forms = .ok root.program := by
  have hhas := (lexed_scan source text).has
  have hatoms : ∀ t ∈ Token.scan source text, ∀ node : Node, node.AtomOf t → Readable node := by
    intro t ht node hnode
    refine readable_atom (fun hkind => ?_) hnode
    have hliteral := hhas t ht (by simp [hkind]) (by simp [hkind])
    rwa [hkind] at hliteral
  exact readCells_eq (forall_mem_formsFrom (fun d t cells => readable_list d t) hatoms (List.forall_mem_nil _)
    (List.forall_mem_nil _) (formsFrom_of_parse h))

end BraceLisp.Positional
