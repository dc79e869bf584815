import BraceLisp.Positional.Basic
import BraceLisp.Source.Cursor
import BraceLisp.Source.Piece

/-!
# Cutting a text by position

Tokens read from a text one character at a time, each character found at its position. What is left of the text
behind the position is what a cursor has in front of it.
-/

namespace BraceLisp.Positional

open Source CharClass

/-- A text with a position in it, the line there, and the position where that line starts. -/
structure Supplier where
  code : List Char
  pos : Nat
  line : Nat
  lineStart : Nat
  lineStart_le : lineStart ≤ pos

namespace Supplier

def ofText (code : List Char) : Supplier := ⟨code, 0, 1, 0, Nat.le_refl 0⟩

def cursor (s : Supplier) : Cursor := ⟨s.code.drop s.pos, ⟨s.line, s.pos - s.lineStart⟩⟩

def atEnd (s : Supplier) : Bool := s.code.length ≤ s.pos

/-- The character at the position, or NUL at the end. -/
def current (s : Supplier) : Except Breakdown Char :=
  if s.pos < s.code.length then entry s.code s.pos else return '\x00'

def peek (s : Supplier) : Except Breakdown Char :=
  if s.pos + 1 < s.code.length then entry s.code (s.pos + 1) else return '\x00'

def next (s : Supplier) : Except Breakdown Supplier :=
  if s.code.length ≤ s.pos then return s
  else do
    let c ← entry s.code s.pos
    if c = '\n' then return ⟨s.code, s.pos + 1, s.line + 1, s.pos + 1, Nat.le_refl _⟩
    else return ⟨s.code, s.pos + 1, s.line, s.lineStart, Nat.le_succ_of_le s.lineStart_le⟩

/-! ## What a cursor shows -/

variable {s t : Supplier} {c : Char} {rest : List Char}

theorem entry_eq {i : Nat} (h : s.code.drop i = c :: rest) : entry s.code i = .ok c := by
  have hget : s.code[i]? = some c := by
    rw [← List.head?_drop, h]
    rfl
  rw [entry, hget]

theorem lt_length_of_drop {i : Nat} (h : s.code.drop i = c :: rest) : i < s.code.length :=
  Nat.lt_of_not_le fun hle => List.cons_ne_nil c rest (h.symm.trans (List.drop_eq_nil_of_le hle))

theorem drop_succ (h : s.cursor.rest = c :: rest) : s.code.drop (s.pos + 1) = rest := by
  rw [← List.tail_drop]
  exact congrArg List.tail h

theorem atEnd_iff : s.atEnd ↔ s.cursor.rest = [] := by
  rw [atEnd, decide_eq_true_iff]
  exact List.drop_eq_nil_iff.symm

theorem not_atEnd (h : s.cursor.rest = c :: rest) : ¬ s.atEnd :=
  mt atEnd_iff.mp (h ▸ List.cons_ne_nil c rest)

theorem current_eq (h : s.cursor.rest = c :: rest) : s.current = .ok c := by
  rw [current, if_pos (lt_length_of_drop h), entry_eq h]

theorem peek_eq (h : s.cursor.rest = c :: rest) : s.peek = .ok (rest.headD '\x00') := by
  have hrest := drop_succ h
  cases rest with
  | nil =>
      rw [peek, if_neg (Nat.not_lt.mpr (List.drop_eq_nil_iff.mp hrest))]
      rfl
  | cons d more =>
      rw [peek, if_pos (lt_length_of_drop hrest), entry_eq hrest]
      rfl

/-- The next position is what the cursor shows next, with the rest of the text behind it. -/
theorem next_eq (h : s.cursor.rest = c :: rest) :
    ∃ t, s.next = .ok t ∧ t.cursor = s.cursor.next ∧ t.cursor.rest = rest := by
  have hrest := drop_succ h
  have hnext : s.cursor.next = ⟨rest, s.cursor.position.next c⟩ := by
    rw [Cursor.next, h]
  have hread : s.next = (if c = '\n' then .ok ⟨s.code, s.pos + 1, s.line + 1, s.pos + 1, Nat.le_refl _⟩
      else .ok ⟨s.code, s.pos + 1, s.line, s.lineStart, Nat.le_succ_of_le s.lineStart_le⟩) := by
    rw [next, if_neg (Nat.not_le.mpr (lt_length_of_drop h)), entry_eq h]
    rfl
  rw [hread, hnext]
  by_cases hc : c = '\n'
  · rw [if_pos hc]
    refine ⟨_, rfl, ?_, hrest⟩
    simp only [cursor, Position.next, hc, if_true, hrest, Nat.sub_self]
  · rw [if_neg hc]
    refine ⟨_, rfl, ?_, hrest⟩
    simp only [cursor, Position.next, hc, if_false, hrest, Nat.sub_add_comm s.lineStart_le]

theorem length_rest_lt (hend : ¬ s.atEnd) (hnext : s.next = .ok t) :
    t.cursor.rest.length < s.cursor.rest.length := by
  obtain ⟨c, rest, hrest⟩ := List.exists_cons_of_ne_nil (mt atEnd_iff.mpr hend)
  obtain ⟨t', hnext', -, ht⟩ := next_eq hrest
  obtain rfl := Except.ok.inj (hnext.symm.trans hnext')
  rw [ht, hrest]
  exact Nat.lt_succ_self _

/-! ## Runs -/

def takeRun (isMember : Char → Bool) (s : Supplier) : Except Breakdown (List Char × Supplier) :=
  if _hend : s.atEnd then return ([], s)
  else do
    let c ← s.current
    if isMember c then
      match _hnext : s.next with
      | .error b => .error b
      | .ok t =>
          let (run, u) ← takeRun isMember t
          return (c :: run, u)
    else return ([], s)
termination_by s.cursor.rest.length
decreasing_by exact length_rest_lt _hend _hnext

def takeString (s : Supplier) : Except Breakdown (Option (List Char) × Supplier) :=
  if _hend : s.atEnd then return (none, s)
  else do
    let c ← s.current
    match _hnext : s.next with
    | .error b => .error b
    | .ok t =>
        if c = '\\' then
          if _hend' : t.atEnd then return (none, t)
          else
            let d ← t.current
            match _hnext' : t.next with
            | .error b => .error b
            | .ok u =>
                let (tail, v) ← takeString u
                return (tail.map (c :: d :: ·), v)
        else if c = '"' then return (some [c], t)
        else
          let (tail, u) ← takeString t
          return (tail.map (c :: ·), u)
termination_by s.cursor.rest.length
decreasing_by
  · exact Nat.lt_trans (length_rest_lt _hend' _hnext') (length_rest_lt _hend _hnext)
  · exact length_rest_lt _hend _hnext

/-! ## Tokens -/

def takeNumber (c : Char) (s : Supplier) : Except Breakdown (List Char × Supplier) :=
  if c = '-' then do
    let t ← s.next
    let (digits, u) ← t.takeRun isDigit
    return (c :: digits, u)
  else s.takeRun isDigit

def takeQuoted (s : Supplier) : Except Breakdown (Kind × List Char × Supplier) := do
  let t ← s.next
  let (tail, u) ← t.takeString
  match tail with
  | some tail => return (.string, '"' :: tail, u)
  | none => return (.illegal, "unterminated string".toList, u)

def takeWord (c : Char) (s : Supplier) : Except Breakdown (Kind × List Char × Supplier) := do
  let d ← s.peek
  if isDigit c || (c == '-' && isDigit d) then
    let (text, t) ← s.takeNumber c
    return (.number, text, t)
  else if isSymbolChar c then
    let (text, t) ← s.takeRun isSymbolChar
    return (.symbol, text, t)
  else
    let t ← s.next
    return (.illegal, "unexpected character ".toList ++ Quoted.char c, t)

/-- What starts with a given character: its kind and its literal, and the position behind it. -/
def lexeme (c : Char) (s : Supplier) : Except Breakdown (Kind × List Char × Supplier) :=
  match Piece.delimiterKind? c with
  | some kind => do
      let t ← s.next
      return (kind, [c], t)
  | none =>
      if c = ';' then do
        let (text, t) ← s.takeRun fun d => !isLineEnd d
        return (.comment, text, t)
      else if c = '"' then s.takeQuoted
      else s.takeWord c

def nextToken (source : Bytes) (s : Supplier) : Except Breakdown (Token × Supplier) := do
  let (_, first) ← s.takeRun isBlank
  let start := first.cursor.position
  if first.atEnd then return (⟨.eof, [], start.line, start.column, start.column, source⟩, first)
  else
    let c ← first.current
    let (kind, literal, last) ← first.lexeme c
    return (⟨kind, literal, start.line, start.column, last.cursor.position.column, source⟩, last)

end Supplier

end BraceLisp.Positional
