import BraceLisp.Fault.Basic

/-!
# Lists by position

The language once more, with arguments and cells taken by their positions, texts cut at positions, and errors made
from the names of entries of the catalogue and lists of particulars. All of this can break down, where the
functions that run cannot: a list can be too short, a name can be missing from the catalogue, a particular can be
missing from a message.
-/

namespace BraceLisp.Positional

/--
What must never happen, whatever a program does: a position outside of what it refers to, a text repeated a negative
number of times, a comment read as a value, the formals of what is no function, or an error that is not catalogued or
lacks a particular.
-/
inductive Breakdown where
  | outOfRange
  | negativeCount
  | commentRead
  | notCallable
  | unknownError (name : Bytes)
  | badParticulars (id : FaultId)
  deriving DecidableEq, Repr

/-! ## Positions -/

def entry {α : Type} (entries : List α) (i : Nat) : Except Breakdown α :=
  match entries[i]? with
  | some x => .ok x
  | none => .error .outOfRange

/-- What a list has at a position that may lie in front of it. -/
def entryAt {α : Type} (entries : List α) (i : Int) : Except Breakdown α :=
  if 0 ≤ i then entry entries i.toNat else .error .outOfRange

def cell (cells : List Value) (i : Nat) : Except Breakdown Value := entry cells i

def pop (cells : List Value) (i : Nat) : Except Breakdown (Value × List Value) :=
  (cell cells i).map fun v => (v, cells.eraseIdx i)

def slice (s : Bytes) (low high : Int) : Except Breakdown Bytes :=
  if 0 ≤ low ∧ low ≤ high ∧ high ≤ s.length then .ok ((s.take high.toNat).drop low.toNat)
  else .error .outOfRange

/-- What one list has at the position of the first entry of a kind in another, if there is such an entry. -/
def lookup? {α β : Type} (keys : List α) (values : List β) (isWanted : α → Bool) : Except Breakdown (Option β) :=
  match keys.findIdx? isWanted with
  | some i => (entry values i).map some
  | none => .ok none

@[simp] theorem cell_zero (v : Value) (rest : List Value) : cell (v :: rest) 0 = .ok v := rfl

@[simp] theorem pop_zero (v : Value) (rest : List Value) : pop (v :: rest) 0 = .ok (v, rest) := rfl

theorem entry_of_lt {α : Type} {entries : List α} {i : Nat} (h : i < entries.length) :
    entry entries i = .ok entries[i] := by
  rw [entry, List.getElem?_eq_getElem h]

theorem entry_append_length {α : Type} (first : List α) (x : α) (rest : List α) :
    entry (first ++ x :: rest) first.length = .ok x := by
  simp [entry]

theorem entryAt_append_length {α : Type} (first : List α) (x : α) (rest : List α) :
    entryAt (first ++ x :: rest) first.length = .ok x := by
  rw [entryAt, if_pos (Int.natCast_nonneg _), Int.toNat_natCast, entry_append_length]

theorem cell_append_length (first : List Value) (v : Value) (rest : List Value) :
    cell (first ++ v :: rest) first.length = .ok v :=
  entry_append_length first v rest

/-- In two columns of a table, one row is found. -/
theorem lookup?_map {α β ρ : Type} (rows : List ρ) (key : ρ → α) (value : ρ → β) (isWanted : α → Bool) :
    lookup? (rows.map key) (rows.map value) isWanted = .ok ((rows.find? fun row => isWanted (key row)).map value) := by
  induction rows with
  | nil => rfl
  | cons row rest ih =>
      unfold lookup? at ih ⊢
      rw [List.map_cons, List.findIdx?_cons, List.find?_cons]
      by_cases hrow : isWanted (key row)
      · rw [if_pos hrow, hrow]
        rfl
      · rw [if_neg hrow, Bool.eq_false_iff.mpr hrow, ← ih]
        cases (rest.map key).findIdx? isWanted with
        | none => rfl
        | some i => rfl

theorem length_lt_of_pop {cells rest : List Value} {i : Nat} {v : Value} (h : pop cells i = .ok (v, rest)) :
    rest.length < cells.length := by
  unfold pop cell entry at h
  cases hcell : cells[i]? with
  | none =>
      rw [hcell] at h
      cases h
  | some w =>
      rw [hcell] at h
      obtain ⟨hi, -⟩ := List.getElem?_eq_some_iff.mp hcell
      obtain ⟨-, rfl⟩ := Prod.mk.inj (Except.ok.inj h)
      rw [List.length_eraseIdx_of_lt hi]
      omega

/-! ## Lists emptied from the front -/

section Drain

variable {m : Type → Type} [Monad m] [MonadLiftT (Except Breakdown) m] {σ : Type}

/-- Pops the cells of a list one after another, and does something with each. -/
def drain (body : σ → Value → m σ) (x : σ) (cells : List Value) : m σ :=
  if cells.length = 0 then pure x
  else
    match _h : pop cells 0 with
    | .error b => liftM (Except.error b : Except Breakdown σ)
    | .ok (v, rest) => do
        let y ← body x v
        drain body y rest
termination_by cells.length
decreasing_by exact length_lt_of_pop _h

theorem drain_eq_foldlM (body : σ → Value → m σ) (x : σ) (cells : List Value) :
    drain body x cells = cells.foldlM body x := by
  induction cells generalizing x with
  | nil =>
      rw [drain]
      rfl
  | cons v rest ih =>
      have hlength : (v :: rest).length ≠ 0 := Nat.succ_ne_zero _
      rw [drain, List.foldlM_cons, if_neg hlength]
      exact congrArg (body x v >>= ·) (funext ih)

end Drain

/-! ## Errors by name -/

/-- The error under a name of the catalogue, with its message about some particulars. -/
def raise (name : Bytes) (particulars : List Particular) : Except Breakdown Value :=
  match FaultId.ofName? name with
  | none => .error (.unknownError name)
  | some id =>
      match Fault.build? id particulars with
      | none => .error (.badParticulars id)
      | some fault => .ok fault.toValue

end BraceLisp.Positional
