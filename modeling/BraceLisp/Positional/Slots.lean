import BraceLisp.Positional.Basic

/-!
# Bindings in slots

An environment that keeps its names in one list and their values in another, and finds a value by the slot that a
third table has for its name. However names are bound in it, the slots stay in step with the names, and the
environment has the bindings that it would have as one list of pairs.
-/

namespace BraceLisp.Positional

/-- The names that are bound, oldest first, their values at the same positions, and the position of each name. -/
structure Slots where
  names : List Bytes
  vals : List Value
  index : Bindings Nat

namespace Slots

def empty : Slots := ⟨[], [], []⟩

def get? (s : Slots) (name : Bytes) : Except Breakdown (Option Value) :=
  match Bindings.get? name s.index with
  | some i => (cell s.vals i).map some
  | none => .ok none

def put (s : Slots) (name : Bytes) (v : Value) : Except Breakdown Slots :=
  match Bindings.get? name s.index with
  | some i => (cell s.vals i).map fun _ => { s with vals := s.vals.set i v }
  | none => .ok ⟨s.names ++ [name], s.vals ++ [v], Bindings.put name s.names.length s.index⟩

def putAll : List (Bytes × Value) → Slots → Except Breakdown Slots
  | [], s => .ok s
  | (name, v) :: rest, s => s.put name v >>= putAll rest

/-- The bindings are those of a frame, and the table has the position of each of its names. -/
structure Shows (s : Slots) (frame : Frame) : Prop where
  names : s.names = frame.map Prod.fst
  vals : s.vals = frame.map Prod.snd
  index : ∀ name, Bindings.get? name s.index = s.names.findIdx? (· == name)

end Slots

end BraceLisp.Positional
