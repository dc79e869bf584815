import BraceLisp.Positional.Slots

/-!
# Slots stay in step

Every name that an environment has bound has a slot, whatever has been bound in it before and in whatever order.
-/

namespace BraceLisp

namespace Bindings

variable {α : Type} {name : Bytes}

theorem get?_eq_find? (name : Bytes) (b : Bindings α) :
    get? name b = (b.find? fun entry => entry.1 == name).map Prod.snd := by
  induction b with
  | nil => rfl
  | cons entry rest ih =>
      obtain ⟨n, v⟩ := entry
      by_cases hn : n = name
      · simp [get?, hn]
      · simp [get?, hn, ih]

/-- A name that is bound again has its new value in the place of the old one. -/
theorem map_snd_put_of_findIdx?_eq_some {b : Bindings α} {i : Nat} (v : α)
    (h : (names b).findIdx? (· == name) = some i) : (put name v b).map Prod.snd = (b.map Prod.snd).set i v := by
  induction b generalizing i with
  | nil => cases h
  | cons entry rest ih =>
      obtain ⟨n, w⟩ := entry
      rw [names, List.map_cons, List.findIdx?_cons] at h
      by_cases hn : n = name
      · rw [if_pos (beq_iff_eq.mpr hn)] at h
        obtain rfl := Option.some.inj h
        simp [put, hn]
      · rw [if_neg (by simpa using hn)] at h
        obtain ⟨j, hj, rfl⟩ := Option.map_eq_some_iff.mp h
        simp [put, hn, ih hj]

/-- The value of a new name comes after all others. -/
theorem map_snd_put_of_not_mem {b : Bindings α} (v : α) (h : name ∉ names b) :
    (put name v b).map Prod.snd = b.map Prod.snd ++ [v] := by
  induction b with
  | nil => rfl
  | cons entry rest ih =>
      obtain ⟨n, w⟩ := entry
      obtain ⟨hn, hrest⟩ := not_or.mp (mt List.mem_cons.mpr h)
      simp [put, Ne.symm hn, ih hrest]

end Bindings

namespace Positional.Slots

variable {s : Slots} {frame : Frame}

theorem shows_empty : empty.Shows [] := by
  constructor
  · rfl
  · rfl
  · intro name
    rfl

/-- The slot of a name has the value of the name. -/
theorem Shows.get?_eq (h : s.Shows frame) (name : Bytes) : s.get? name = .ok (Bindings.get? name frame) := by
  have hlookup := lookup?_map frame Prod.fst Prod.snd (· == name)
  rw [← h.names, ← h.vals, lookup?, ← h.index, ← Bindings.get?_eq_find?] at hlookup
  exact hlookup

theorem findIdx?_eq_none_iff {names : List Bytes} {name : Bytes} :
    names.findIdx? (· == name) = none ↔ name ∉ names := by
  rw [List.findIdx?_eq_none_iff]
  constructor
  · intro h hmem
    simpa using h name hmem
  · intro h n hn
    exact beq_eq_false_iff_ne.mpr fun he => h (he ▸ hn)

/-- A name that has a slot keeps it. -/
theorem Shows.put_of_slot (h : s.Shows frame) {name : Bytes} {i : Nat} (v : Value)
    (hslot : s.names.findIdx? (· == name) = some i) :
    ({ s with vals := s.vals.set i v } : Slots).Shows (Bindings.put name v frame) := by
  obtain ⟨hi, hname, -⟩ := List.findIdx?_eq_some_iff_getElem.mp hslot
  have hmem : name ∈ Bindings.names frame := by
    have hget : s.names[i] = name := beq_iff_eq.mp hname
    rw [Bindings.names, ← h.names, ← hget]
    exact List.getElem_mem hi
  constructor
  · rw [h.names]
    exact (Bindings.names_put_of_mem hmem v).symm
  · rw [h.vals]
    rw [h.names] at hslot
    exact (Bindings.map_snd_put_of_findIdx?_eq_some v hslot).symm
  · exact h.index

/-- A new name has the slot behind all others. -/
theorem Shows.put_of_new (h : s.Shows frame) {name : Bytes} (v : Value) (hnew : name ∉ s.names) :
    (⟨s.names ++ [name], s.vals ++ [v], Bindings.put name s.names.length s.index⟩ : Slots).Shows
      (Bindings.put name v frame) := by
  have hframe : name ∉ Bindings.names frame := by
    rw [Bindings.names, ← h.names]
    exact hnew
  constructor
  · rw [h.names]
    exact (Bindings.names_put_of_not_mem hframe v).symm
  · rw [h.vals]
    exact (Bindings.map_snd_put_of_not_mem v hframe).symm
  · intro n
    dsimp only
    rw [List.findIdx?_append]
    by_cases hn : name = n
    · subst hn
      rw [Bindings.get?_put_self, findIdx?_eq_none_iff.mpr hnew]
      simp
    · rw [Bindings.get?_put_of_ne hn, h.index]
      simp [hn]

/-- A name can be bound, and the slots are in step afterwards. -/
theorem Shows.put_eq (h : s.Shows frame) (name : Bytes) (v : Value) :
    ∃ t, s.put name v = .ok t ∧ t.Shows (Bindings.put name v frame) := by
  have hindex := h.index name
  rw [put, hindex]
  cases hslot : s.names.findIdx? (· == name) with
  | some i =>
      have hlength : s.names.length = s.vals.length := by rw [h.names, h.vals, List.length_map, List.length_map]
      obtain ⟨hi, -⟩ := List.findIdx?_eq_some_iff_getElem.mp hslot
      dsimp only
      rw [cell, entry_of_lt (hlength ▸ hi)]
      exact ⟨_, rfl, h.put_of_slot v hslot⟩
  | none => exact ⟨_, rfl, h.put_of_new v (findIdx?_eq_none_iff.mp hslot)⟩

/-- However names are bound, one after another, every one has a slot. -/
theorem putAll_eq (h : s.Shows frame) (bindings : List (Bytes × Value)) :
    ∃ t, putAll bindings s = .ok t ∧ t.Shows (Bindings.putAll bindings frame) := by
  induction bindings generalizing s frame with
  | nil => exact ⟨s, rfl, h⟩
  | cons binding rest ih =>
      obtain ⟨name, v⟩ := binding
      obtain ⟨t, hput, ht⟩ := h.put_eq name v
      obtain ⟨u, hrest, hu⟩ := ih ht
      refine ⟨u, ?_, hu⟩
      rw [putAll, hput]
      exact hrest

end Positional.Slots

end BraceLisp
