import BraceLisp.Text.Utf8

/-!
# Bindings

Names with what is bound to them, in the order in which the names were first bound. Binding a name
again changes what it is bound to and leaves its place in the order, and other names are not affected.
-/

namespace BraceLisp

/-- Names and what they are bound to, oldest name first. -/
abbrev Bindings (α : Type) := List (Bytes × α)

namespace Bindings

variable {α : Type}

def get? (name : Bytes) : Bindings α → Option α
  | [] => none
  | (n, v) :: rest => if n = name then some v else get? name rest

/-- Binds a name, in its old place if it has one and at the end if it is new. -/
def put (name : Bytes) (v : α) : Bindings α → Bindings α
  | [] => [(name, v)]
  | (n, w) :: rest => if n = name then (n, v) :: rest else (n, w) :: put name v rest

def putAll : List (Bytes × α) → Bindings α → Bindings α
  | [], b => b
  | (name, v) :: rest, b => putAll rest (put name v b)

def names (b : Bindings α) : List Bytes :=
  b.map Prod.fst

/-! ## What binding a name changes -/

/-- A name that has just been bound has its new value. -/
@[simp]
theorem get?_put_self (name : Bytes) (v : α) (b : Bindings α) : get? name (put name v b) = some v := by
  induction b with
  | nil => simp [put, get?]
  | cons entry rest ih =>
      obtain ⟨n, w⟩ := entry
      by_cases h : n = name <;> simp [put, get?, h, ih]

/-- Binding a name leaves the others as they are. -/
theorem get?_put_of_ne {name other : Bytes} (h : name ≠ other) (v : α) (b : Bindings α) :
    get? other (put name v b) = get? other b := by
  induction b with
  | nil => simp [put, get?, h]
  | cons entry rest ih =>
      obtain ⟨n, w⟩ := entry
      by_cases hn : n = name
      · subst hn
        simp [put, get?, h]
      · simp [put, get?, hn, ih]

/-- A name is bound if it is among the names. -/
theorem isSome_get?_iff (name : Bytes) (b : Bindings α) : (get? name b).isSome ↔ name ∈ names b := by
  induction b with
  | nil => simp [get?, names]
  | cons entry rest ih =>
      obtain ⟨n, w⟩ := entry
      by_cases h : n = name
      · simp [get?, names, h]
      · simpa [get?, names, h, Ne.symm h] using ih

/-- A name that is bound already keeps its place. -/
theorem names_put_of_mem {name : Bytes} {b : Bindings α} (h : name ∈ names b) (v : α) :
    names (put name v b) = names b := by
  induction b with
  | nil => simp [names] at h
  | cons entry rest ih =>
      obtain ⟨n, w⟩ := entry
      by_cases hn : n = name
      · simp [put, names, hn]
      · have hrest : name ∈ names rest := by simpa [names, Ne.symm hn] using h
        simpa [put, names, hn] using ih hrest

/-- A new name comes after all others. -/
theorem names_put_of_not_mem {name : Bytes} {b : Bindings α} (h : name ∉ names b) (v : α) :
    names (put name v b) = names b ++ [name] := by
  induction b with
  | nil => simp [put, names]
  | cons entry rest ih =>
      obtain ⟨n, w⟩ := entry
      have hn : n ≠ name := fun e => h (by simp [names, e])
      have hrest : name ∉ names rest := fun m => h (List.mem_cons_of_mem _ m)
      simpa [put, names, hn] using ih hrest

/-- No name is bound twice. -/
theorem nodup_names_put {b : Bindings α} (h : (names b).Nodup) (name : Bytes) (v : α) :
    (names (put name v b)).Nodup := by
  by_cases hm : name ∈ names b
  · rwa [names_put_of_mem hm]
  · rw [names_put_of_not_mem hm, List.nodup_append]
    refine ⟨h, by simp, ?_⟩
    intro a ha c hc e
    rw [List.mem_singleton] at hc
    exact hm (hc ▸ e ▸ ha)

end Bindings

end BraceLisp
