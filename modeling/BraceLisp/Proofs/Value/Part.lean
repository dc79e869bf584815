import BraceLisp.Value.Basic

/-!
# The parts of a value

A value is made of parts: the cells of a list, the formals and the body of a closure and the values bound for
it, and their parts in turn. Properties of all parts are what evaluation hands on: a value that is put
together from others has, besides itself, only the parts that the others had.

A normal value is one that evaluation can return, and a settled one is normal and no error, so that a name
can be bound to it.
-/

namespace BraceLisp

namespace Value

/-! ## Normal and settled values -/

/-- Whether a value is a result of evaluation: no symbol, and no S-expression with cells. -/
def isNormal : Value → Bool
  | .symbol _ => false
  | .sexpr cells => cells.isEmpty
  | _ => true

/-- Whether a value can be bound to a name: it is normal and no error. -/
def isSettled (v : Value) : Bool :=
  v.isNormal && !v.isError

theorem isNormal_of_isSettled {v : Value} (h : v.isSettled) : v.isNormal :=
  ((Bool.and_eq_true _ _).mp h).1

theorem isError_of_isSettled {v : Value} (h : v.isSettled) : v.isError = false := by
  simpa using ((Bool.and_eq_true _ _).mp h).2

theorem isSettled_of_isNormal {v : Value} (h : v.isNormal) (herror : v.isError = false) : v.isSettled := by
  simp [isSettled, h, herror]

theorem isSettled_of_isFunction {v : Value} (h : v.isFunction) : v.isSettled := by
  cases v with
  | builtin b => rfl
  | closure formals body own entered => rfl
  | _ => cases h

/-! ## Parts -/

def components : Value → List Value
  | .sexpr cells => cells
  | .qexpr cells => cells
  | .closure formals body own _ => formals :: body :: own.map Prod.snd
  | _ => []

/-- The first value is the second or occurs in it, at any depth. -/
inductive Part : Value → Value → Prop where
  | self (v : Value) : Part v v
  | inside {x c v : Value} (mem : c ∈ v.components) (part : Part x c) : Part x v

def Every (p : Value → Prop) (v : Value) : Prop :=
  ∀ x, Part x v → p x

variable {p : Value → Prop}

/-- Every part of a value has a property if the value has it and every part of its components. -/
theorem every_iff {v : Value} : v.Every p ↔ p v ∧ ∀ c ∈ v.components, c.Every p := by
  constructor
  · intro h
    exact ⟨h v (.self v), fun c hc x hx => h x (.inside hc hx)⟩
  · rintro ⟨hself, hinside⟩ x hx
    cases hx with
    | self => exact hself
    | inside hc hx => exact hinside _ hc x hx

theorem Every.self {v : Value} (h : v.Every p) : p v := h v (.self v)

theorem every_of_components_eq_nil {v : Value} (hv : v.components = []) (h : p v) : v.Every p := by
  rw [every_iff, hv]
  exact ⟨h, List.forall_mem_nil _⟩

theorem Every.cells {v : Value} (h : v.Every p) : ∀ c ∈ v.cells, c.Every p := by
  cases v with
  | sexpr cells => exact (every_iff.mp h).2
  | qexpr cells => exact (every_iff.mp h).2
  | _ => exact List.forall_mem_nil _

/-- The parts of a closure. -/
theorem every_closure {formals body : Value} {own : Frame} {entered : Bool} :
    (closure formals body own entered).Every p ↔
      p (closure formals body own entered) ∧ formals.Every p ∧ body.Every p ∧
        ∀ entry ∈ own, entry.2.Every p := by
  rw [every_iff]
  simp only [components, List.forall_mem_cons, List.forall_mem_map]

end Value

end BraceLisp
