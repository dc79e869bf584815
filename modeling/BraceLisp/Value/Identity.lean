import BraceLisp.Value.Basic

/-!
# Identity of values

Whether two values are one and the same can be decided. This is finer than equality in the language, which looks
at the message of an error alone, and not at what has been bound for a closure.
-/

namespace BraceLisp.Value

mutual

/-- Whether two values agree in everything. -/
def same : Value → Value → Bool
  | .error k i m, .error k' i' m' => decide (k = k') && i == i' && m == m'
  | .number n, .number n' => n == n'
  | .symbol s, .symbol s' => s == s'
  | .string s, .string s' => s == s'
  | .builtin b, .builtin b' => decide (b = b')
  | .closure f b own e, .closure f' b' own' e' => same f f' && same b b' && sameBindings own own' && e == e'
  | .sexpr cs, .sexpr cs' => sameAll cs cs'
  | .qexpr cs, .qexpr cs' => sameAll cs cs'
  | _, _ => false

def sameAll : List Value → List Value → Bool
  | [], [] => true
  | v :: vs, w :: ws => same v w && sameAll vs ws
  | _, _ => false

def sameBindings : List (Bytes × Value) → List (Bytes × Value) → Bool
  | [], [] => true
  | (name, v) :: rest, (name', v') :: rest' => name == name' && same v v' && sameBindings rest rest'
  | _, _ => false

end

mutual

theorem eq_of_same : ∀ {v w : Value}, same v w = true → v = w
  | .error .., w, h => by cases w <;> simp_all [same]
  | .number _, w, h => by cases w <;> simp_all [same]
  | .symbol _, w, h => by cases w <;> simp_all [same]
  | .string _, w, h => by cases w <;> simp_all [same]
  | .builtin _, w, h => by cases w <;> simp_all [same]
  | .closure f b own e, w, h => by
      cases w with
      | closure f' b' own' e' =>
          simp only [same, Bool.and_eq_true, beq_iff_eq] at h
          obtain ⟨⟨⟨hf, hb⟩, hown⟩, rfl⟩ := h
          rw [eq_of_same hf, eq_of_same hb, eq_of_sameBindings hown]
      | _ => simp [same] at h
  | .sexpr cs, w, h => by
      cases w with
      | sexpr cs' => rw [eq_of_sameAll h]
      | _ => simp [same] at h
  | .qexpr cs, w, h => by
      cases w with
      | qexpr cs' => rw [eq_of_sameAll h]
      | _ => simp [same] at h

theorem eq_of_sameAll : ∀ {vs ws : List Value}, sameAll vs ws = true → vs = ws
  | [], [], _ => rfl
  | [], _ :: _, h => by simp [sameAll] at h
  | _ :: _, [], h => by simp [sameAll] at h
  | v :: vs, w :: ws, h => by
      simp only [sameAll, Bool.and_eq_true] at h
      rw [eq_of_same h.1, eq_of_sameAll h.2]

theorem eq_of_sameBindings : ∀ {b b' : List (Bytes × Value)}, sameBindings b b' = true → b = b'
  | [], [], _ => rfl
  | [], _ :: _, h => by simp [sameBindings] at h
  | _ :: _, [], h => by simp [sameBindings] at h
  | (name, v) :: rest, (name', v') :: rest', h => by
      simp only [sameBindings, Bool.and_eq_true, beq_iff_eq] at h
      obtain ⟨⟨rfl, hv⟩, hrest⟩ := h
      rw [eq_of_same hv, eq_of_sameBindings hrest]

end

mutual

theorem same_self : ∀ v : Value, same v v = true
  | .error .. => by simp [same]
  | .number _ => by simp [same]
  | .symbol _ => by simp [same]
  | .string _ => by simp [same]
  | .builtin _ => by simp [same]
  | .closure f b own e => by simp [same, same_self f, same_self b, sameBindings_self own]
  | .sexpr cs => sameAll_self cs
  | .qexpr cs => sameAll_self cs

theorem sameAll_self : ∀ vs : List Value, sameAll vs vs = true
  | [] => rfl
  | v :: vs => by simp [sameAll, same_self v, sameAll_self vs]

theorem sameBindings_self : ∀ b : List (Bytes × Value), sameBindings b b = true
  | [] => rfl
  | (name, v) :: rest => by simp [sameBindings, same_self v, sameBindings_self rest]

end

instance : DecidableEq Value := fun v w =>
  decidable_of_iff (same v w = true) ⟨eq_of_same, fun h => h ▸ same_self v⟩

end BraceLisp.Value
