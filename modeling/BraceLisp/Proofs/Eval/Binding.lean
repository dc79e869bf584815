import BraceLisp.Eval.Binding

/-!
# Binding in stages

Arguments are bound one by one, so binding some of them first and the others later comes to the same as binding
all at once, as long as the first ones run out in front of the formal that takes all the rest. Only the complaint
about too many arguments depends on where binding began, since it gives both numbers.
-/

namespace BraceLisp.Bound

/-- The formals in front of the one that announces the last, or all of them if there is none. -/
def leading (formals : List Value) : List Value :=
  formals.takeWhile fun formal => formal.symbolName ≠ variadicMark

/-- There are arguments left when all formals have been bound, and no formal takes them. -/
def Surplus (formals args : List Value) : Prop :=
  (∀ formal ∈ formals, formal.symbolName ≠ variadicMark) ∧ formals.length < args.length

variable {formal arg : Value} {formals args : List Value}

/-- If there are leading formals, the first formal is one, and the others are those of the formals behind it. -/
theorem exists_cons_of_lt_leading {n : Nat} (h : n < (leading formals).length) :
    ∃ formal rest, formals = formal :: rest ∧ formal.symbolName ≠ variadicMark ∧
      n < (leading rest).length + 1 := by
  cases formals with
  | nil => cases h
  | cons formal rest =>
      by_cases hmark : formal.symbolName = variadicMark
      · simp [leading, hmark] at h
      · exact ⟨formal, rest, rfl, hmark, by simpa [leading, hmark] using h⟩

theorem bind_cons_of_ne (h : formal.symbolName ≠ variadicMark) (tooMany : Fault) (own : Frame) :
    bind tooMany (formal :: formals) (arg :: args) own =
      bind tooMany formals args (Bindings.put formal.symbolName arg own) := by
  simp only [bind, h, if_false]

/-! ## Some arguments first -/

/-- Arguments for leading formals are bound to them, and binding goes on with the formals and arguments behind. -/
theorem bind_append (h : args.length ≤ (leading formals).length) (tooMany : Fault) (more : List Value)
    (own : Frame) :
    bind tooMany formals (args ++ more) own =
      bind tooMany (formals.drop args.length) more
        (Bindings.putAll ((formals.map Value.symbolName).zip args) own) := by
  induction args generalizing formals own with
  | nil =>
      rw [List.zip_nil_right]
      rfl
  | cons arg args ih =>
      obtain ⟨formal, rest, rfl, hmark, hrest⟩ := exists_cons_of_lt_leading h
      rw [List.cons_append, bind_cons_of_ne hmark, ih (Nat.le_of_lt_succ hrest)]
      rfl

/-- When the arguments run out in front of a leading formal, it waits, and those behind it. -/
theorem bind_of_lt_leading (h : args.length < (leading formals).length) (tooMany : Fault) (own : Frame) :
    bind tooMany formals args own =
      .waiting (formals.drop args.length) (Bindings.putAll ((formals.map Value.symbolName).zip args) own) := by
  induction args generalizing formals own with
  | nil =>
      obtain ⟨formal, rest, rfl, hmark, -⟩ := exists_cons_of_lt_leading h
      simp only [bind, hmark, if_false, List.zip_nil_right]
      rfl
  | cons arg args ih =>
      obtain ⟨formal, rest, rfl, hmark, hrest⟩ := exists_cons_of_lt_leading (Nat.lt_of_succ_lt h)
      have hlength : args.length < (leading rest).length := by simpa [leading, hmark] using h
      rw [bind_cons_of_ne hmark, ih hlength]
      rfl

/-! ## Too many arguments -/

theorem surplus_append_iff (h : args.length ≤ (leading formals).length) (more : List Value) :
    Surplus formals (args ++ more) ↔ Surplus (formals.drop args.length) more := by
  induction args generalizing formals with
  | nil => rfl
  | cons arg args ih =>
      obtain ⟨formal, rest, rfl, hmark, hrest⟩ := exists_cons_of_lt_leading h
      rw [List.length_cons, List.drop_succ_cons, ← ih (Nat.le_of_lt_succ hrest)]
      simp [Surplus, hmark]

/-- With a surplus all formals are bound, and then the complaint is made, whatever it is. -/
theorem Surplus.exists_bind (h : Surplus formals args) (own : Frame) :
    ∃ bound, ∀ tooMany, bind tooMany formals args own = .failed tooMany [] bound := by
  obtain ⟨hmarks, hlength⟩ := h
  induction formals generalizing args own with
  | nil =>
      cases args with
      | nil => cases hlength
      | cons arg args => exact ⟨own, fun _ => rfl⟩
  | cons formal formals ih =>
      cases args with
      | nil => cases hlength
      | cons arg args =>
          obtain ⟨hmark, hmarks⟩ := List.forall_mem_cons.mp hmarks
          obtain ⟨bound, hbound⟩ := ih (Bindings.put formal.symbolName arg own) hmarks (Nat.lt_of_succ_lt_succ hlength)
          exact ⟨bound, fun tooMany => by rw [bind_cons_of_ne hmark, hbound]⟩

/-- Without a surplus no complaint about one is made. -/
theorem bind_of_not_surplus (h : ¬ Surplus formals args) (tooMany other : Fault) (own : Frame) :
    bind tooMany formals args own = bind other formals args own := by
  induction formals generalizing args own with
  | nil =>
      cases args with
      | nil => rfl
      | cons arg args => exact absurd ⟨List.forall_mem_nil _, Nat.succ_pos _⟩ h
  | cons formal formals ih =>
      cases args with
      | nil => rfl
      | cons arg args =>
          by_cases hmark : formal.symbolName = variadicMark
          · simp only [bind, hmark, if_true]
          · have hrest : ¬ Surplus formals args := fun hrest =>
              h ⟨List.forall_mem_cons.mpr ⟨hmark, hrest.1⟩, Nat.succ_lt_succ hrest.2⟩
            rw [bind_cons_of_ne hmark, bind_cons_of_ne hmark, ih hrest]

end BraceLisp.Bound
