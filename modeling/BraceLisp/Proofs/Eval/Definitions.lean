import BraceLisp.Proofs.Eval.Frames

/-!
# Where global bindings come from

A name that an evaluation leaves bound in the outermost environment was bound there by `def`, or by `=` where
no call was in progress. In particular all that a call of a closure leaves behind for its caller was bound by
`def`: what is bound with `=` on the way is gone with the frame of some call.
-/

namespace BraceLisp

open EvalM

/-! ## Bindings made outermost -/

/-- Names have been bound in the outermost environment, each of them in a given way. -/
def Scope.Published (p : Bytes × Value → Prop) (scope after : Scope) : Prop :=
  ∃ bindings, after.root = Bindings.putAll bindings scope.root ∧ ∀ entry ∈ bindings, p entry

namespace Scope.Published

variable {p q : Bytes × Value → Prop} {scope middle after : Scope}

theorem of_root_eq (h : after.root = scope.root) : scope.Published p after :=
  ⟨[], h, List.forall_mem_nil _⟩

theorem trans (first : scope.Published p middle) (second : middle.Published p after) : scope.Published p after := by
  obtain ⟨early, hearly, hp⟩ := first
  obtain ⟨late, hlate, hq⟩ := second
  refine ⟨early ++ late, ?_, List.forall_mem_append.mpr ⟨hp, hq⟩⟩
  rw [hlate, hearly, Bindings.putAll_append]

theorem imp (h : scope.Published p after) (himp : ∀ entry, p entry → q entry) : scope.Published q after := by
  obtain ⟨bindings, hroot, hp⟩ := h
  exact ⟨bindings, hroot, fun entry hentry => himp entry (hp entry hentry)⟩

/-- A name that has not been bound outermost has the value there that it had. -/
theorem get?_root (h : scope.Published p after) {name : Bytes} (hname : ∀ entry, p entry → entry.1 ≠ name) :
    Bindings.get? name after.root = Bindings.get? name scope.root := by
  obtain ⟨bindings, hroot, hp⟩ := h
  rw [hroot]
  exact Bindings.get?_putAll_of_ne fun entry hentry => hname entry (hp entry hentry)

end Scope.Published

/-- Assignment binds names outermost only where there is no inner frame. -/
theorem Scope.published_assign (scope : Scope) (bindings : List (Bytes × Value)) :
    scope.Published (fun entry => entry ∈ bindings ∧ scope.inner = []) (scope.assign bindings) := by
  obtain ⟨inner, root⟩ := scope
  cases inner with
  | nil => exact ⟨bindings, rfl, fun entry hentry => ⟨hentry, rfl⟩⟩
  | cons frame rest => exact .of_root_eq rfl

def Builtin.Publishes (b : Builtin) (args : List Value) (scope : Scope) (entry : Bytes × Value) : Prop :=
  ∃ bindings, b.definitions args = .ok bindings ∧ entry ∈ bindings ∧
    (b = .define ∨ b = .assign ∧ scope.inner = [])

/-- In the course of an evaluation, a builtin is applied to arguments in a state. -/
def Applies (files : Files) (depth : Nat) (v : Value) (s : State) (b : Builtin) (args : List Value) (t : State) :
    Prop :=
  ∃ left cells u, Invokes files depth v s (left + 1) (.sexpr cells) u ∧ args ≠ [] ∧
    evalCells (eval files left) cells u = some (.ok (.builtin b :: args), t)

/-! ## One step -/

/-- Behind a check, things go on with what the check lets through, or the state stays as it is. -/
theorem guarded_eq_some {α : Type} {check : Except Fault α} {go : α → EvalM Value} {s s' : State} {r : Value}
    (h : Builtin.guarded check go s = some (r, s')) : (∃ x, check = .ok x ∧ go x s = some (r, s')) ∨ s' = s := by
  cases check with
  | ok x => exact .inl ⟨x, rfl, h⟩
  | error fault => exact .inr (Prod.mk.inj (Option.some.inj h)).2.symm

section Step

variable {files : Files} {ev : Value → EvalM Value} {e : Value → State → Bytes × Value → Prop}
  (hev : ∀ v s r s', ev v s = some (r, s') → s.scope.Published (e v s) s'.scope)

include hev

theorem evalEach_published {forms : List Value} {s s' : State} {rs : List Value}
    (h : evalEach ev forms s = some (rs, s')) :
    s.scope.Published (fun entry => ∃ w t, FormsAsk ev forms s w t ∧ e w t entry) s'.scope := by
  induction forms generalizing s rs with
  | nil =>
      obtain ⟨-, rfl⟩ := Prod.mk.inj (Option.some.inj h)
      exact .of_root_eq rfl
  | cons v rest ih =>
      obtain ⟨r, s₁, hr, h⟩ := bind_eq_some_iff.mp h
      obtain ⟨rs, s₂, hrest, h⟩ := bind_eq_some_iff.mp h
      obtain ⟨-, rfl⟩ := Prod.mk.inj (Option.some.inj h)
      refine ((hev v s r s₁ hr).imp ?_).trans ((ih hrest).imp ?_)
      · exact fun entry hentry => ⟨v, s, .first, hentry⟩
      · rintro entry ⟨w, t, hask, hentry⟩
        exact ⟨w, t, .later hr hask, hentry⟩

theorem evalCells_published {cells : List Value} {s s' : State} {values : Except Value (List Value)}
    (h : evalCells ev cells s = some (values, s')) :
    s.scope.Published (fun entry => ∃ w t, CellsAsk ev cells s w t ∧ e w t entry) s'.scope := by
  induction cells generalizing s values with
  | nil =>
      obtain ⟨-, rfl⟩ := Prod.mk.inj (Option.some.inj h)
      exact .of_root_eq rfl
  | cons v rest ih =>
      obtain ⟨r, s₁, hr, h⟩ := bind_eq_some_iff.mp h
      have hfirst : s.scope.Published (fun entry => ∃ w t, CellsAsk ev (v :: rest) s w t ∧ e w t entry) s₁.scope :=
        (hev v s r s₁ hr).imp fun entry hentry => ⟨v, s, .first, hentry⟩
      split at h
      · obtain ⟨-, rfl⟩ := Prod.mk.inj (Option.some.inj h)
        exact hfirst
      · rename_i hnoError
        obtain ⟨values', s₂, hrest, h⟩ := bind_eq_some_iff.mp h
        obtain rfl : s₂ = s' := by
          cases values' with
          | ok rs => exact (Prod.mk.inj (Option.some.inj h)).2
          | error r => exact (Prod.mk.inj (Option.some.inj h)).2
        refine hfirst.trans ((ih hrest).imp ?_)
        rintro entry ⟨w, t, hask, hentry⟩
        exact ⟨w, t, .later hr (by simpa using hnoError) hask, hentry⟩

theorem runProgram_published {forms : List Value} {s s' : State} {u : Unit}
    (h : runProgram ev forms s = some (u, s')) :
    s.scope.Published (fun entry => ∃ w t, FormsAsk ev forms s w t ∧ e w t entry) s'.scope := by
  obtain ⟨rs, s₁, hforms, h⟩ := bind_eq_some_iff.mp h
  obtain ⟨-, rfl⟩ := Prod.mk.inj (Option.some.inj h)
  exact .trans (evalEach_published hev hforms) (.of_root_eq rfl)

/-- What a builtin binds outermost it binds itself, or it is bound by code that the builtin evaluates. -/
theorem apply_published {b : Builtin} {args : List Value} {s s' : State} {r : Value}
    (h : b.apply files ev args s = some (r, s')) :
    s.scope.Published
      (fun entry => (∃ w t, BuiltinAsks files ev b args s w t ∧ e w t entry) ∨ b.Publishes args s.scope entry)
      s'.scope := by
  cases b with
  | operation op =>
      rcases guarded_eq_some h with ⟨v, -, h⟩ | rfl
      · obtain ⟨-, rfl⟩ := Prod.mk.inj (Option.some.inj h)
        exact .of_root_eq rfl
      · exact .of_root_eq rfl
  | eval =>
      rcases guarded_eq_some h with ⟨code, hchecked, h⟩ | rfl
      · exact (hev _ _ _ _ h).imp fun entry hentry => .inl ⟨_, _, .eval hchecked, hentry⟩
      · exact .of_root_eq rfl
  | branch =>
      rcases guarded_eq_some h with ⟨code, hchecked, h⟩ | rfl
      · exact (hev _ _ _ _ h).imp fun entry hentry => .inl ⟨_, _, .branch hchecked, hentry⟩
      · exact .of_root_eq rfl
  | define =>
      rcases guarded_eq_some h with ⟨bindings, hchecked, h⟩ | rfl
      · obtain ⟨-, rfl⟩ := Prod.mk.inj (Option.some.inj h)
        exact ⟨bindings, rfl, fun entry hentry => .inr ⟨bindings, hchecked, hentry, .inl rfl⟩⟩
      · exact .of_root_eq rfl
  | assign =>
      rcases guarded_eq_some h with ⟨bindings, hchecked, h⟩ | rfl
      · obtain ⟨-, rfl⟩ := Prod.mk.inj (Option.some.inj h)
        exact (Scope.published_assign s.scope bindings).imp fun entry hentry =>
          .inr ⟨bindings, hchecked, hentry.1, .inr ⟨rfl, hentry.2⟩⟩
      · exact .of_root_eq rfl
  | print =>
      obtain ⟨-, rfl⟩ := Prod.mk.inj (Option.some.inj h)
      exact .of_root_eq rfl
  | load =>
      rcases guarded_eq_some h with ⟨path, hchecked, h⟩ | rfl
      · obtain ⟨parsed, s₁, hfound, h⟩ := bind_eq_some_iff.mp h
        have hscope := scope_parseFile hfound
        cases parsed with
        | error problem =>
            obtain ⟨-, rfl⟩ := Prod.mk.inj (Option.some.inj h)
            exact .of_root_eq (congrArg Scope.root hscope)
        | ok parsed =>
            obtain ⟨u, s₂, hrun, h⟩ := bind_eq_some_iff.mp h
            obtain ⟨-, rfl⟩ := Prod.mk.inj (Option.some.inj h)
            rw [← hscope]
            refine (runProgram_published hev hrun).imp ?_
            rintro entry ⟨w, t, hask, hentry⟩
            exact .inl ⟨w, t, .load hchecked hfound hask, hentry⟩
      · exact .of_root_eq rfl

theorem call_closure_published {formals body : Value} {own : Frame} {entered : Bool} {args : List Value}
    {s s' : State} {r : Value × Value}
    (h : call files ev (.closure formals body own entered) args s = some (r, s')) :
    s.scope.Published
      (fun entry => ∃ w t, CallAsks files ev (.closure formals body own entered) args s w t ∧ e w t entry)
      s'.scope := by
  cases hbound : Bound.ofCall formals.cells args own with
  | failed fault left own =>
      simp only [call, hbound] at h
      exact .of_root_eq ((Prod.mk.inj (Option.some.inj h)).2 ▸ rfl)
  | waiting left own =>
      simp only [call, hbound] at h
      exact .of_root_eq ((Prod.mk.inj (Option.some.inj h)).2 ▸ rfl)
  | saturated bound =>
      simp only [call, hbound] at h
      obtain ⟨_, s₁, hentered, h⟩ := bind_eq_some_iff.mp h
      obtain ⟨-, rfl⟩ := Prod.mk.inj (Option.some.inj hentered)
      obtain ⟨v, s₂, hv, h⟩ := bind_eq_some_iff.mp h
      obtain ⟨own, s₃, hleft, h⟩ := bind_eq_some_iff.mp h
      obtain ⟨-, rfl⟩ := Prod.mk.inj (Option.some.inj hleft)
      obtain ⟨-, rfl⟩ := Prod.mk.inj (Option.some.inj h)
      refine .trans ?_ (.of_root_eq s₂.scope.root_leave)
      have hbody := hev _ _ _ _ hv
      exact hbody.imp fun entry hentry => ⟨_, _, .closure hbound, hentry⟩

theorem call_published {function : Value} {args : List Value} {s s' : State} {r : Value × Value}
    (h : call files ev function args s = some (r, s')) :
    s.scope.Published
      (fun entry => (∃ w t, CallAsks files ev function args s w t ∧ e w t entry) ∨
        ∃ b, function = .builtin b ∧ b.Publishes args s.scope entry)
      s'.scope := by
  cases function with
  | builtin b =>
      obtain ⟨v, s₁, hv, h⟩ := bind_eq_some_iff.mp h
      obtain ⟨-, rfl⟩ := Prod.mk.inj (Option.some.inj h)
      refine (apply_published hev hv).imp ?_
      rintro entry (⟨w, t, hask, hentry⟩ | hentry)
      · exact .inl ⟨w, t, .builtin hask, hentry⟩
      · exact .inr ⟨b, rfl, hentry⟩
  | closure formals body own entered => exact (call_closure_published hev h).imp fun _ hentry => .inl hentry
  | _ => exact .of_root_eq ((Prod.mk.inj (Option.some.inj h)).2 ▸ rfl)

/-- What a step binds outermost is bound by a builtin that it applies, or by something that it evaluates. -/
theorem reduce_published {v : Value} {s s' : State} {r : Value} (h : reduce files ev v s = some (r, s')) :
    s.scope.Published
      (fun entry => (∃ w t, Asks files ev v s w t ∧ e w t entry) ∨
        ∃ cells b args t, v = .sexpr cells ∧ args ≠ [] ∧
          evalCells ev cells s = some (.ok (.builtin b :: args), t) ∧ b.Publishes args t.scope entry)
      s'.scope := by
  cases v with
  | symbol name => exact .of_root_eq (congrArg Scope.root (scope_lookup h))
  | sexpr cells =>
      obtain ⟨values, s₁, hvalues, h⟩ := bind_eq_some_iff.mp h
      refine ((evalCells_published hev hvalues).imp ?_).trans ?_
      · rintro entry ⟨w, t, hask, hentry⟩
        exact .inl ⟨w, t, .cell hask, hentry⟩
      match values, hvalues with
      | .error r, _ => exact .of_root_eq ((Prod.mk.inj (Option.some.inj h)).2 ▸ rfl)
      | .ok [], _ => exact .of_root_eq ((Prod.mk.inj (Option.some.inj h)).2 ▸ rfl)
      | .ok [v], _ => exact .of_root_eq ((Prod.mk.inj (Option.some.inj h)).2 ▸ rfl)
      | .ok (function :: arg :: args), hvalues =>
          obtain ⟨result, s₂, hcall, h⟩ := bind_eq_some_iff.mp h
          obtain ⟨-, rfl⟩ := Prod.mk.inj (Option.some.inj h)
          refine (call_published hev hcall).imp ?_
          rintro entry (⟨w, t, hask, hentry⟩ | ⟨b, rfl, hentry⟩)
          · exact .inl ⟨w, t, .call hvalues hask, hentry⟩
          · exact .inr ⟨cells, b, _, _, rfl, List.cons_ne_nil _ _, hvalues, hentry⟩
  | _ => exact .of_root_eq ((Prod.mk.inj (Option.some.inj h)).2 ▸ rfl)

end Step

/-! ## Whole evaluations -/

variable {files : Files} {depth : Nat}

/-- What an evaluation binds outermost is bound by a builtin that is applied in the course of it. -/
theorem eval_published {v : Value} {s s' : State} {r : Value} (h : eval files depth v s = some (r, s')) :
    s.scope.Published
      (fun entry => ∃ b args t, Applies files depth v s b args t ∧ b.Publishes args t.scope entry) s'.scope := by
  induction depth generalizing v s r s' with
  | zero => cases h
  | succ depth ih =>
      refine (reduce_published (fun v s r s' hr => ih hr) h).imp ?_
      rintro entry (⟨w, t, hask, b, args, u, ⟨left, cells, t', hinvokes, happlied⟩, hentry⟩ | hself)
      · exact ⟨b, args, u, ⟨left, cells, t', .nested hask hinvokes, happlied⟩, hentry⟩
      · obtain ⟨cells, b, args, t, rfl, hargs, hcells, hentry⟩ := hself
        exact ⟨b, args, t, ⟨depth, cells, s, .self, hargs, hcells⟩, hentry⟩

/-- In the course of a call, at any depth, `def` binds a name. -/
def CallDefines (files : Files) (depth : Nat) (function : Value) (args : List Value) (s : State)
    (entry : Bytes × Value) : Prop :=
  ∃ w t given u bindings, CallAsks files (eval files depth) function args s w t ∧
    Applies files depth w t .define given u ∧ Builtin.define.definitions given = .ok bindings ∧ entry ∈ bindings

/-- Where a builtin is applied, there are at least the frames around the evaluation as a whole. -/
theorem Applies.length_inner_le {v : Value} {s t : State} {b : Builtin} {args : List Value}
    (h : Applies files depth v s b args t) : s.scope.inner.length ≤ t.scope.inner.length := by
  obtain ⟨left, cells, u, hinvokes, -, hcells⟩ := h
  have hgrows := evalCells_grows (eval_grows files left) cells u _ t hcells
  rw [hgrows.length_inner]
  exact hinvokes.length_inner_le

/-- What a call of a closure leaves bound outermost was bound by `def`. -/
theorem call_closure_defines {formals body : Value} {own : Frame} {entered : Bool} {args : List Value}
    {s s' : State} {r : Value × Value}
    (h : call files (eval files depth) (.closure formals body own entered) args s = some (r, s')) :
    s.scope.Published (CallDefines files depth (.closure formals body own entered) args s) s'.scope := by
  refine (call_closure_published (fun v s r s' hr => eval_published hr) h).imp ?_
  rintro entry ⟨w, t, hask, b, given, u, happlies, bindings, hgiven, hentry, rfl | ⟨rfl, hinner⟩⟩
  · exact ⟨w, t, given, u, bindings, hask, happlies, hgiven, hentry⟩
  · -- An assignment below the frame of the call never reaches the outermost environment.
    have hlength := happlies.length_inner_le
    cases hask with
    | closure saturated =>
        rw [hinner] at hlength
        exact absurd hlength (Nat.not_succ_le_zero _)

end BraceLisp
