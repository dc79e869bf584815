import BraceLisp.Proofs.Environment
import BraceLisp.Proofs.Eval.Invocation

/-!
# Evaluation and frames

Evaluation binds names in the innermost and in the outermost environment of its scope and changes no
environment between them. A call of a closure changes no inner frame at all, since its own frame is taken away
when it ends. Whatever is evaluated on the way is evaluated in the scope as it has grown so far, or in a frame
hung below it, and what it binds in the outermost environment is there when the whole evaluation ends.
-/

namespace BraceLisp

namespace EvalM

variable {α β : Type}

/-- A computation binds names in the innermost and the outermost environment at most. -/
def Grows (m : EvalM α) : Prop :=
  ∀ s r s', m s = some (r, s') → s.scope.Grows s'.scope

/-- A computation binds names in the outermost environment at most. -/
def Spares (m : EvalM α) : Prop :=
  ∀ s r s', m s = some (r, s') → s.scope.Spared s'.scope

theorem Spares.grows {m : EvalM α} (h : m.Spares) : m.Grows :=
  fun s r s' hr => (h s r s' hr).grows

theorem spares_pure (a : α) : Spares (pure a) := by
  intro s r s' hr
  obtain ⟨rfl, rfl⟩ := Prod.mk.inj (Option.some.inj hr)
  exact .refl _

theorem spares_of_scope_eq {m : EvalM α} (h : ∀ s r s', m s = some (r, s') → s'.scope = s.scope) : m.Spares := by
  intro s r s' hr
  rw [h s r s' hr]
  exact .refl _

theorem Grows.bind {m : EvalM α} {f : α → EvalM β} (hm : m.Grows) (hf : ∀ a, (f a).Grows) :
    Grows (m >>= f) := by
  intro s r s' hr
  obtain ⟨a, s₁, ha, hr⟩ := bind_eq_some_iff.mp hr
  exact (hm s a s₁ ha).trans (hf a s₁ r s' hr)

theorem grows_modifyScope {f : Scope → Scope} (h : ∀ scope : Scope, scope.Grows (f scope)) :
    Grows (modifyScope f) := by
  intro s r s' hr
  obtain ⟨rfl, rfl⟩ := Prod.mk.inj (Option.some.inj hr)
  exact h s.scope

theorem spares_emit (text : Bytes) : Spares (emit text) := by
  refine spares_of_scope_eq fun s r s' hr => ?_
  obtain ⟨rfl, rfl⟩ := Prod.mk.inj (Option.some.inj hr)
  rfl

theorem scope_parseFile {files : Files} {path : Bytes} {s s' : State}
    {parsed : Except Source.ParseError ParsedFile} (h : parseFile files path s = some (parsed, s')) :
    s'.scope = s.scope := by
  obtain ⟨rfl, rfl⟩ := Prod.mk.inj (Option.some.inj h)
  rfl

theorem scope_lookup {name : Bytes} {s s' : State} {r : Value} (h : lookup name s = some (r, s')) :
    s'.scope = s.scope := by
  unfold lookup at h
  obtain ⟨s₁, s₂, hget, h⟩ := bind_eq_some_iff.mp h
  obtain ⟨rfl, rfl⟩ := Prod.mk.inj (Option.some.inj hget)
  cases hname : s.scope.get? name with
  | some v =>
      simp only [hname, pure_apply, Option.some.injEq, Prod.mk.injEq] at h
      rw [h.2]
  | none =>
      simp only [hname, pure_apply, Option.some.injEq, Prod.mk.injEq] at h
      rw [h.2]

/-- What is computed below a frame that is hung there and taken away again spares the scope above. -/
theorem Grows.below {m : EvalM α} {finish : α → Frame → β} (hm : m.Grows) (frame : Frame) :
    Spares (enter frame >>= fun _ => m >>= fun a => leave >>= fun own => pure (finish a own)) := by
  intro s r s' hr
  obtain ⟨_, s₁, hentered, hr⟩ := bind_eq_some_iff.mp hr
  obtain ⟨a, s₂, ha, hr⟩ := bind_eq_some_iff.mp hr
  obtain ⟨own, s₃, hleft, hr⟩ := bind_eq_some_iff.mp hr
  obtain ⟨-, rfl⟩ := Prod.mk.inj (Option.some.inj hentered)
  obtain ⟨-, rfl⟩ := Prod.mk.inj (Option.some.inj hleft)
  obtain ⟨-, rfl⟩ := Prod.mk.inj (Option.some.inj hr)
  exact (hm _ a s₂ ha).leave

end EvalM

open EvalM

variable {files : Files} {ev : Value → EvalM Value}

/-! ## Evaluation -/

theorem guarded_grows {α : Type} (check : Except Fault α) {go : α → EvalM Value} (h : ∀ x, (go x).Grows) :
    (Builtin.guarded check go).Grows := by
  cases check with
  | ok x => exact h x
  | error fault => exact (spares_pure _).grows

section Step

variable (hev : ∀ v, (ev v).Grows)

include hev

theorem evalEach_grows (forms : List Value) : (evalEach ev forms).Grows := by
  induction forms with
  | nil => exact (spares_pure _).grows
  | cons v rest ih => exact (hev v).bind fun _ => ih.bind fun _ => (spares_pure _).grows

theorem runProgram_grows (forms : List Value) : (runProgram ev forms).Grows :=
  (evalEach_grows hev forms).bind fun _ => (spares_emit _).grows

theorem apply_grows (b : Builtin) (args : List Value) : (b.apply files ev args).Grows := by
  have hunit : Grows (pure (.sexpr []) : EvalM Value) := (spares_pure _).grows
  cases b with
  | operation op => exact guarded_grows _ fun _ => (spares_pure _).grows
  | eval => exact guarded_grows _ fun _ => hev _
  | branch => exact guarded_grows _ fun _ => hev _
  | define =>
      refine guarded_grows _ fun bindings => ?_
      exact (grows_modifyScope fun scope => (scope.spared_define bindings).grows).bind fun _ => hunit
  | assign =>
      refine guarded_grows _ fun bindings => ?_
      exact (grows_modifyScope fun scope => scope.grows_assign bindings).bind fun _ => hunit
  | print => exact (spares_emit _).grows.bind fun _ => hunit
  | load =>
      refine guarded_grows _ fun path => ?_
      refine (spares_of_scope_eq fun s r s' hr => scope_parseFile hr).grows.bind fun parsed => ?_
      cases parsed with
      | error e => exact (spares_pure _).grows
      | ok parsed => exact (runProgram_grows hev _).bind fun _ => hunit

theorem evalCells_grows (cells : List Value) : (evalCells ev cells).Grows := by
  induction cells with
  | nil => exact (spares_pure _).grows
  | cons v rest ih =>
      refine (hev v).bind fun r => ?_
      split
      · exact (spares_pure _).grows
      · refine ih.bind fun values => ?_
        cases values with
        | ok rs => exact (spares_pure _).grows
        | error e => exact (spares_pure _).grows

/-- A call of a closure changes no inner frame of the scope it is made in. -/
theorem call_closure_spares (formals body : Value) (own : Frame) (entered : Bool) (args : List Value) :
    (call files ev (.closure formals body own entered) args).Spares := by
  simp only [call]
  split
  · exact spares_pure _
  · exact spares_pure _
  · exact (hev _).below _

theorem call_grows (function : Value) (args : List Value) : (call files ev function args).Grows := by
  cases function with
  | builtin b => exact (apply_grows hev b args).bind fun _ => (spares_pure _).grows
  | closure formals body own entered => exact (call_closure_spares hev formals body own entered args).grows
  | _ => exact (spares_pure _).grows

theorem applyCells_grows (values : List Value) : (applyCells files ev values).Grows := by
  match values with
  | [] => exact (spares_pure _).grows
  | [v] => exact (spares_pure _).grows
  | function :: arg :: args =>
      exact (call_grows hev function (arg :: args)).bind fun _ => (spares_pure _).grows

theorem reduce_grows (v : Value) : (reduce files ev v).Grows := by
  cases v with
  | symbol name => exact (spares_of_scope_eq fun _ _ _ hr => scope_lookup hr).grows
  | sexpr cells =>
      refine (evalCells_grows hev cells).bind fun values => ?_
      cases values with
      | error e => exact (spares_pure _).grows
      | ok values => exact applyCells_grows hev values
  | _ => exact (spares_pure _).grows

end Step

/-- Evaluation binds names in the innermost and the outermost environment at most. -/
theorem eval_grows (files : Files) (depth : Nat) (v : Value) : (eval files depth v).Grows := by
  induction depth generalizing v with
  | zero => exact fun _ _ _ hr => nomatch hr
  | succ depth ih => exact reduce_grows ih v

/-- Evaluation in the global environment ends in the global environment. -/
theorem scope_of_evalEach {files : Files} {depth : Nat} {s t : State} {es rs : List Value}
    (hs : s.scope.inner = []) (h : evalEach (eval files depth) es s = some (rs, t)) :
    t.scope = ⟨[], t.scope.root⟩ := by
  have hlength := (evalEach_grows (eval_grows files depth) es s rs t h).length_inner
  rw [hs, List.length_nil, List.length_eq_zero_iff] at hlength
  rw [← hlength]

/-! ## Where things are evaluated along the way -/

namespace Scope

/-- A scope as it has grown, or with one frame hung below it. -/
def Reaches (scope inside : Scope) : Prop :=
  ∃ grown, scope.Grows grown ∧ (inside = grown ∨ ∃ frame, inside = grown.enter frame)

theorem Grows.reaches {scope inside : Scope} (h : scope.Grows inside) : scope.Reaches inside :=
  ⟨inside, h, .inl rfl⟩

theorem Grows.trans_reaches {scope grown inside : Scope} (first : scope.Grows grown)
    (second : grown.Reaches inside) : scope.Reaches inside := by
  obtain ⟨further, hgrows, hinside⟩ := second
  exact ⟨further, first.trans hgrows, hinside⟩

theorem Reaches.root {scope inside : Scope} (h : scope.Reaches inside) :
    Bindings.Grows scope.root inside.root := by
  obtain ⟨grown, hgrows, rfl | ⟨frame, rfl⟩⟩ := h
  · exact hgrows.root
  · exact hgrows.root

theorem Reaches.length_inner_le {scope inside : Scope} (h : scope.Reaches inside) :
    inside.inner.length ≤ scope.inner.length + 1 := by
  obtain ⟨grown, hgrows, rfl | ⟨frame, rfl⟩⟩ := h
  · exact Nat.le_succ_of_le (Nat.le_of_eq hgrows.length_inner)
  · exact Nat.succ_le_succ (Nat.le_of_eq hgrows.length_inner)

theorem Reaches.le_length_inner {scope inside : Scope} (h : scope.Reaches inside) :
    scope.inner.length ≤ inside.inner.length := by
  obtain ⟨grown, hgrows, rfl | ⟨frame, rfl⟩⟩ := h
  · exact Nat.le_of_eq hgrows.length_inner.symm
  · exact Nat.le_succ_of_le (Nat.le_of_eq hgrows.length_inner.symm)

end Scope

section Asks

variable (hev : ∀ v, (ev v).Grows)

include hev

theorem CellsAsk.grows {cells : List Value} {w : Value} {s t : State} (hask : CellsAsk ev cells s w t) :
    s.scope.Grows t.scope := by
  induction hask with
  | first => exact .refl _
  | later value noError asks ih => exact (hev _ _ _ _ value).trans ih

theorem FormsAsk.grows {forms : List Value} {w : Value} {s t : State} (hask : FormsAsk ev forms s w t) :
    s.scope.Grows t.scope := by
  induction hask with
  | first => exact .refl _
  | later value asks ih => exact (hev _ _ _ _ value).trans ih

theorem BuiltinAsks.grows {b : Builtin} {args : List Value} {w : Value} {s t : State}
    (hask : BuiltinAsks files ev b args s w t) : s.scope.Grows t.scope := by
  cases hask with
  | eval checked => exact .refl _
  | branch checked => exact .refl _
  | load checked found asks =>
      have hgrows := asks.grows hev
      rwa [scope_parseFile found] at hgrows

theorem CallAsks.reaches {function : Value} {args : List Value} {w : Value} {s t : State}
    (hask : CallAsks files ev function args s w t) : s.scope.Reaches t.scope := by
  cases hask with
  | builtin asks => exact (asks.grows hev).reaches
  | closure saturated => exact ⟨s.scope, .refl _, .inr ⟨_, rfl⟩⟩

theorem Asks.reaches {v w : Value} {s t : State} (hask : Asks files ev v s w t) : s.scope.Reaches t.scope := by
  cases hask with
  | cell asks => exact (asks.grows hev).reaches
  | call values asks => exact (evalCells_grows hev _ _ _ _ values).trans_reaches (asks.reaches hev)

end Asks

/-- There are never more frames than levels of nesting, and the outermost environment stays outermost. -/
theorem Invokes.reaches {depth left : Nat} {v w : Value} {s t : State}
    (hinvokes : Invokes files depth v s left w t) :
    t.scope.inner.length + left ≤ s.scope.inner.length + depth ∧
      Bindings.Grows s.scope.root t.scope.root := by
  induction hinvokes with
  | self => exact ⟨Nat.le_refl _, .refl _⟩
  | nested asks invokes ih =>
      have hreaches := asks.reaches (eval_grows files _)
      have hlength := hreaches.length_inner_le
      exact ⟨by omega, hreaches.root.trans ih.2⟩

/-- The frames around an evaluation are around all that is evaluated along the way. -/
theorem Invokes.length_inner_le {depth left : Nat} {v w : Value} {s t : State}
    (hinvokes : Invokes files depth v s left w t) : s.scope.inner.length ≤ t.scope.inner.length := by
  induction hinvokes with
  | self => exact Nat.le_refl _
  | nested asks invokes ih => exact Nat.le_trans (asks.reaches (eval_grows files _)).le_length_inner ih

/-! ## How things end that are evaluated along the way -/

section Ends

variable (hev : ∀ v, (ev v).Grows)

include hev

theorem CellsAsk.ends {cells : List Value} {w : Value} {s t : State} (hask : CellsAsk ev cells s w t)
    {values : Except Value (List Value)} {s' : State} (h : evalCells ev cells s = some (values, s')) :
    ∃ r t', ev w t = some (r, t') ∧ Bindings.Grows t'.scope.root s'.scope.root := by
  induction hask generalizing values with
  | @first v rest s =>
      obtain ⟨r, s₁, hr, h⟩ := bind_eq_some_iff.mp h
      refine ⟨r, s₁, hr, ?_⟩
      split at h
      · obtain ⟨-, rfl⟩ := Prod.mk.inj (Option.some.inj h)
        exact .refl _
      · obtain ⟨values, s₂, hrest, h⟩ := bind_eq_some_iff.mp h
        have hgrows := (evalCells_grows hev rest _ _ _ hrest).root
        cases values with
        | ok rs => exact (Prod.mk.inj (Option.some.inj h)).2 ▸ hgrows
        | error e => exact (Prod.mk.inj (Option.some.inj h)).2 ▸ hgrows
  | @later v r w rest s s₁ t value noError asks ih =>
      obtain ⟨r', s₁', hr, h⟩ := bind_eq_some_iff.mp h
      obtain ⟨rfl, rfl⟩ := Prod.mk.inj (Option.some.inj (value.symm.trans hr))
      simp only [noError, Bool.false_eq_true, if_false] at h
      obtain ⟨values, s₂, hrest, h⟩ := bind_eq_some_iff.mp h
      cases values with
      | ok rs =>
          obtain ⟨-, rfl⟩ := Prod.mk.inj (Option.some.inj h)
          exact ih hrest
      | error e =>
          obtain ⟨-, rfl⟩ := Prod.mk.inj (Option.some.inj h)
          exact ih hrest

theorem FormsAsk.ends {forms : List Value} {w : Value} {s t : State} (hask : FormsAsk ev forms s w t)
    {values : List Value} {s' : State} (h : evalEach ev forms s = some (values, s')) :
    ∃ r t', ev w t = some (r, t') ∧ Bindings.Grows t'.scope.root s'.scope.root := by
  induction hask generalizing values with
  | @first v rest s =>
      obtain ⟨r, s₁, hr, h⟩ := bind_eq_some_iff.mp h
      obtain ⟨rs, s₂, hrest, h⟩ := bind_eq_some_iff.mp h
      obtain ⟨-, rfl⟩ := Prod.mk.inj (Option.some.inj h)
      exact ⟨r, s₁, hr, (evalEach_grows hev rest _ _ _ hrest).root⟩
  | later value asks ih =>
      obtain ⟨r', s₁', hr, h⟩ := bind_eq_some_iff.mp h
      obtain ⟨rfl, rfl⟩ := Prod.mk.inj (Option.some.inj (value.symm.trans hr))
      obtain ⟨rs, s₂, hrest, h⟩ := bind_eq_some_iff.mp h
      obtain ⟨-, rfl⟩ := Prod.mk.inj (Option.some.inj h)
      exact ih hrest

theorem BuiltinAsks.ends {b : Builtin} {args : List Value} {w : Value} {s t : State}
    (hask : BuiltinAsks files ev b args s w t) {v : Value} {s' : State}
    (h : b.apply files ev args s = some (v, s')) :
    ∃ r t', ev w t = some (r, t') ∧ Bindings.Grows t'.scope.root s'.scope.root := by
  cases hask with
  | eval checked =>
      simp only [Builtin.apply, Builtin.guarded, checked] at h
      exact ⟨v, s', h, .refl _⟩
  | branch checked =>
      simp only [Builtin.apply, Builtin.guarded, checked] at h
      exact ⟨v, s', h, .refl _⟩
  | load checked found asks =>
      simp only [Builtin.apply, Builtin.guarded, checked, Builtin.loadFile] at h
      obtain ⟨parsed, s₁, hfound, h⟩ := bind_eq_some_iff.mp h
      obtain ⟨rfl, rfl⟩ := Prod.mk.inj (Option.some.inj (found.symm.trans hfound))
      obtain ⟨_, s₂, hrun, h⟩ := bind_eq_some_iff.mp h
      obtain ⟨-, rfl⟩ := Prod.mk.inj (Option.some.inj h)
      obtain ⟨values, s₃, hforms, hlines⟩ := bind_eq_some_iff.mp hrun
      obtain ⟨-, rfl⟩ := Prod.mk.inj (Option.some.inj hlines)
      obtain ⟨r, t', hr, hgrows⟩ := asks.ends hev hforms
      exact ⟨r, t', hr, hgrows⟩

theorem CallAsks.ends {function : Value} {args : List Value} {w : Value} {s t : State}
    (hask : CallAsks files ev function args s w t) {r : Value × Value} {s' : State}
    (h : call files ev function args s = some (r, s')) :
    ∃ r t', ev w t = some (r, t') ∧ Bindings.Grows t'.scope.root s'.scope.root := by
  cases hask with
  | builtin asks =>
      obtain ⟨v, s₁, hv, h⟩ := bind_eq_some_iff.mp h
      obtain ⟨-, rfl⟩ := Prod.mk.inj (Option.some.inj h)
      exact asks.ends hev hv
  | closure saturated =>
      simp only [call, saturated] at h
      obtain ⟨_, s₁, hentered, h⟩ := bind_eq_some_iff.mp h
      obtain ⟨-, rfl⟩ := Prod.mk.inj (Option.some.inj hentered)
      obtain ⟨v, s₂, hv, h⟩ := bind_eq_some_iff.mp h
      obtain ⟨own, s₃, hleft, h⟩ := bind_eq_some_iff.mp h
      obtain ⟨-, rfl⟩ := Prod.mk.inj (Option.some.inj hleft)
      obtain ⟨-, rfl⟩ := Prod.mk.inj (Option.some.inj h)
      refine ⟨v, s₂, hv, ?_⟩
      change Bindings.Grows s₂.scope.root s₂.scope.leave.2.root
      rw [Scope.root_leave]
      exact .refl _

theorem Asks.ends {v w : Value} {s t : State} (hask : Asks files ev v s w t) {r : Value} {s' : State}
    (h : reduce files ev v s = some (r, s')) :
    ∃ r t', ev w t = some (r, t') ∧ Bindings.Grows t'.scope.root s'.scope.root := by
  cases hask with
  | cell asks =>
      obtain ⟨values, s₁, hvalues, h⟩ := bind_eq_some_iff.mp h
      obtain ⟨r, t', hr, hgrows⟩ := asks.ends hev hvalues
      refine ⟨r, t', hr, hgrows.trans ?_⟩
      match values with
      | .error e => exact (Prod.mk.inj (Option.some.inj h)).2 ▸ .refl _
      | .ok values => exact (applyCells_grows hev values _ _ _ h).root
  | call values asks =>
      obtain ⟨values', s₁', hvalues, h⟩ := bind_eq_some_iff.mp h
      obtain ⟨rfl, rfl⟩ := Prod.mk.inj (Option.some.inj (values.symm.trans hvalues))
      obtain ⟨result, s₂, hcall, h⟩ := bind_eq_some_iff.mp h
      obtain ⟨-, rfl⟩ := Prod.mk.inj (Option.some.inj h)
      exact asks.ends hev hcall

end Ends

/-- All that is evaluated along the way has ended when the evaluation has, and what it bound outermost is kept. -/
theorem Invokes.ends {depth left : Nat} {v w : Value} {s t : State}
    (hinvokes : Invokes files depth v s left w t) {r : Value} {s' : State}
    (h : eval files depth v s = some (r, s')) :
    ∃ r t', eval files left w t = some (r, t') ∧ Bindings.Grows t'.scope.root s'.scope.root := by
  induction hinvokes generalizing r s' with
  | self => exact ⟨r, s', h, .refl _⟩
  | nested asks invokes ih =>
      obtain ⟨r₁, t₁, hr₁, hgrows₁⟩ := asks.ends (eval_grows files _) h
      obtain ⟨r₂, t₂, hr₂, hgrows₂⟩ := ih hr₁
      exact ⟨r₂, t₂, hr₂, hgrows₂.trans hgrows₁⟩

end BraceLisp
