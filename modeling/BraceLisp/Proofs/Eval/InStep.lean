import BraceLisp.Proofs.Eval.Frames

/-!
# Evaluation in step

Two evaluations of the same value can run in step with each other, in states that differ. A difference that is kept by
each single thing that programs do to a state is kept by their evaluation, and is not seen in what comes out of it.
What has to be shown of a difference is all in one structure; that evaluation keeps it follows once for all.
-/

namespace BraceLisp

/--
Programs do not see in which of two related states they run: names have the same values, files the same trees, and all
that programs do to the two states leaves them related.
-/
structure State.Unseen (files : Files) (related : State → State → Prop) : Prop where
  get? {s s' : State} (h : related s s') (name : Bytes) : s.scope.get? name = s'.scope.get? name
  define {s s' : State} (h : related s s') (bindings : List (Bytes × Value)) :
    related { s with scope := s.scope.define bindings } { s' with scope := s'.scope.define bindings }
  assign {s s' : State} (h : related s s') (bindings : List (Bytes × Value)) :
    related { s with scope := s.scope.assign bindings } { s' with scope := s'.scope.assign bindings }
  emit {s s' : State} (h : related s s') (text : Bytes) :
    related { s with output := s.output.add text } { s' with output := s'.output.add text }
  root {s s' : State} (h : related s s') (path : Bytes) :
    (s.cache.parseFile files path).1.map ParsedFile.root = (s'.cache.parseFile files path).1.map ParsedFile.root
  parseFile {s s' : State} (h : related s s') (path : Bytes) :
    related { s with cache := (s.cache.parseFile files path).2 } { s' with cache := (s'.cache.parseFile files path).2 }
  enter {s s' : State} (h : related s s') (frame : Frame) :
    related { s with scope := s.scope.enter frame } { s' with scope := s'.scope.enter frame }
  leave {s s' t t' : State} (h : related s s') (inside : related t t') (spared : s.scope.Spared t.scope.leave.2)
    (spared' : s'.scope.Spared t'.scope.leave.2) :
    related { t with scope := t.scope.leave.2 } { t' with scope := t'.scope.leave.2 }

namespace EvalM

variable {α α' β β' : Type} {R : State → State → Prop}

/-! ## Computations that run in step -/

/--
From related states, either both computations come to an end, with related results and in related states, or neither
does.
-/
def InStep (R : State → State → Prop) (related : α → α' → Prop) (m : EvalM α) (m' : EvalM α') : Prop :=
  ∀ s s', R s s' → Option.Rel (fun x x' => related x.1 x'.1 ∧ R x.2 x'.2) (m s) (m' s')

theorem InStep.outcome {related : α → α' → Prop} {m : EvalM α} {m' : EvalM α'} (h : InStep R related m m')
    {s s' : State} (hstates : R s s') :
    (m s = none ∧ m' s' = none) ∨
      ∃ a t a' t', m s = some (a, t) ∧ m' s' = some (a', t') ∧ related a a' ∧ R t t' := by
  have hrel := h s s' hstates
  generalize m s = outcome, m' s' = outcome' at hrel
  cases hrel with
  | none => exact .inl ⟨rfl, rfl⟩
  | some h => exact .inr ⟨_, _, _, _, rfl, rfl, h⟩

theorem inStep_pure {related : α → α' → Prop} {a : α} {a' : α'} (h : related a a') :
    InStep R related (pure a) (pure a') :=
  fun _ _ hstates => .some ⟨h, hstates⟩

theorem InStep.bind {related : α → α' → Prop} {related' : β → β' → Prop} {m : EvalM α} {m' : EvalM α'}
    {f : α → EvalM β} {f' : α' → EvalM β'} (hm : InStep R related m m')
    (hf : ∀ a a', related a a' → InStep R related' (f a) (f' a')) :
    InStep R related' (m >>= f) (m' >>= f') := by
  intro s s' hstates
  simp only [Bind.bind, StateT.bind]
  rcases hm.outcome hstates with ⟨hs, hs'⟩ | ⟨a, t, a', t', hs, hs', hrelated, hstates⟩
  · rw [hs, hs']
    exact .none
  · rw [hs, hs']
    exact hf a a' hrelated t t' hstates

/-- Computations with the same result go on in step if what follows does. -/
theorem InStep.bind_eq {related : β → β' → Prop} {m m' : EvalM α} {f : α → EvalM β} {f' : α → EvalM β'}
    (hm : InStep R Eq m m') (hf : ∀ a, InStep R related (f a) (f' a)) : InStep R related (m >>= f) (m' >>= f') := by
  refine hm.bind fun a a' ha => ?_
  subst ha
  exact hf a

theorem below_apply (m : EvalM α) (finish : α → Frame → β) (frame : Frame) (s : State) :
    (enter frame >>= fun _ => m >>= fun a => leave >>= fun own => pure (finish a own)) s =
      (m { s with scope := s.scope.enter frame }).map fun x =>
        (finish x.1 x.2.scope.leave.1, { x.2 with scope := x.2.scope.leave.2 }) := by
  have hentered : enter frame s = some ((), { s with scope := s.scope.enter frame }) := rfl
  simp only [Bind.bind, StateT.bind, hentered, Option.bind_some]
  cases m { s with scope := s.scope.enter frame } with
  | none => rfl
  | some x => rfl

end EvalM

open EvalM

/-! ## Evaluation -/

variable {files : Files} {R : State → State → Prop} {ev : Value → EvalM Value}

theorem guarded_inStep {α : Type} (check : Except Fault α) {go : α → EvalM Value}
    (h : ∀ x, InStep R Eq (go x) (go x)) : InStep R Eq (Builtin.guarded check go) (Builtin.guarded check go) := by
  cases check with
  | ok x => exact h x
  | error fault => exact inStep_pure rfl

section Unseen

variable (hunseen : State.Unseen files R)

include hunseen

theorem lookup_inStep (name : Bytes) : InStep R Eq (lookup name) (lookup name) := by
  intro s s' hstates
  simp only [lookup, bind, StateT.bind, get, getThe, MonadStateOf.get, StateT.get, pure, Option.bind_some]
  rw [hunseen.get? hstates name]
  cases s'.scope.get? name with
  | some v => exact .some ⟨rfl, hstates⟩
  | none => exact .some ⟨rfl, hstates⟩

theorem emit_inStep (text : Bytes) : InStep R Eq (emit text) (emit text) :=
  fun _ _ hstates => .some ⟨rfl, hunseen.emit hstates text⟩

/-- What runs in step below a frame, hung there and taken away again, runs in step with the frame. -/
theorem InStep.below {α β : Type} {m : EvalM α} {finish : α → Frame → β} {related : β → β → Prop}
    (hm : InStep R Eq m m) (hgrows : m.Grows) (hfinish : ∀ a own own', related (finish a own) (finish a own'))
    (frame : Frame) :
    InStep R related (enter frame >>= fun _ => m >>= fun a => leave >>= fun own => pure (finish a own))
      (enter frame >>= fun _ => m >>= fun a => leave >>= fun own => pure (finish a own)) := by
  intro s s' hstates
  rw [below_apply, below_apply]
  rcases hm.outcome (hunseen.enter hstates frame) with ⟨ht, ht'⟩ | ⟨a, t, a', t', ht, ht', rfl, hinside⟩
  · rw [ht, ht']
    exact .none
  · rw [ht, ht']
    exact .some ⟨hfinish _ _ _, hunseen.leave hstates hinside (hgrows _ _ _ ht).leave (hgrows _ _ _ ht').leave⟩

section Step

variable (hev : ∀ v, InStep R Eq (ev v) (ev v))

include hev

omit hunseen in
theorem evalEach_inStep (forms : List Value) : InStep R Eq (evalEach ev forms) (evalEach ev forms) := by
  induction forms with
  | nil => exact inStep_pure rfl
  | cons v rest ih => exact (hev v).bind_eq fun r => ih.bind_eq fun rs => inStep_pure rfl

theorem runProgram_inStep (forms : List Value) : InStep R Eq (runProgram ev forms) (runProgram ev forms) :=
  (evalEach_inStep hev forms).bind_eq fun _ => emit_inStep hunseen _

/-- Files have the same trees in both runs, though they may have been parsed at different times. -/
theorem loadFile_inStep (path : Bytes) :
    InStep R Eq (Builtin.loadFile files ev path) (Builtin.loadFile files ev path) := by
  have hparse : InStep R (fun parsed parsed' => parsed.map ParsedFile.root = parsed'.map ParsedFile.root)
      (parseFile files path) (parseFile files path) :=
    fun _ _ hstates => .some ⟨hunseen.root hstates path, hunseen.parseFile hstates path⟩
  refine hparse.bind fun parsed parsed' hroot => ?_
  cases parsed with
  | error e =>
      cases parsed' with
      | error e' =>
          obtain rfl := Except.error.inj hroot
          exact inStep_pure rfl
      | ok parsed' => cases hroot
  | ok parsed =>
      cases parsed' with
      | error e' => cases hroot
      | ok parsed' =>
          have hforms : parsed.root = parsed'.root := Except.ok.inj hroot
          simp only [hforms]
          exact (runProgram_inStep hunseen hev _).bind fun _ _ _ => inStep_pure rfl

theorem apply_inStep (b : Builtin) (args : List Value) :
    InStep R Eq (b.apply files ev args) (b.apply files ev args) := by
  cases b with
  | operation op => exact guarded_inStep _ fun _ => inStep_pure rfl
  | eval => exact guarded_inStep _ fun _ => hev _
  | branch => exact guarded_inStep _ fun _ => hev _
  | define =>
      refine guarded_inStep _ fun bindings => ?_
      have hdefine : InStep R Eq (modifyScope fun scope => scope.define bindings)
          (modifyScope fun scope => scope.define bindings) :=
        fun _ _ hstates => .some ⟨rfl, hunseen.define hstates bindings⟩
      exact hdefine.bind_eq fun _ => inStep_pure rfl
  | assign =>
      refine guarded_inStep _ fun bindings => ?_
      have hassign : InStep R Eq (modifyScope fun scope => scope.assign bindings)
          (modifyScope fun scope => scope.assign bindings) :=
        fun _ _ hstates => .some ⟨rfl, hunseen.assign hstates bindings⟩
      exact hassign.bind_eq fun _ => inStep_pure rfl
  | print => exact (emit_inStep hunseen _).bind_eq fun _ => inStep_pure rfl
  | load => exact guarded_inStep _ fun path => loadFile_inStep hunseen hev path

omit hunseen in
theorem evalCells_inStep (cells : List Value) : InStep R Eq (evalCells ev cells) (evalCells ev cells) := by
  induction cells with
  | nil => exact inStep_pure rfl
  | cons v rest ih =>
      refine (hev v).bind_eq fun r => ?_
      split
      · exact inStep_pure rfl
      · refine ih.bind_eq fun values => ?_
        cases values with
        | ok rs => exact inStep_pure rfl
        | error e => exact inStep_pure rfl

variable (hgrows : ∀ v, (ev v).Grows)

include hgrows

/-- Calls have the same result in both runs; the frame that a call leaves behind in the function need not agree. -/
theorem call_inStep (function : Value) (args : List Value) :
    InStep R (fun x x' => x.1 = x'.1) (call files ev function args) (call files ev function args) := by
  cases function with
  | builtin b => exact (apply_inStep hunseen hev b args).bind fun _ _ hresult => inStep_pure hresult
  | closure formals body own entered =>
      simp only [call]
      split
      · exact inStep_pure rfl
      · exact inStep_pure rfl
      · exact InStep.below hunseen (hev _) (hgrows _) (fun _ _ _ => rfl) _
  | _ => exact inStep_pure rfl

theorem applyCells_inStep (values : List Value) :
    InStep R Eq (applyCells files ev values) (applyCells files ev values) := by
  match values with
  | [] => exact inStep_pure rfl
  | [v] => exact inStep_pure rfl
  | function :: arg :: args =>
      exact (call_inStep hunseen hev hgrows function (arg :: args)).bind fun _ _ hresult => inStep_pure hresult

theorem reduce_inStep (v : Value) : InStep R Eq (reduce files ev v) (reduce files ev v) := by
  cases v with
  | symbol name => exact lookup_inStep hunseen name
  | sexpr cells =>
      refine (evalCells_inStep hev cells).bind_eq fun values => ?_
      cases values with
      | error e => exact inStep_pure rfl
      | ok values => exact applyCells_inStep hunseen hev hgrows values
  | _ => exact inStep_pure rfl

end Step

/-- Evaluation runs in step with itself in two related states, to the same depth. -/
theorem eval_inStep (depth : Nat) (v : Value) : InStep R Eq (eval files depth v) (eval files depth v) := by
  induction depth generalizing v with
  | zero => exact fun _ _ _ => .none
  | succ depth ih => exact reduce_inStep hunseen ih (eval_grows files depth) v

end Unseen

end BraceLisp
