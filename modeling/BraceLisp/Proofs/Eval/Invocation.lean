import BraceLisp.Eval.Basic

/-!
# What is evaluated along the way

The evaluation of a value asks for the evaluation of others: of the cells of an S-expression, of the code given
to a builtin, of the forms of a file, of the body of a closure. Each of them is evaluated in a state of its own,
the one that the evaluations before it have left. The relations below follow the evaluator from each of these to
the next, also where the evaluation as a whole never comes to an end.

That none is left out is shown by changing the evaluator: a step of evaluation has the same outcome with every
evaluator that agrees on what the step asks for.
-/

namespace BraceLisp

namespace EvalM

variable {α β : Type}

@[simp]
theorem pure_apply (a : α) (s : State) : (pure a : EvalM α) s = some (a, s) := rfl

theorem bind_eq_some_iff {m : EvalM α} {f : α → EvalM β} {s : State} {r : β × State} :
    (m >>= f) s = some r ↔ ∃ a s₁, m s = some (a, s₁) ∧ f a s₁ = some r := by
  simp only [Bind.bind, StateT.bind, Option.bind_eq_some_iff, Prod.exists]

theorem bind_congr_right {m : EvalM α} {f g : α → EvalM β} {s : State}
    (h : ∀ a s₁, m s = some (a, s₁) → f a s₁ = g a s₁) : (m >>= f) s = (m >>= g) s := by
  cases hm : m s with
  | none => simp only [Bind.bind, StateT.bind, hm, Option.bind_none]
  | some r =>
      simp only [Bind.bind, StateT.bind, hm, Option.bind_some]
      exact h r.1 r.2 hm

theorem bind_congr {m m' : EvalM α} {f g : α → EvalM β} {s : State} (hm : m s = m' s)
    (h : ∀ a s₁, m s = some (a, s₁) → f a s₁ = g a s₁) : (m >>= f) s = (m' >>= g) s := by
  rw [bind_congr_right h]
  simp only [Bind.bind, StateT.bind, hm]

end EvalM

/-! ## One step -/

variable (files : Files) (ev : Value → EvalM Value)

/-- While cells are evaluated from the left, up to the first error, a value is evaluated in a state. -/
inductive CellsAsk : List Value → State → Value → State → Prop where
  | first {v : Value} {rest : List Value} {s : State} : CellsAsk (v :: rest) s v s
  | later {v r w : Value} {rest : List Value} {s s₁ t : State} (value : ev v s = some (r, s₁))
      (noError : r.isError = false) (asks : CellsAsk rest s₁ w t) : CellsAsk (v :: rest) s w t

inductive FormsAsk : List Value → State → Value → State → Prop where
  | first {v : Value} {rest : List Value} {s : State} : FormsAsk (v :: rest) s v s
  | later {v r w : Value} {rest : List Value} {s s₁ t : State} (value : ev v s = some (r, s₁))
      (asks : FormsAsk rest s₁ w t) : FormsAsk (v :: rest) s w t

inductive BuiltinAsks : Builtin → List Value → State → Value → State → Prop where
  | eval {args code : List Value} {s : State}
      (checked : Arguments.oneList Builtin.eval.name args = .ok code) :
      BuiltinAsks .eval args s (.sexpr code) s
  | branch {args code : List Value} {s : State} (checked : Builtin.chooseBranch args = .ok code) :
      BuiltinAsks .branch args s (.sexpr code) s
  | load {args : List Value} {path : Bytes} {parsed : ParsedFile} {w : Value} {s s₁ t : State}
      (checked : Arguments.oneString Builtin.load.name args = .ok path)
      (found : EvalM.parseFile files path s = some (.ok parsed, s₁))
      (asks : FormsAsk ev parsed.root.program s₁ w t) : BuiltinAsks .load args s w t

inductive CallAsks : Value → List Value → State → Value → State → Prop where
  | builtin {b : Builtin} {args : List Value} {w : Value} {s t : State}
      (asks : BuiltinAsks files ev b args s w t) : CallAsks (.builtin b) args s w t
  | closure {formals body : Value} {own bound : Frame} {entered : Bool} {args : List Value} {s : State}
      (saturated : Bound.ofCall formals.cells args own = .saturated bound) :
      CallAsks (.closure formals body own entered) args s (.sexpr body.cells)
        { s with scope := s.scope.enter bound }

inductive Asks : Value → State → Value → State → Prop where
  | cell {cells : List Value} {w : Value} {s t : State} (asks : CellsAsk ev cells s w t) :
      Asks (.sexpr cells) s w t
  | call {cells args : List Value} {function arg w : Value} {s s₁ t : State}
      (values : evalCells ev cells s = some (.ok (function :: arg :: args), s₁))
      (asks : CallAsks files ev function (arg :: args) s₁ w t) : Asks (.sexpr cells) s w t

/--
Evaluation of a value that may nest to a given depth comes to the evaluation of another, which may nest to the
depth that is left. The value itself is the first.
-/
inductive Invokes : Nat → Value → State → Nat → Value → State → Prop where
  | self {depth : Nat} {v : Value} {s : State} : Invokes depth v s depth v s
  | nested {depth left : Nat} {v w x : Value} {s t u : State}
      (asks : Asks files (eval files depth) v s w t) (invokes : Invokes depth w t left x u) :
      Invokes (depth + 1) v s left x u

/-! ## Nothing is left out -/

variable {files ev} {ev' : Value → EvalM Value}

theorem evalCells_congr {cells : List Value} {s : State}
    (h : ∀ w t, CellsAsk ev cells s w t → ev w t = ev' w t) : evalCells ev cells s = evalCells ev' cells s := by
  induction cells generalizing s with
  | nil => rfl
  | cons v rest ih =>
      refine EvalM.bind_congr (h v s .first) fun r s₁ hr => ?_
      split
      · rfl
      · rename_i hnoError
        have hrest : evalCells ev rest s₁ = evalCells ev' rest s₁ :=
          ih fun w t hask => h w t (.later hr (by simpa using hnoError) hask)
        exact EvalM.bind_congr hrest fun _ _ _ => rfl

theorem evalEach_congr {forms : List Value} {s : State}
    (h : ∀ w t, FormsAsk ev forms s w t → ev w t = ev' w t) : evalEach ev forms s = evalEach ev' forms s := by
  induction forms generalizing s with
  | nil => rfl
  | cons v rest ih =>
      refine EvalM.bind_congr (h v s .first) fun r s₁ hr => ?_
      have hrest : evalEach ev rest s₁ = evalEach ev' rest s₁ :=
        ih fun w t hask => h w t (.later hr hask)
      exact EvalM.bind_congr hrest fun _ _ _ => rfl

theorem apply_congr {b : Builtin} {args : List Value} {s : State}
    (h : ∀ w t, BuiltinAsks files ev b args s w t → ev w t = ev' w t) :
    b.apply files ev args s = b.apply files ev' args s := by
  cases b with
  | eval =>
      simp only [Builtin.apply, Builtin.guarded]
      cases hchecked : Arguments.oneList Builtin.eval.name args with
      | error fault => rfl
      | ok code => exact h _ _ (.eval hchecked)
  | branch =>
      simp only [Builtin.apply, Builtin.guarded]
      cases hchecked : Builtin.chooseBranch args with
      | error fault => rfl
      | ok code => exact h _ _ (.branch hchecked)
  | load =>
      simp only [Builtin.apply, Builtin.guarded]
      cases hchecked : Arguments.oneString Builtin.load.name args with
      | error fault => rfl
      | ok path =>
          refine EvalM.bind_congr_right fun parsed s₁ hfound => ?_
          cases parsed with
          | error e => rfl
          | ok parsed =>
              have hforms : evalEach ev parsed.root.program s₁ = evalEach ev' parsed.root.program s₁ :=
                evalEach_congr fun w t hask => h w t (.load hchecked hfound hask)
              exact EvalM.bind_congr (EvalM.bind_congr hforms fun _ _ _ => rfl) fun _ _ _ => rfl
  | _ => rfl

theorem call_congr {function : Value} {args : List Value} {s : State}
    (h : ∀ w t, CallAsks files ev function args s w t → ev w t = ev' w t) :
    call files ev function args s = call files ev' function args s := by
  cases function with
  | builtin b =>
      have hb : b.apply files ev args s = b.apply files ev' args s :=
        apply_congr fun w t hask => h w t (.builtin hask)
      exact EvalM.bind_congr hb fun _ _ _ => rfl
  | closure formals body own entered =>
      simp only [call]
      cases hbound : Bound.ofCall formals.cells args own with
      | failed fault left own => rfl
      | waiting left own => rfl
      | saturated bound =>
          refine EvalM.bind_congr_right fun _ s₁ hentered => ?_
          obtain rfl : { s with scope := s.scope.enter bound } = s₁ := by
            injection hentered with hentered
            exact (Prod.mk.inj hentered).2
          exact EvalM.bind_congr (h _ _ (.closure hbound)) fun _ _ _ => rfl
  | _ => rfl

/-- A step of evaluation has the same outcome with evaluators that agree on what the step asks for. -/
theorem reduce_congr {v : Value} {s : State} (h : ∀ w t, Asks files ev v s w t → ev w t = ev' w t) :
    reduce files ev v s = reduce files ev' v s := by
  cases v with
  | sexpr cells =>
      have hcells : evalCells ev cells s = evalCells ev' cells s :=
        evalCells_congr fun w t hask => h w t (.cell hask)
      refine EvalM.bind_congr hcells fun values s₁ hvalues => ?_
      match values, hvalues with
      | .error e, _ => rfl
      | .ok [], _ => rfl
      | .ok [v], _ => rfl
      | .ok (function :: arg :: args), hvalues =>
          have hcall : call files ev function (arg :: args) s₁ = call files ev' function (arg :: args) s₁ :=
            call_congr fun w t hask => h w t (.call hvalues hask)
          exact EvalM.bind_congr hcall fun _ _ _ => rfl
  | _ => rfl

end BraceLisp
