import BraceLisp.Eval.Basic

/-!
# Evaluation and depth

Evaluation that comes to an end when it may nest to some depth comes to the same end when it may nest deeper,
so the depth decides only whether there is a result and never which. Every construct of the language passes
this property on from the evaluator it is given.
-/

namespace BraceLisp

namespace EvalM

/-- Wherever the first computation comes to an end, so does the second, with the same result and state. -/
def Below {α : Type} (m m' : EvalM α) : Prop :=
  ∀ s r, m s = some r → m' s = some r

/-- A computation agrees with itself. -/
theorem Below.refl {α : Type} (m : EvalM α) : m.Below m :=
  fun _ _ h => h

/-- Agreement passes from one computation to the next. -/
theorem Below.trans {α : Type} {m m' m'' : EvalM α} (h : m.Below m') (h' : m'.Below m'') : m.Below m'' :=
  fun s r hr => h' s r (h s r hr)

/-- Computations made of parts that agree agree. -/
theorem Below.bind {α β : Type} {m m' : EvalM α} {f f' : α → EvalM β} (hm : m.Below m')
    (hf : ∀ a, (f a).Below (f' a)) : EvalM.Below (m >>= f) (m' >>= f') := by
  intro s r hr
  simp only [Bind.bind, StateT.bind, Option.bind_eq_some_iff] at hr ⊢
  obtain ⟨p, hp, hr⟩ := hr
  exact ⟨p, hm _ _ hp, hf _ _ _ hr⟩

end EvalM

variable {ev ev' : Value → EvalM Value}

/-! ## Programs -/

/-- The values of forms one after another. -/
theorem evalEach_below (h : ∀ v, (ev v).Below (ev' v)) (forms : List Value) :
    (evalEach ev forms).Below (evalEach ev' forms) := by
  induction forms with
  | nil => exact .refl _
  | cons v rest ih => exact .bind (h v) fun _ => .bind ih fun _ => .refl _

/-- A program with its lines for errors. -/
theorem runProgram_below (h : ∀ v, (ev v).Below (ev' v)) (forms : List Value) :
    (runProgram ev forms).Below (runProgram ev' forms) :=
  .bind (evalEach_below h forms) fun _ => .refl _

/-! ## Builtins -/

namespace Builtin

/-- What a check lets through is passed on. -/
theorem guarded_below {α : Type} (check : Except Fault α) {go go' : α → EvalM Value}
    (h : ∀ x, (go x).Below (go' x)) : (guarded check go).Below (guarded check go') := by
  cases check with
  | ok x => exact h x
  | error fault => exact .refl _

/-- The forms of a file. -/
theorem loadFile_below (files : Files) (h : ∀ v, (ev v).Below (ev' v)) (path : Bytes) :
    (loadFile files ev path).Below (loadFile files ev' path) := by
  refine .bind (.refl _) fun parsed => ?_
  cases parsed with
  | error e => exact .refl _
  | ok parsed => exact .bind (runProgram_below h _) fun _ => .refl _

/-- Any builtin. -/
theorem apply_below (files : Files) (h : ∀ v, (ev v).Below (ev' v)) (b : Builtin) (args : List Value) :
    (b.apply files ev args).Below (b.apply files ev' args) := by
  cases b with
  | eval => exact guarded_below _ fun _ => h _
  | branch => exact guarded_below _ fun _ => h _
  | load => exact guarded_below _ fun _ => loadFile_below files h _
  | _ => exact .refl _

end Builtin

/-! ## Evaluation -/

/-- The cells of an S-expression. -/
theorem evalCells_below (h : ∀ v, (ev v).Below (ev' v)) (vs : List Value) :
    (evalCells ev vs).Below (evalCells ev' vs) := by
  induction vs with
  | nil => exact .refl _
  | cons v rest ih =>
      refine .bind (h v) fun r => ?_
      split
      · exact .refl _
      · exact .bind ih fun _ => .refl _

/-- A call. -/
theorem call_below (files : Files) (h : ∀ v, (ev v).Below (ev' v)) (function : Value) (args : List Value) :
    (call files ev function args).Below (call files ev' function args) := by
  cases function with
  | builtin b => exact .bind (Builtin.apply_below files h b args) fun _ => .refl _
  | closure formals body own entered =>
      simp only [call]
      split
      · exact .refl _
      · exact .refl _
      · exact .bind (.refl _) fun _ => .bind (h _) fun _ => .refl _
  | _ => exact .refl _

/-- One step of evaluation. -/
theorem reduce_below (files : Files) (h : ∀ v, (ev v).Below (ev' v)) (v : Value) :
    (reduce files ev v).Below (reduce files ev' v) := by
  cases v with
  | sexpr cells =>
      refine .bind (evalCells_below h cells) fun values => ?_
      match values with
      | .error e => exact .refl _
      | .ok [] => exact .refl _
      | .ok [v] => exact .refl _
      | .ok (function :: arg :: args) =>
          exact .bind (call_below files h function (arg :: args)) fun _ => .refl _
  | _ => exact .refl _

/-- One more level of depth changes no result. -/
theorem eval_below_succ (files : Files) (depth : Nat) (v : Value) :
    (eval files depth v).Below (eval files (depth + 1) v) := by
  induction depth generalizing v with
  | zero => exact fun _ _ h => nomatch h
  | succ depth ih => exact reduce_below files ih v

/-- More depth changes no result. -/
theorem eval_below_of_le (files : Files) {depth depth' : Nat} (h : depth ≤ depth') (v : Value) :
    (eval files depth v).Below (eval files depth' v) := by
  induction h with
  | refl => exact .refl _
  | step _ ih => exact ih.trans (eval_below_succ files _ v)

end BraceLisp
