import BraceLisp.Eval.Depth
import BraceLisp.Proofs.Eval.Arithmetic
import BraceLisp.Proofs.Eval.Calls
import BraceLisp.Proofs.Value.Part

/-!
# Evaluation that comes to an end and leaves nothing behind

A value yields a result in a scope if its evaluation there comes to an end with that result, prints nothing and binds
nothing, whatever has been printed before. Files may be parsed on the way, so there is a condition on the parsed files
that are kept: what holds of them before holds of them again afterwards.

How deep evaluation has to nest is said nowhere. Each construct of the language has a rule that puts together what its
parts yield, and evaluation may nest as deep as the deepest of them.
-/

namespace BraceLisp

/-- A value that evaluation can return is its own value. -/
theorem eval_of_isNormal {v : Value} (h : v.isNormal) (files : Files) (depth : Nat) (s : State) :
    eval files (depth + 1) v s = some (v, s) := by
  cases v with
  | symbol name => cases h
  | sexpr cells =>
      cases cells with
      | nil => rfl
      | cons c rest => cases h
  | _ => rfl

theorem eval_symbol {name : Bytes} {v : Value} {s : State} (h : s.scope.get? name = some v) (files : Files)
    (depth : Nat) : eval files (depth + 1) (.symbol name) s = some (v, s) := by
  refine EvalM.bind_eq_some_iff.mpr ⟨s, s, rfl, ?_⟩
  simp only [h]
  rfl

/-- Parentheses around a single value cost a level of depth and change nothing else. -/
theorem eval_sexpr_singleton (files : Files) (depth : Nat) (v : Value) :
    eval files (depth + 1) (.sexpr [v]) = eval files depth v := by
  rw [eval, reduce, evalCells]
  simp only [bind_assoc]
  refine (bind_congr fun r => ?_).trans (bind_pure _)
  cases hr : r.isError with
  | true => simp
  | false => simp [evalCells, applyCells]

/-! ## Computations that need some depth -/

namespace EvalM

variable {α β : Type} {caches : ParseCache → Prop} {scope : Scope}

/-- Where a computation comes to an end with some depth, it comes to the same end with more. -/
def Deepens (m : Nat → EvalM α) : Prop :=
  ∀ depth depth', depth ≤ depth' → (m depth).Below (m depth')

/--
With enough depth a computation in a scope comes to an end and has a result. It leaves the scope and what has been
printed as they are, and parsed files of which the condition holds if it held of those before.
-/
def Returns (caches : ParseCache → Prop) (scope : Scope) (m : Nat → EvalM α) (a : α) : Prop :=
  ∀ output cache, caches cache →
    ∃ depth left, caches left ∧ m depth ⟨scope, output, cache⟩ = some (a, ⟨scope, output, left⟩)

theorem returns_pure (a : α) : Returns caches scope (fun _ => pure a) a :=
  fun _ cache hcache => ⟨0, cache, hcache, rfl⟩

/-- Of two computations in a row, each has what depth it needs when both have the greater of the two. -/
theorem Returns.bind {m : Nat → EvalM α} {f : α → Nat → EvalM β} {a : α} {b : β} (hm : Returns caches scope m a)
    (hf : Returns caches scope (f a) b) (hmDeepens : Deepens m) (hfDeepens : Deepens (f a)) :
    Returns caches scope (fun depth => m depth >>= fun x => f x depth) b := by
  intro output cache hcache
  obtain ⟨first, between, hbetween, ha⟩ := hm output cache hcache
  obtain ⟨second, left, hleft, hb⟩ := hf output between hbetween
  refine ⟨max first second, left, hleft, bind_eq_some_iff.mpr ⟨a, ⟨scope, output, between⟩, ?_, ?_⟩⟩
  · exact hmDeepens _ _ (Nat.le_max_left first second) _ _ ha
  · exact hfDeepens _ _ (Nat.le_max_right first second) _ _ hb

/-- What a computation comes to does not hang on the depth. -/
theorem Returns.eq {m : Nat → EvalM α} {a b : α} (ha : Returns caches scope m a) (hb : Returns caches scope m b)
    (hm : Deepens m) (hcaches : ∃ cache, caches cache) : a = b := by
  obtain ⟨cache, hcache⟩ := hcaches
  obtain ⟨first, left, -, hfirst⟩ := ha default cache hcache
  obtain ⟨second, left', -, hsecond⟩ := hb default cache hcache
  have hfirst' := hm _ _ (Nat.le_max_left first second) _ _ hfirst
  have hsecond' := hm _ _ (Nat.le_max_right first second) _ _ hsecond
  exact (Prod.mk.inj (Option.some.inj (hfirst'.symm.trans hsecond'))).1

end EvalM

open EvalM

section Deepens

variable (files : Files)

theorem eval_deepens (v : Value) : Deepens fun depth => eval files depth v :=
  fun _ _ h => eval_below_of_le files h v

theorem evalCells_deepens (cells : List Value) : Deepens fun depth => evalCells (eval files depth) cells :=
  fun _ _ h => evalCells_below (eval_below_of_le files h) cells

theorem call_deepens (function : Value) (args : List Value) :
    Deepens fun depth => do return (← call files (eval files depth) function args).1 :=
  fun _ _ h => .bind (call_below files (eval_below_of_le files h) function args) fun _ => .refl _

end Deepens

/-! ## What values yield -/

namespace Scope

variable (files : Files) (caches : ParseCache → Prop) (scope : Scope)

/-- Evaluation of a value in a scope comes to an end with a result, and leaves nothing else behind. -/
def Yields (v r : Value) : Prop :=
  Returns caches scope (fun depth => eval files depth v) r

inductive YieldsEach : List Value → List Value → Prop where
  | nil : YieldsEach [] []
  | cons {v r : Value} {vs rs : List Value} (value : scope.Yields files caches v r) (noError : r.isError = false)
      (rest : YieldsEach vs rs) : YieldsEach (v :: vs) (r :: rs)

/-- A function that is called from a scope returns a result, and leaves nothing else behind. -/
def Calls (function : Value) (args : List Value) (r : Value) : Prop :=
  Returns caches scope (fun depth => do return (← call files (eval files depth) function args).1) r

end Scope

namespace Scope

variable {files : Files} {caches : ParseCache → Prop} {scope : Scope}

theorem yields_of_reduce {v r : Value}
    (h : Returns caches scope (fun depth => reduce files (eval files depth) v) r) : scope.Yields files caches v r := by
  intro output cache hcache
  obtain ⟨depth, left, hleft, hr⟩ := h output cache hcache
  exact ⟨depth + 1, left, hleft, hr⟩

theorem yields_self {v : Value} (h : v.isNormal) : scope.Yields files caches v v :=
  fun output cache hcache => ⟨1, cache, hcache, eval_of_isNormal h files 0 ⟨scope, output, cache⟩⟩

theorem yields_symbol {name : Bytes} {v : Value} (h : scope.get? name = some v) :
    scope.Yields files caches (.symbol name) v :=
  fun output cache hcache => ⟨1, cache, hcache, eval_symbol (s := ⟨scope, output, cache⟩) h files 0⟩

theorem yields_singleton {v r : Value} (h : scope.Yields files caches v r) :
    scope.Yields files caches (.sexpr [v]) r := by
  intro output cache hcache
  obtain ⟨depth, left, hleft, hr⟩ := h output cache hcache
  exact ⟨depth + 1, left, hleft, (congrFun (eval_sexpr_singleton files depth v) _).trans hr⟩

/-! ## Cells -/

theorem YieldsEach.returns {cells values : List Value} (h : scope.YieldsEach files caches cells values) :
    Returns caches scope (fun depth => evalCells (eval files depth) cells) (.ok values) := by
  induction h with
  | nil => exact returns_pure _
  | @cons v r vs rs value noError rest ih =>
      refine value.bind ?_ (eval_deepens files v) ?_
      · simp only [noError, Bool.false_eq_true, if_false]
        exact ih.bind (returns_pure _) (evalCells_deepens files vs) fun _ _ _ => .refl _
      · simp only [noError, Bool.false_eq_true, if_false]
        exact fun _ _ hle => .bind (evalCells_deepens files vs _ _ hle) fun _ => .refl _

/-- Values that can be bound are their own results. -/
theorem yieldsEach_self {vs : List Value} (h : ∀ v ∈ vs, v.isSettled) : scope.YieldsEach files caches vs vs := by
  induction vs with
  | nil => exact .nil
  | cons v vs ih =>
      obtain ⟨hv, hrest⟩ := List.forall_mem_cons.mp h
      exact .cons (yields_self (Value.isNormal_of_isSettled hv)) (Value.isError_of_isSettled hv) (ih hrest)

/-- The cells behind the first error are not looked at. -/
theorem returns_error {before rs : List Value} (hbefore : scope.YieldsEach files caches before rs) {v e : Value}
    (hv : scope.Yields files caches v e) (he : e.isError = true) (after : List Value) :
    Returns caches scope (fun depth => evalCells (eval files depth) (before ++ v :: after)) (.error e) := by
  induction hbefore with
  | nil =>
      refine hv.bind ?_ (eval_deepens files v) ?_
      · simp only [he, if_true]
        exact returns_pure _
      · simp only [he, if_true]
        exact fun _ _ _ => .refl _
  | @cons w r ws rs value noError rest ih =>
      refine value.bind ?_ (eval_deepens files w) ?_
      · simp only [noError, Bool.false_eq_true, if_false]
        exact ih.bind (returns_pure _) (evalCells_deepens files _) fun _ _ _ => .refl _
      · simp only [noError, Bool.false_eq_true, if_false]
        exact fun _ _ hle => .bind (evalCells_deepens files _ _ _ hle) fun _ => .refl _

/-- An S-expression yields what comes of the call of its first cell with the others. -/
theorem yields_call {cells args : List Value} {function arg r : Value}
    (hcells : scope.YieldsEach files caches cells (function :: arg :: args))
    (hcall : scope.Calls files caches function (arg :: args) r) : scope.Yields files caches (.sexpr cells) r :=
  yields_of_reduce (hcells.returns.bind hcall (evalCells_deepens files cells)
    (call_deepens files function (arg :: args)))

theorem yields_error {before rs : List Value} (hbefore : scope.YieldsEach files caches before rs) {v e : Value}
    (hv : scope.Yields files caches v e) (he : e.isError = true) (after : List Value) :
    scope.Yields files caches (.sexpr (before ++ v :: after)) e :=
  yields_of_reduce ((returns_error hbefore hv he after).bind (returns_pure e) (evalCells_deepens files _)
    fun _ _ _ => .refl _)

/-! ## Calls -/

theorem calls_builtin {b : Builtin} {args : List Value} {r : Value}
    (h : Returns caches scope (fun depth => b.apply files (eval files depth) args) r) :
    scope.Calls files caches (.builtin b) args r := by
  intro output cache hcache
  obtain ⟨depth, left, hleft, hr⟩ := h output cache hcache
  refine ⟨depth, left, hleft, bind_eq_some_iff.mpr ⟨(r, Value.builtin b), ⟨scope, output, left⟩, ?_, rfl⟩⟩
  exact bind_eq_some_iff.mpr ⟨r, _, hr, rfl⟩

theorem calls_operation {op : Operation} {args : List Value} {r : Value} (h : op.compute args = .ok r) :
    scope.Calls files caches (.builtin (.operation op)) args r :=
  calls_builtin fun _ cache hcache => ⟨0, cache, hcache, Builtin.apply_operation_of_ok files _ _ h⟩

theorem calls_operation_of_error {op : Operation} {args : List Value} {fault : Fault}
    (h : op.compute args = .error fault) : scope.Calls files caches (.builtin (.operation op)) args fault.toValue :=
  calls_builtin fun _ cache hcache => ⟨0, cache, hcache, Builtin.apply_operation_of_error files _ _ h⟩

theorem calls_eval {code : List Value} {r : Value} (h : scope.Yields files caches (.sexpr code) r) :
    scope.Calls files caches (.builtin .eval) [.qexpr code] r :=
  calls_builtin h

theorem calls_branch {n : Int64} {yes no : List Value} {r : Value}
    (h : scope.Yields files caches (.sexpr (if n = 0 then no else yes)) r) :
    scope.Calls files caches (.builtin .branch) [.number n, .qexpr yes, .qexpr no] r :=
  calls_builtin h

/-- A closure that has all its arguments returns what its body yields in the frame of their bindings. -/
theorem calls_closure {formals body r : Value} {own bound : Frame} {entered : Bool} {args : List Value}
    (hbound : Bound.ofCall formals.cells args own = .saturated bound)
    (hbody : (scope.enter bound).Yields files caches (.sexpr body.cells) r) :
    scope.Calls files caches (.closure formals body own entered) args r := by
  intro output cache hcache
  obtain ⟨depth, left, hleft, hr⟩ := hbody output cache hcache
  have hcall : call files (eval files depth) (.closure formals body own entered) args ⟨scope, output, cache⟩ =
      some ((r, .closure (formals.withCells []) body bound true), ⟨scope, output, left⟩) := by
    rw [call_of_saturated files _ body entered hbound]
    exact congrArg (Option.map _) hr
  exact ⟨depth, left, hleft, bind_eq_some_iff.mpr ⟨_, _, hcall, rfl⟩⟩

end Scope

/-! ## Cells that leave something behind -/

section Cells

variable {files : Files} {s t : State}

/-- The cells of an S-expression are evaluated like the forms of a program, as long as none of them gives an error. -/
theorem evalCells_of_evalEach {ev : Value → EvalM Value} {forms rs : List Value}
    (h : evalEach ev forms s = some (rs, t)) (hrs : ∀ r ∈ rs, r.isError = false) :
    evalCells ev forms s = some (.ok rs, t) := by
  induction forms generalizing s rs with
  | nil =>
      obtain ⟨rfl, rfl⟩ := Prod.mk.inj (Option.some.inj h)
      rfl
  | cons v rest ih =>
      obtain ⟨r, s₁, hv, h⟩ := bind_eq_some_iff.mp h
      obtain ⟨rs, s₂, hrest, h⟩ := bind_eq_some_iff.mp h
      obtain ⟨rfl, rfl⟩ := Prod.mk.inj (Option.some.inj h)
      obtain ⟨hr, hrs⟩ := List.forall_mem_cons.mp hrs
      refine bind_eq_some_iff.mpr ⟨r, s₁, hv, ?_⟩
      rw [hr, if_neg Bool.false_ne_true]
      exact bind_eq_some_iff.mpr ⟨.ok rs, s₂, ih hrest hrs, rfl⟩

/-- A function is called in the state that its arguments have left. -/
theorem eval_sexpr_of_calls {depth : Nat} {cells args : List Value} {function arg r : Value}
    (hcells : evalEach (eval files depth) cells s = some (function :: arg :: args, t))
    (hvalues : ∀ v ∈ function :: arg :: args, v.isError = false)
    (hcall : t.scope.Calls files (· = t.cache) function (arg :: args) r) :
    ∃ depth', eval files depth' (.sexpr cells) s = some (r, t) := by
  obtain ⟨inner, left, rfl, hcall⟩ := hcall t.output t.cache rfl
  have hevaluated := evalCells_of_evalEach hcells hvalues
  refine ⟨max depth inner + 1, bind_eq_some_iff.mpr ⟨.ok (function :: arg :: args), t, ?_, ?_⟩⟩
  · exact evalCells_deepens files cells _ _ (Nat.le_max_left depth inner) _ _ hevaluated
  · exact call_deepens files function (arg :: args) _ _ (Nat.le_max_right depth inner) _ _ hcall

end Cells

end BraceLisp
