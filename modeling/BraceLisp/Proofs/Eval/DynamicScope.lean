import BraceLisp.Eval.Depth
import BraceLisp.Proofs.Eval.InStep
import BraceLisp.Proofs.Files.ParseCache

/-!
# Dynamic scope

Evaluation sees the inner frames of its scope only through the values that they give to names: in two scopes over
the same outermost environment whose inner frames give every name the same value, or none, it does the same. How
the bindings are spread over the frames makes no difference.

The two evaluations run in step with each other. The relation that they keep is about the inner frames alone:
if it were about what names mean in the whole scope, a definition in the outermost environment could be
shadowed in one scope and not in the other.
-/

namespace BraceLisp

namespace Scope

/-! ## Scopes that resolve names alike -/

/-- Two scopes have the same outermost environment, and inner frames that give names the same values. -/
structure Alike (scope other : Scope) : Prop where
  root : scope.root = other.root
  inner_ne_nil : scope.inner ≠ []
  inner_ne_nil' : other.inner ≠ []
  resolve : ∀ name, getIn? name scope.inner = getIn? name other.inner

theorem getIn?_put (name key : Bytes) (v : Value) (frame : Frame) (rest : List Frame) :
    getIn? name (Bindings.put key v frame :: rest) = if key = name then some v else getIn? name (frame :: rest) := by
  by_cases hkey : key = name
  · subst hkey
    simp only [getIn?, Bindings.get?_put_self, if_true]
  · simp only [getIn?, Bindings.get?_put_of_ne hkey, hkey, if_false]

theorem getIn?_putAll {frame frame' : Frame} {rest rest' : List Frame}
    (h : ∀ name, getIn? name (frame :: rest) = getIn? name (frame' :: rest')) (bindings : List (Bytes × Value))
    (name : Bytes) :
    getIn? name (Bindings.putAll bindings frame :: rest) = getIn? name (Bindings.putAll bindings frame' :: rest') := by
  induction bindings generalizing frame frame' with
  | nil => exact h name
  | cons entry bindings ih =>
      refine ih fun other => ?_
      rw [getIn?_put, getIn?_put, h other]

namespace Alike

variable {scope other : Scope}

theorem get? (h : scope.Alike other) (name : Bytes) : scope.get? name = other.get? name := by
  rw [Scope.get?, Scope.get?, h.resolve name, h.root]

theorem define (h : scope.Alike other) (bindings : List (Bytes × Value)) :
    (scope.define bindings).Alike (other.define bindings) := by
  refine ⟨?_, h.inner_ne_nil, h.inner_ne_nil', h.resolve⟩
  rw [Scope.define, Scope.define, h.root]

theorem assign (h : scope.Alike other) (bindings : List (Bytes × Value)) :
    (scope.assign bindings).Alike (other.assign bindings) := by
  obtain ⟨inner, root⟩ := scope
  obtain ⟨inner', root'⟩ := other
  obtain ⟨hroot, hinner, hinner', hresolve⟩ := h
  cases inner with
  | nil => exact absurd rfl hinner
  | cons frame rest =>
      cases inner' with
      | nil => exact absurd rfl hinner'
      | cons frame' rest' =>
          exact ⟨hroot, List.cons_ne_nil _ _, List.cons_ne_nil _ _, getIn?_putAll hresolve bindings⟩

theorem enter (h : scope.Alike other) (frame : Frame) : (scope.enter frame).Alike (other.enter frame) := by
  refine ⟨h.root, List.cons_ne_nil _ _, List.cons_ne_nil _ _, fun name => ?_⟩
  simp only [Scope.enter, getIn?, h.resolve name]

/-- When only the outermost environments have changed, and both to the same, names are resolved alike as before. -/
theorem spared (h : scope.Alike other) {after after' : Scope} (hspared : scope.Spared after)
    (hspared' : other.Spared after') (hroot : after.root = after'.root) : after.Alike after' := by
  refine ⟨hroot, ?_, ?_, fun name => ?_⟩
  · rw [hspared.inner]
    exact h.inner_ne_nil
  · rw [hspared'.inner]
    exact h.inner_ne_nil'
  · rw [hspared.inner, hspared'.inner]
    exact h.resolve name

end Alike

end Scope

/-- Two states differ in how their scopes spread bindings over frames, and in nothing else that programs see. -/
structure State.Alike (files : Files) (s s' : State) : Prop where
  scope : s.scope.Alike s'.scope
  output : s.output = s'.output
  cache : s.cache.SameTrees files s'.cache

/-- Programs do not see how the bindings of inner frames are spread, nor change what the inner frames say of a name. -/
theorem State.unseen_alike (files : Files) : State.Unseen files (State.Alike files) where
  get? h name := h.scope.get? name
  define h bindings := ⟨h.scope.define bindings, h.output, h.cache⟩
  assign h bindings := ⟨h.scope.assign bindings, h.output, h.cache⟩
  emit h text := ⟨h.scope, congrArg (Output.add · text) h.output, h.cache⟩
  root h path := (h.cache.parseFile path).1
  parseFile h path := ⟨h.scope, h.output, (h.cache.parseFile path).2⟩
  enter h frame := ⟨h.scope.enter frame, h.output, h.cache⟩
  leave h inside hspared hspared' := by
    refine ⟨h.scope.spared hspared hspared' ?_, inside.output, inside.cache⟩
    rw [Scope.root_leave, Scope.root_leave, inside.scope.root]

open EvalM

/-! ## Evaluation -/

/-- Evaluation runs in step with itself in two states that are alike, to the same depth. -/
theorem eval_match (files : Files) (depth : Nat) (v : Value) :
    InStep (State.Alike files) Eq (eval files depth v) (eval files depth v) :=
  eval_inStep (State.unseen_alike files) depth v

/--
In two states that are alike a value can be evaluated in both or in neither, and then with the same result, the
same output and the same outermost environment, and the inner frames give names the same values again.
-/
theorem eval_of_alike (files : Files) {s s' : State} (halike : s.Alike files s') (v : Value) :
    ((∃ depth r t, eval files depth v s = some (r, t)) ↔ ∃ depth r t, eval files depth v s' = some (r, t)) ∧
    ∀ depth depth' r r' t t', eval files depth v s = some (r, t) → eval files depth' v s' = some (r', t') →
      r = r' ∧ t.Alike files t' := by
  refine ⟨⟨?_, ?_⟩, ?_⟩
  · rintro ⟨depth, r, t, hr⟩
    rcases (eval_match files depth v).outcome halike with ⟨hs, -⟩ | ⟨-, -, r', t', -, hr', -⟩
    · rw [hs] at hr
      cases hr
    · exact ⟨depth, r', t', hr'⟩
  · rintro ⟨depth, r', t', hr'⟩
    rcases (eval_match files depth v).outcome halike with ⟨-, hs'⟩ | ⟨r, t, -, -, hr, -⟩
    · rw [hs'] at hr'
      cases hr'
    · exact ⟨depth, r, t, hr⟩
  · intro depth depth' r r' t t' hr hr'
    -- Both evaluations come to the same ends when they may nest to the greater of the two depths.
    have hdeep := eval_below_of_le files (Nat.le_max_left depth depth') v s _ hr
    have hdeep' := eval_below_of_le files (Nat.le_max_right depth depth') v s' _ hr'
    rcases (eval_match files (max depth depth') v).outcome halike with ⟨hs, -⟩ | ⟨_, _, _, _, hs, hs', hsame⟩
    · rw [hs] at hdeep
      cases hdeep
    · obtain ⟨rfl, rfl⟩ := Prod.mk.inj (Option.some.inj (hs.symm.trans hdeep))
      obtain ⟨rfl, rfl⟩ := Prod.mk.inj (Option.some.inj (hs'.symm.trans hdeep'))
      exact hsame

/-- A name bound in the second of two frames, and in the first with another binding behind it. -/
theorem eval_of_alike_of_shadowed_name :
    ∃ r t r' t',
      eval (fun _ => .missing) 3
          (.sexpr [.builtin .assign, .qexpr [.symbol (Bytes.of "y")], .symbol (Bytes.of "x")])
          ⟨⟨[[], [(Bytes.of "x", .number 1)]], []⟩, .empty, .empty⟩ = some (r, t) ∧
      eval (fun _ => .missing) 3
          (.sexpr [.builtin .assign, .qexpr [.symbol (Bytes.of "y")], .symbol (Bytes.of "x")])
          ⟨⟨[[(Bytes.of "x", .number 1)], [(Bytes.of "x", .number 2)]], []⟩, .empty, .empty⟩ = some (r', t') ∧
      r = r' ∧ t.Alike (fun _ => .missing) t' := by
  have halike : State.Alike (fun _ => .missing) ⟨⟨[[], [(Bytes.of "x", .number 1)]], []⟩, .empty, .empty⟩
      ⟨⟨[[(Bytes.of "x", .number 1)], [(Bytes.of "x", .number 2)]], []⟩, .empty, .empty⟩ := by
    refine ⟨⟨rfl, List.cons_ne_nil _ _, List.cons_ne_nil _ _, fun name => ?_⟩, rfl, .inl rfl⟩
    by_cases hname : Bytes.of "x" = name
    · simp [Scope.getIn?, Bindings.get?, hname]
    · simp [Scope.getIn?, Bindings.get?, hname]
  have hsame := (eval_of_alike _ halike
    (.sexpr [.builtin .assign, .qexpr [.symbol (Bytes.of "y")], .symbol (Bytes.of "x")])).2 3 3
  exact ⟨_, _, _, _, rfl, rfl, hsame _ _ _ _ rfl rfl⟩

end BraceLisp
