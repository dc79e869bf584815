import BraceLisp.Proofs.Session.Reachable

/-!
# Closures and the frames they leave behind

While the body of a closure is evaluated, the bindings of the closure are a frame hung below the scope of the
call, and the closure is marked as entered. The mark is never seen again. No closure that a session binds or
returns has been entered, wherever in a value it is: its own bindings have nothing around them, and every copy
taken while a call goes on is a copy of a closure that waits. So the scope of an evaluation is made of the
frames of the calls in progress, at most one for each level of nesting, and ends in the global environment.
-/

namespace BraceLisp

namespace Value

/-- Nothing is around the bindings of a closure; other values have none. -/
def Detached : Value → Prop
  | .closure _ _ _ entered => entered = false
  | _ => True

/-- To be detached lasts: closures start so, and stay so while arguments are bound. -/
theorem lasting_detached : Lasting Detached where
  plain v _ hclosure := by
    cases v with
    | closure => cases hclosure
    | _ => trivial
  fault _ := trivial
  lambda _ _ := rfl
  rebound h _ _ := h

theorem Sound.detached {v : Value} (h : v.Sound Detached) : v.Every Detached := by
  intro x hx
  exact (h x hx).2

end Value

theorem State.Sound.detached {t : State} (h : t.Sound Value.Detached) :
    t.scope.Binds fun v => v.Every Value.Detached := by
  intro frame hframe entry hentry
  exact (h frame hframe entry hentry).2.detached

namespace Session

/-- In the course of an input, at any depth of calls, `def` is given names and values that fit. -/
def Defines (files : Files) (depth : Nat) (s : Session) (input : Input) (bindings : List (Bytes × Value)) : Prop :=
  ∃ left cells args t t₁, s.Evaluates files depth input (left + 1) (.sexpr cells) t ∧
    evalCells (BraceLisp.eval files left) cells t = some (.ok (.builtin .define :: args), t₁) ∧
    Builtin.define.definitions args = .ok bindings

variable {files : Files} {depth : Nat} {s after : Session} {input : Input}

/-- An S-expression that applies `def` binds its names in the outermost environment and nowhere else. -/
theorem eval_define {left : Nat} {cells args : List Value} {t t₁ : State} {bindings : List (Bytes × Value)}
    (hcells : evalCells (BraceLisp.eval files left) cells t = some (.ok (.builtin .define :: args), t₁))
    (hdefinitions : Builtin.define.definitions args = .ok bindings) :
    BraceLisp.eval files (left + 1) (.sexpr cells) t =
      some (.sexpr [], { t₁ with scope := t₁.scope.define bindings }) := by
  cases args with
  | nil => cases hdefinitions
  | cons names values =>
      refine EvalM.bind_eq_some_iff.mpr ⟨_, t₁, hcells, ?_⟩
      refine EvalM.bind_eq_some_iff.mpr ⟨(.sexpr [], .builtin .define), _, ?_, rfl⟩
      refine EvalM.bind_eq_some_iff.mpr ⟨.sexpr [], { t₁ with scope := t₁.scope.define bindings }, ?_, rfl⟩
      simp only [Builtin.apply, Builtin.guarded, hdefinitions]
      rfl

/-- What `def` binds in the course of an input is bound in the session afterwards. -/
theorem Defines.mem_names {bindings : List (Bytes × Value)} (h : s.Defines files depth input bindings)
    {values : List Value} (hresponds : s.respond files depth input = some (values, after)) :
    ∀ entry ∈ bindings, entry.1 ∈ after.globals.names := by
  obtain ⟨left, cells, args, t, t₁, hevaluates, hcells, hdefinitions⟩ := h
  obtain ⟨r, t', heval, hgrows⟩ := hevaluates.ends hresponds
  rw [eval_define hcells hdefinitions] at heval
  obtain ⟨-, rfl⟩ := Prod.mk.inj (Option.some.inj heval)
  intro entry hentry
  have hdefined := Bindings.mem_names_putAll (b := t₁.scope.root) hentry
  exact hgrows.names_isPrefix.subset hdefined

/--
In every session that starts from the builtins, with or without the prelude, no closure that is bound or returned
has been entered, wherever in a value it is. Every evaluation in the course of an input, whether or not that comes
to an end, goes on in a scope of detached closures with no more frames than there are levels of nesting, and with
the global environment outermost; it leaves as many frames as it found. What it leaves bound in the outermost
environment is bound globally when the input has been dealt with, and so is what `def` binds from any depth of
calls.
-/
theorem Reachable.closures_detached (hs : s.Reachable) :
    (∀ entry ∈ s.globals, entry.2.Every Value.Detached) ∧
      ∀ (files : Files) (depth : Nat) (input : Input),
        (∀ values after, s.respond files depth input = some (values, after) →
          (∀ v ∈ values, v.Every Value.Detached) ∧
          (∀ entry ∈ after.globals, entry.2.Every Value.Detached) ∧
          (∀ left w t, s.Evaluates files depth input left w t →
            ∃ r t', BraceLisp.eval files left w t = some (r, t') ∧ Bindings.Grows t'.scope.root after.globals) ∧
          ∀ bindings, s.Defines files depth input bindings →
            ∀ entry ∈ bindings, entry.1 ∈ after.globals.names) ∧
        ∀ left w t, s.Evaluates files depth input left w t →
          w.Every Value.Detached ∧ t.scope.Binds (fun v => v.Every Value.Detached) ∧
          t.scope.inner.length + left ≤ depth ∧ Bindings.Grows s.globals t.scope.root ∧
          ∀ r t', BraceLisp.eval files left w t = some (r, t') →
            r.Every Value.Detached ∧ t'.scope.Binds (fun v => v.Every Value.Detached) ∧
            t'.scope.inner.length = t.scope.inner.length ∧ Bindings.Grows t.scope.root t'.scope.root := by
  have hglobals := hs.sound Value.lasting_detached
  constructor
  · intro entry hentry
    exact (hglobals entry hentry).2.detached
  intro files depth input
  constructor
  · intro values after hresponds
    obtain ⟨hvalues, hafter⟩ := respond_sound Value.lasting_detached hglobals hresponds
    refine ⟨?_, ?_, ?_, ?_⟩
    · intro v hv
      exact (hvalues v hv).2.detached
    · intro entry hentry
      exact (hafter entry hentry).2.detached
    · intro left w t hevaluates
      exact hevaluates.ends hresponds
    · intro bindings hdefines
      exact hdefines.mem_names hresponds
  · intro left w t hevaluates
    obtain ⟨hw, ht⟩ := hevaluates.sound Value.lasting_detached hs
    obtain ⟨hlength, hroot⟩ := hevaluates.reaches
    refine ⟨hw.detached, ht.detached, hlength, hroot, ?_⟩
    intro r t' heval
    obtain ⟨hr, ht'⟩ := eval_gives Value.lasting_detached files left hw t ht r t' heval
    have hgrows := eval_grows files left w t r t' heval
    exact ⟨hr.2.detached, ht'.detached, hgrows.length_inner, hgrows.root⟩

/--
A call defines a closure that already has one argument, the closure is called with the other, and nothing in the
session has been entered afterwards.
-/
theorem closures_detached_after_calls :
    ∃ values after values' after',
      bare.respond (fun _ => .missing) 9
        (.program [] (Bytes.of "(def {add} (\\ {a b} {+ a b})) ((\\ {x} {def {g} (add x)}) 3)")) = some (values, after) ∧
      after.respond (fun _ => .missing) 9 (.line [] (Bytes.of "g 4")) = some (values', after') ∧
      values'.map Value.render = [Bytes.of "7"] ∧
      (∀ v ∈ values', v.Every Value.Detached) ∧ ∀ entry ∈ after'.globals, entry.2.Every Value.Detached := by
  have hrun : ((bare.respond (fun _ => .missing) 9
      (.program [] (Bytes.of "(def {add} (\\ {a b} {+ a b})) ((\\ {x} {def {g} (add x)}) 3)"))).bind
      fun first => (first.2.respond (fun _ => .missing) 9 (.line [] (Bytes.of "g 4"))).map
        fun second => second.1.map Value.render) = some [Bytes.of "7"] := by
    decide +kernel
  obtain ⟨⟨values, after⟩, hfirst, hrest⟩ := Option.bind_eq_some_iff.mp hrun
  obtain ⟨⟨values', after'⟩, hsecond, hrender⟩ := Option.map_eq_some_iff.mp hrest
  have hstart : start 0 false = some bare := rfl
  have hreachable := Reachable.input (.start hstart) hfirst
  obtain ⟨hvalues, hafter, -⟩ := (hreachable.closures_detached.2 _ _ _).1 values' after' hsecond
  exact ⟨values, after, values', after', hfirst, hsecond, hrender, hvalues, hafter⟩

end Session

end BraceLisp
