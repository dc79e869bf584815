import BraceLisp.Proofs.Eval.Yields
import BraceLisp.Proofs.Session.Reachable

/-!
# Normal forms

What evaluation returns in a session is a normal form: a value that is its own value wherever it is evaluated
again. What a name is bound to is a normal form too, and no error. This holds of the outermost environment, of
the frames of the calls in progress, and of the bindings that closures carry with them, however deep in other
values they are.
-/

namespace BraceLisp

namespace Value

/-- A value to which a name can be bound, where the same is true of all that is bound for closures in it. -/
def Bindable (v : Value) : Prop :=
  v.isSettled ∧ v.Every OwnSettled

/-- A value that can be returned, where all that is bound for closures in it can be bound. -/
def NormalForm (v : Value) : Prop :=
  v.isNormal ∧ v.Every OwnSettled

/-- Wherever a value is evaluated, the result is the value itself and nothing changes. -/
def Inert (v : Value) : Prop :=
  ∀ (files : Files) (depth : Nat) (t : State), eval files (depth + 1) v t = some (v, t)

/-- Every property that asks nothing lasts. -/
theorem lasting_true : Lasting fun _ => True where
  plain _ _ _ := trivial
  fault _ := trivial
  lambda _ _ := trivial
  rebound _ _ _ := trivial

theorem Sound.ownSettled {p : Value → Prop} {v : Value} (h : v.Sound p) : v.Every OwnSettled := by
  intro x hx
  exact (h x hx).1

theorem Every.sound {v : Value} (h : v.Every OwnSettled) : v.Sound fun _ => True :=
  fun x hx => ⟨h x hx, trivial⟩

theorem Bindable.sound {v : Value} (h : v.Bindable) : v.SoundBound fun _ => True :=
  ⟨h.1, Every.sound h.2⟩

theorem SoundResult.normalForm {p : Value → Prop} {v : Value} (h : v.SoundResult p) : v.NormalForm :=
  ⟨h.1, h.2.ownSettled⟩

theorem SoundBound.bindable {p : Value → Prop} {v : Value} (h : v.SoundBound p) : v.Bindable :=
  ⟨h.1, h.2.ownSettled⟩

/-- A normal form is its own value. -/
theorem NormalForm.inert {v : Value} (h : v.NormalForm) : v.Inert :=
  fun files depth t => eval_of_isNormal h.1 files depth t

end Value

theorem State.Sound.binds {p : Value → Prop} {t : State} (h : t.Sound p) : t.scope.Binds Value.Bindable := by
  intro frame hframe entry hentry
  exact (h frame hframe entry hentry).bindable

namespace Session

/-- Forms give normal forms where all that is bound can be bound, also for the closures in the forms. -/
theorem evalForms_normal {files : Files} {depth : Nat} {s after : Session} {forms values : List Value}
    (hs : ∀ entry ∈ s.globals, entry.2.Bindable) (hforms : ∀ v ∈ forms, v.Every Value.OwnSettled)
    (h : s.evalForms files depth forms = some (values, after)) : ∀ v ∈ values, v.NormalForm := by
  obtain ⟨t, heach, -⟩ := run_eq_some_iff.mp h
  have hev := fun v hv => eval_gives Value.lasting_true files depth (v := v) hv
  have hstate : s.state.Sound fun _ => True := by
    rw [State.Sound, state, Scope.binds_iff]
    exact ⟨List.forall_mem_nil _, fun entry hentry => (hs entry hentry).sound⟩
  obtain ⟨hvalues, -⟩ := evalEach_gives hev (fun v hv => (hforms v hv).sound) _ hstate _ _ heach
  exact fun v hv => (hvalues v hv).normalForm

/--
In every session that starts from the builtins, with or without the prelude, all names are bound to bindable
values, and all that is returned is a normal form. In the course of every input, the same is true of every
evaluation on the way: of the frames around it before and after, and of its result.
-/
theorem Reachable.normal_forms {s : Session} (hs : s.Reachable) :
    (∀ entry ∈ s.globals, entry.2.Bindable) ∧
      ∀ (files : Files) (depth : Nat) (input : Input),
        (∀ values after, s.respond files depth input = some (values, after) →
          (∀ v ∈ values, v.NormalForm ∧ v.Inert) ∧ ∀ entry ∈ after.globals, entry.2.Bindable) ∧
        ∀ left w t, s.Evaluates files depth input left w t →
          t.scope.Binds Value.Bindable ∧
          ∀ r t', BraceLisp.eval files left w t = some (r, t') →
            r.NormalForm ∧ r.Inert ∧ t'.scope.Binds Value.Bindable := by
  have hglobals := hs.sound Value.lasting_true
  constructor
  · intro entry hentry
    exact (hglobals entry hentry).bindable
  intro files depth input
  constructor
  · intro values after hresponds
    obtain ⟨hvalues, hafter⟩ := respond_sound Value.lasting_true hglobals hresponds
    constructor
    · intro v hv
      have hnormal := (hvalues v hv).normalForm
      exact ⟨hnormal, hnormal.inert⟩
    · intro entry hentry
      exact (hafter entry hentry).bindable
  · intro left w t hevaluates
    obtain ⟨hw, ht⟩ := hevaluates.sound Value.lasting_true hs
    refine ⟨ht.binds, ?_⟩
    intro r t' heval
    obtain ⟨hr, ht'⟩ := eval_gives Value.lasting_true files left hw t ht r t' heval
    have hnormal := hr.normalForm
    exact ⟨hnormal, hnormal.inert, ht'.binds⟩

/--
A closure that waits for its second argument is bound to a name, and is then returned: both the binding that it
carries and those of the session are as they should be.
-/
theorem normal_forms_of_partial_application :
    ∃ values after values' after',
      bare.respond (fun _ => .missing) 8 (.line [] (Bytes.of "= {k} ((\\ {x y} {x}) {5})")) =
        some (values, after) ∧
      after.respond (fun _ => .missing) 8 (.line [] (Bytes.of "k")) = some (values', after') ∧
      values'.map Value.render = [Bytes.of "(\\ {y} {x})"] ∧
      (∀ v ∈ values', v.NormalForm ∧ v.Inert) ∧ ∀ entry ∈ after'.globals, entry.2.Bindable := by
  have hrun : ((bare.respond (fun _ => .missing) 8 (.line [] (Bytes.of "= {k} ((\\ {x y} {x}) {5})"))).bind
      fun first => (first.2.respond (fun _ => .missing) 8 (.line [] (Bytes.of "k"))).map
        fun second => second.1.map Value.render) = some [Bytes.of "(\\ {y} {x})"] := by
    decide +kernel
  obtain ⟨⟨values, after⟩, hfirst, hrest⟩ := Option.bind_eq_some_iff.mp hrun
  obtain ⟨⟨values', after'⟩, hsecond, hrender⟩ := Option.map_eq_some_iff.mp hrest
  have hstart : start 0 false = some bare := rfl
  have hreachable := Reachable.input (.start hstart) hfirst
  exact ⟨values, after, values', after', hfirst, hsecond, hrender,
    (hreachable.normal_forms.2 _ _ _).1 values' after' hsecond⟩

end Session

end BraceLisp
