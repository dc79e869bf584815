import BraceLisp.Proofs.Eval.Frames
import BraceLisp.Proofs.Eval.Lasting
import BraceLisp.Session.Basic

/-!
# The course of a session

A session starts with the builtins and is given inputs one after another. Each input that can be parsed has
forms, which are evaluated in the global environment; inputs that cannot be parsed change nothing. What is true
of all that a session ever holds follows from what the evaluation of forms keeps.
-/

namespace BraceLisp

open Source

/--
What a session can be given: a line, which is one S-expression as a whole, a program whose values are returned, or a
batch or file whose errors are printed.
-/
inductive Input where
  | line (source text : Bytes)
  | program (source text : Bytes)
  | batch (text : Bytes)
  | load (path : Bytes)
  | prelude

namespace Session

def respond (files : Files) (depth : Nat) (s : Session) : Input → Option (List Value × Session)
  | .line source text =>
      match s.evalLine files depth source text with
      | .error _ => some ([], s)
      | .ok outcome => outcome.map fun (v, after) => ([v], after)
  | .program source text =>
      match s.evalProgram files depth source text with
      | .error _ => some ([], s)
      | .ok outcome => outcome
  | .batch text =>
      match s.runBatch files depth text with
      | .error _ => some ([], s)
      | .ok outcome => outcome.map fun after => ([], after)
  | .load path =>
      (s.run (Builtin.load.apply files (BraceLisp.eval files depth) [.string path])).map fun (v, after) =>
        ([v], after)
  | .prelude => (s.loadPrelude files depth).map fun (_, after) => ([], after)

/-- The sessions that can be reached from a start, by any inputs and whatever the files are at each. -/
inductive Reachable : Session → Prop where
  | start {depth : Nat} {withPrelude : Bool} {s : Session} (starts : start depth withPrelude = some s) :
      Reachable s
  | input {files : Files} {depth : Nat} {s after : Session} {input : Input} {values : List Value}
      (reachable : Reachable s) (responds : s.respond files depth input = some (values, after)) :
      Reachable after
  | output {s : Session} (reachable : Reachable s) (output : Output) : Reachable { s with output }

/-- The forms that are evaluated for an input, and the state that their evaluation starts from. -/
inductive Forms (files : Files) (s : Session) : Input → List Value → State → Prop where
  | line {source text : Bytes} {root : Root} (parsed : parse source text = .ok root) :
      Forms files s (.line source text) [root.read] s.state
  | program {source text : Bytes} {root : Root} (parsed : parse source text = .ok root) :
      Forms files s (.program source text) root.program s.state
  | batch {text : Bytes} {root : Root} (parsed : parse batchSource text = .ok root) :
      Forms files s (.batch text) root.program s.state
  | load {path : Bytes} {file : ParsedFile} {t : State}
      (found : EvalM.parseFile files path s.state = some (.ok file, t)) :
      Forms files s (.load path) file.root.program t
  | prelude {forms : List Value} (parsed : Prelude.forms = .ok forms) : Forms files s .prelude forms s.state

/--
In the course of an input, whether or not that comes to an end, a value is evaluated in a state, and may nest to
the depth that is left.
-/
def Evaluates (files : Files) (depth : Nat) (s : Session) (input : Input) (left : Nat) (w : Value) (t : State) :
    Prop :=
  ∃ forms t₀ v u, s.Forms files input forms t₀ ∧ FormsAsk (BraceLisp.eval files depth) forms t₀ v u ∧
    Invokes files depth v u left w t

/-! ## What an input does -/

variable {files : Files} {depth : Nat} {s after : Session} {input : Input}

/-- The forms of an input are evaluated in the global environment. -/
theorem Forms.scope {forms : List Value} {t : State} (h : s.Forms files input forms t) :
    t.scope = ⟨[], s.globals⟩ := by
  cases h with
  | load found => exact EvalM.scope_parseFile found
  | _ => rfl

theorem exists_program_of_map {parsed : Except ParseError Root} {forms : List Value}
    (h : parsed.map Root.program = .ok forms) : ∃ root : Root, root.program = forms := by
  cases parsed with
  | error e => cases h
  | ok root => exact ⟨root, Except.ok.inj h⟩

/-- The forms of an input are sound, whatever lasts. -/
theorem Forms.sound {p : Value → Prop} (lasting : Value.Lasting p) {forms : List Value} {t : State}
    (h : s.Forms files input forms t) : ∀ v ∈ forms, v.Sound p := by
  cases h with
  | line parsed =>
      rw [List.forall_mem_singleton]
      exact lasting.sound_sexpr (Node.sound_of_mem_readAll lasting _)
  | program parsed => exact Node.sound_of_mem_readAll lasting _
  | batch parsed => exact Node.sound_of_mem_readAll lasting _
  | load found => exact Node.sound_of_mem_readAll lasting _
  | prelude parsed =>
      obtain ⟨root, rfl⟩ := exists_program_of_map parsed
      exact Node.sound_of_mem_readAll lasting _

theorem run_eq_some_iff {α : Type} {m : EvalM α} {a : α} :
    s.run m = some (a, after) ↔ ∃ t, m s.state = some (a, t) ∧ after = ofState t := by
  simp only [run, Option.map_eq_some_iff, Prod.exists, Prod.mk.injEq]
  constructor
  · rintro ⟨a', t, hm, rfl, rfl⟩
    exact ⟨t, hm, rfl⟩
  · rintro ⟨t, hm, rfl⟩
    exact ⟨a, t, hm, rfl, rfl⟩

theorem evalEach_of_runProgram {ev : Value → EvalM Value} {forms : List Value} {t t' : State} {u : Unit}
    (h : runProgram ev forms t = some (u, t')) :
    ∃ results t₁, evalEach ev forms t = some (results, t₁) ∧ t'.scope = t₁.scope := by
  obtain ⟨results, t₁, hforms, hlines⟩ := EvalM.bind_eq_some_iff.mp h
  obtain ⟨-, rfl⟩ := Prod.mk.inj (Option.some.inj hlines)
  exact ⟨results, t₁, hforms, rfl⟩

/--
Forms that have been parsed are evaluated one after another, and leave what they bind; if they have not been,
nothing changes. The forms are those of any prelude.
-/
theorem evalEach_of_loadForms {parsed : Except ParseError (List Value)} {complaint : Option Bytes}
    (h : s.loadForms files depth parsed = some (complaint, after)) :
    (∃ e, parsed = .error e ∧ after = s) ∨
      ∃ forms results t, parsed = .ok forms ∧
        BraceLisp.evalEach (BraceLisp.eval files depth) forms s.state = some (results, t) ∧
        after = ofState t := by
  cases parsed with
  | error e =>
      obtain ⟨-, rfl⟩ := Prod.mk.inj (Option.some.inj h)
      exact .inl ⟨e, rfl, rfl⟩
  | ok forms =>
      simp only [loadForms, Option.bind_eq_bind, Option.bind_eq_some_iff, Prod.exists, evalForms,
        run_eq_some_iff] at h
      obtain ⟨results, _, ⟨t, hforms, rfl⟩, hpair⟩ := h
      obtain ⟨-, rfl⟩ := Prod.mk.inj (Option.some.inj hpair)
      exact .inr ⟨forms, results, t, rfl, hforms, rfl⟩

/-- The prelude is loaded as the forms that its text has, and returns nothing. -/
theorem loadForms_of_respond_prelude {values : List Value}
    (h : s.respond files depth .prelude = some (values, after)) :
    values = [] ∧ ∃ complaint, s.loadForms files depth Prelude.forms = some (complaint, after) := by
  simp only [respond, loadPrelude, Option.map_eq_some_iff, Prod.exists, Prod.mk.injEq] at h
  obtain ⟨complaint, _, hload, rfl, rfl⟩ := h
  exact ⟨rfl, complaint, hload⟩

/--
An input that has forms has them evaluated one after another, leaves what they bind, and returns some of their
values or the empty S-expression.
-/
theorem Forms.evalEach {forms : List Value} {t : State} (hforms : s.Forms files input forms t)
    {values : List Value} (h : s.respond files depth input = some (values, after)) :
    ∃ results t', BraceLisp.evalEach (BraceLisp.eval files depth) forms t = some (results, t') ∧
      after.globals = t'.scope.root ∧ ∀ v ∈ values, v ∈ results ∨ v = .sexpr [] := by
  cases hforms with
  | line parsed =>
      simp only [respond, evalLine, parsed, Except.map, Option.map_eq_some_iff, Prod.exists, Session.eval,
        run_eq_some_iff] at h
      obtain ⟨v, _, ⟨t, heval, rfl⟩, h⟩ := h
      obtain ⟨rfl, rfl⟩ := Prod.mk.inj h
      exact ⟨[v], t, EvalM.bind_eq_some_iff.mpr ⟨v, t, heval, rfl⟩, rfl, fun v hv => .inl hv⟩
  | program parsed =>
      simp only [respond, evalProgram, parsed, Except.map, evalForms, run_eq_some_iff] at h
      obtain ⟨t, hforms, rfl⟩ := h
      exact ⟨values, t, hforms, rfl, fun v hv => .inl hv⟩
  | batch parsed =>
      simp only [respond, runBatch, parsed, Except.map, Option.map_map, Option.map_eq_some_iff, Prod.exists,
        run_eq_some_iff] at h
      obtain ⟨u, _, ⟨t, hrun, rfl⟩, h⟩ := h
      obtain ⟨rfl, rfl⟩ := Prod.mk.inj h
      obtain ⟨results, t₁, hforms, hscope⟩ := evalEach_of_runProgram hrun
      exact ⟨results, t₁, hforms, congrArg Scope.root hscope, List.forall_mem_nil _⟩
  | load found =>
      simp only [respond, Option.map_eq_some_iff, Prod.exists, run_eq_some_iff] at h
      obtain ⟨v, _, ⟨t, hload, rfl⟩, h⟩ := h
      obtain ⟨rfl, rfl⟩ := Prod.mk.inj h
      obtain ⟨file, t₁, hfound, hload⟩ := EvalM.bind_eq_some_iff.mp hload
      obtain ⟨rfl, rfl⟩ := Prod.mk.inj (Option.some.inj (found.symm.trans hfound))
      obtain ⟨u, t₂, hrun, hunit⟩ := EvalM.bind_eq_some_iff.mp hload
      obtain ⟨rfl, rfl⟩ := Prod.mk.inj (Option.some.inj hunit)
      obtain ⟨results, t₃, hforms, hscope⟩ := evalEach_of_runProgram hrun
      exact ⟨results, t₃, hforms, congrArg Scope.root hscope, List.forall_mem_singleton.mpr (.inr rfl)⟩
  | prelude parsed =>
      obtain ⟨rfl, complaint, hload⟩ := loadForms_of_respond_prelude h
      rcases evalEach_of_loadForms hload with ⟨e, herror, -⟩ | ⟨forms', results, t, hok, hforms, rfl⟩
      · cases parsed.symm.trans herror
      · obtain rfl := Except.ok.inj (parsed.symm.trans hok)
        exact ⟨results, t, hforms, rfl, List.forall_mem_nil _⟩

/-- An input that has no forms changes no binding and returns nothing but errors of the language. -/
theorem globals_respond_of_no_forms (hnone : ¬ ∃ forms t, s.Forms files input forms t) {values : List Value}
    (h : s.respond files depth input = some (values, after)) :
    after.globals = s.globals ∧ ∀ v ∈ values, ∃ fault : Fault, v = fault.toValue := by
  have hrejected (hs : some (([], s) : List Value × Session) = some (values, after)) :
      after.globals = s.globals ∧ ∀ v ∈ values, ∃ fault : Fault, v = fault.toValue := by
    obtain ⟨rfl, rfl⟩ := Prod.mk.inj (Option.some.inj hs)
    exact ⟨rfl, List.forall_mem_nil _⟩
  cases input with
  | line source text =>
      cases hparsed : parse source text with
      | error e =>
          simp only [respond, evalLine, hparsed, Except.map] at h
          exact hrejected h
      | ok root => exact absurd ⟨_, _, .line hparsed⟩ hnone
  | program source text =>
      cases hparsed : parse source text with
      | error e =>
          simp only [respond, evalProgram, hparsed, Except.map] at h
          exact hrejected h
      | ok root => exact absurd ⟨_, _, .program hparsed⟩ hnone
  | batch text =>
      cases hparsed : parse batchSource text with
      | error e =>
          simp only [respond, runBatch, hparsed, Except.map] at h
          exact hrejected h
      | ok root => exact absurd ⟨_, _, .batch hparsed⟩ hnone
  | load path =>
      simp only [respond, Option.map_eq_some_iff, Prod.exists, run_eq_some_iff] at h
      obtain ⟨v, _, ⟨t, hload, rfl⟩, h⟩ := h
      obtain ⟨rfl, rfl⟩ := Prod.mk.inj h
      obtain ⟨found, t₁, hfound, hload⟩ := EvalM.bind_eq_some_iff.mp hload
      cases found with
      | error e =>
          obtain ⟨rfl, rfl⟩ := Prod.mk.inj (Option.some.inj hload)
          exact ⟨congrArg Scope.root (EvalM.scope_parseFile hfound), List.forall_mem_singleton.mpr ⟨_, rfl⟩⟩
      | ok file => exact absurd ⟨_, _, .load hfound⟩ hnone
  | prelude =>
      obtain ⟨rfl, complaint, hload⟩ := loadForms_of_respond_prelude h
      rcases evalEach_of_loadForms hload with ⟨e, -, rfl⟩ | ⟨forms, results, t, hok, -, -⟩
      · exact ⟨rfl, List.forall_mem_nil _⟩
      · exact absurd ⟨_, _, .prelude hok⟩ hnone

/-! ## What holds throughout a session -/

variable {p : Value → Prop}

theorem Forms.sound_state {forms : List Value} {t : State} (h : s.Forms files input forms t)
    (hs : ∀ entry ∈ s.globals, entry.2.SoundBound p) : t.Sound p := by
  rw [State.Sound, h.scope, Scope.binds_iff]
  exact ⟨List.forall_mem_nil _, hs⟩

/-- What an input returns and leaves is sound. -/
theorem respond_sound (lasting : Value.Lasting p) {values : List Value}
    (hs : ∀ entry ∈ s.globals, entry.2.SoundBound p)
    (h : s.respond files depth input = some (values, after)) :
    (∀ v ∈ values, v.SoundResult p) ∧ ∀ entry ∈ after.globals, entry.2.SoundBound p := by
  by_cases hnone : ∃ forms t, s.Forms files input forms t
  · obtain ⟨forms, t, hforms⟩ := hnone
    obtain ⟨results, t', heval, hglobals, hvalues⟩ := hforms.evalEach h
    have hev := fun v hv => eval_gives lasting files depth (v := v) hv
    obtain ⟨hresults, ht'⟩ :=
      evalEach_gives hev (hforms.sound lasting) t (hforms.sound_state hs) results t' heval
    refine ⟨fun v hv => ?_, hglobals ▸ (Scope.binds_iff.mp ht').2⟩
    rcases hvalues v hv with hv | rfl
    · exact hresults v hv
    · exact lasting.soundResult_unit
  · -- What has no forms could not be parsed, and has left the session as it was.
    obtain ⟨hglobals, hvalues⟩ := globals_respond_of_no_forms hnone h
    refine ⟨fun v hv => ?_, hglobals ▸ hs⟩
    obtain ⟨fault, rfl⟩ := hvalues v hv
    exact lasting.soundResult_fault fault

theorem sound_bare (lasting : Value.Lasting p) : ∀ entry ∈ bare.globals, entry.2.SoundBound p := by
  intro entry hentry
  rcases Bindings.mem_putAll hentry with hnone | hbuiltin
  · cases hnone
  · obtain ⟨⟨name, b⟩, -, rfl⟩ := List.mem_map.mp hbuiltin
    exact lasting.soundBound_builtin b

/-- A session that starts has the builtins alone, or has been given the prelude as an input after them. -/
theorem eq_bare_or_respond_of_start {withPrelude : Bool} (h : start depth withPrelude = some s) :
    s = bare ∨ bare.respond (fun _ => .missing) depth .prelude = some ([], s) := by
  cases withPrelude with
  | false => exact .inl (Option.some.inj h).symm
  | true =>
      simp only [start, if_true, Option.map_eq_some_iff, Prod.exists] at h
      obtain ⟨complaint, _, hload, rfl⟩ := h
      exact .inr (by simp only [respond, hload, Option.map_some])

/-- All that is bound in a reachable session is sound. -/
theorem Reachable.sound (lasting : Value.Lasting p) (h : s.Reachable) :
    ∀ entry ∈ s.globals, entry.2.SoundBound p := by
  induction h with
  | start starts =>
      rcases eq_bare_or_respond_of_start starts with rfl | hprelude
      · exact sound_bare lasting
      · exact (respond_sound lasting (sound_bare lasting) hprelude).2
  | input reachable responds ih => exact (respond_sound lasting ih responds).2
  | output reachable output ih => exact ih

/-- All that is evaluated in a reachable session is sound, and is evaluated in a sound state. -/
theorem Evaluates.sound (lasting : Value.Lasting p) (hs : s.Reachable) {left : Nat} {w : Value} {t : State}
    (h : s.Evaluates files depth input left w t) : w.Sound p ∧ t.Sound p := by
  obtain ⟨forms, t₀, v, u, hforms, hask, hinvokes⟩ := h
  have hev := fun v hv => eval_gives lasting files depth (v := v) hv
  obtain ⟨hv, hu⟩ := hask.sound hev (hforms.sound lasting) (hforms.sound_state (hs.sound lasting))
  exact hinvokes.sound lasting hv hu

/-- What is evaluated in a session has at most as many frames around it as there are levels of nesting. -/
theorem Evaluates.reaches {left : Nat} {w : Value} {t : State} (h : s.Evaluates files depth input left w t) :
    t.scope.inner.length + left ≤ depth ∧ Bindings.Grows s.globals t.scope.root := by
  obtain ⟨forms, t₀, v, u, hforms, hask, hinvokes⟩ := h
  have hgrows := hask.grows (eval_grows files depth)
  obtain ⟨hlength, hroot⟩ := hinvokes.reaches
  rw [hforms.scope] at hgrows
  have houter := hgrows.length_inner
  simp only [List.length_nil] at houter
  exact ⟨by omega, hgrows.root.trans hroot⟩

/-- When an input has been dealt with, all that was evaluated for it has ended, and what it bound outermost is kept. -/
theorem Evaluates.ends {left : Nat} {w : Value} {t : State} (h : s.Evaluates files depth input left w t)
    {values : List Value} (hresponds : s.respond files depth input = some (values, after)) :
    ∃ r t', BraceLisp.eval files left w t = some (r, t') ∧ Bindings.Grows t'.scope.root after.globals := by
  obtain ⟨forms, t₀, v, u, hforms, hask, hinvokes⟩ := h
  obtain ⟨results, t', heval, hglobals, -⟩ := hforms.evalEach hresponds
  obtain ⟨r₁, t₁, hr₁, hgrows₁⟩ := hask.ends (eval_grows files depth) heval
  obtain ⟨r₂, t₂, hr₂, hgrows₂⟩ := hinvokes.ends hr₁
  exact ⟨r₂, t₂, hr₂, hglobals ▸ hgrows₂.trans hgrows₁⟩

end Session

end BraceLisp
