import BraceLisp.Proofs.Positional.Session
import BraceLisp.Proofs.Positional.Slots

/-!
# Safety

Whatever a session at a prompt is given, nothing breaks down, and every error there is has its place in the
catalogue. Sessions are given lines at the prompt, and inputs of all other sorts between them, in any order.
-/

namespace BraceLisp

/-! ## Errors in the catalogue -/

theorem Bytes.of_ne_nil {s : String} (h : s ≠ "") : Bytes.of s ≠ [] := by
  intro hnil
  have hdecode : Utf8.decode (Bytes.of s) = s.toList := Utf8.decode_encode s.toList
  rw [hnil] at hdecode
  exact h (String.toList_eq_nil_iff.mp hdecode.symm)

theorem FaultId.explanation_ne_nil (id : FaultId) : id.explanation ≠ [] := by
  cases id <;> simp [explanation, Bytes.of_ne_nil]

namespace Value

/-- An error has an entry in the catalogue, which gives its kind, and can be explained. -/
def Catalogued : Value → Prop
  | .error kind id message =>
      (∃ entry, FaultId.ofName? id = some entry ∧ kind = entry.kind) ∧ (error kind id message).explain ≠ []
  | _ => True

theorem catalogued_fault (fault : Fault) : fault.toValue.Catalogued := by
  have hname := FaultId.ofName?_name fault.id
  refine ⟨⟨fault.id, hname, rfl⟩, ?_⟩
  rw [explain, hname]
  exact fault.id.explanation_ne_nil

theorem lasting_catalogued : Lasting Catalogued where
  plain v herror _ := by
    cases v with
    | error => cases herror
    | _ => trivial
  fault := catalogued_fault
  lambda _ _ := trivial
  rebound _ _ _ := trivial

def ErrorsCatalogued (v : Value) : Prop := v.Every Catalogued

theorem Sound.errorsCatalogued {v : Value} (h : v.Sound Catalogued) : v.ErrorsCatalogued :=
  fun x hx => (h x hx).2

end Value

theorem State.Sound.errorsCatalogued {t : State} (h : t.Sound Value.Catalogued) :
    t.scope.Binds Value.ErrorsCatalogued :=
  fun frame hframe entry hentry => (h frame hframe entry hentry).2.errorsCatalogued

/-! ## The course of a session at a prompt -/

namespace Repl

/-- The prompts that can be reached, by any lines and other inputs and whatever the files are at each. -/
inductive Reachable : Repl → Prop where
  | start {session : Session} (reachable : session.Reachable) (colours : Bool) :
      Reachable (ofSession session colours)
  | line {files : Files} {depth : Nat} {r after : Repl} {text : Bytes} {quit : Bool}
      (reachable : Reachable r) (responds : r.line files depth text = some (quit, after)) : Reachable after
  | input {files : Files} {depth : Nat} {r : Repl} {session : Session} {input : Input} {values : List Value}
      (reachable : Reachable r) (responds : r.session.respond files depth input = some (values, session)) :
      Reachable { r with session }

variable {files : Files} {depth : Nat} {r after : Repl}

/-- A session at a prompt that can be reached as a session, and where an error that waits to be explained can be. -/
structure Safe (r : Repl) : Prop where
  session : r.session.Reachable
  lastError : ∀ e, r.lastError = some e → e.ErrorsCatalogued

theorem Safe.print (h : r.Safe) (text : Bytes) : (r.print text).Safe := ⟨.output h.session _, h.lastError⟩

theorem Safe.explain (h : r.Safe) : r.explain.Safe := by
  unfold Repl.explain
  cases r.lastError with
  | none => exact h.print _
  | some e => exact ⟨.output h.session _, fun _ he => nomatch he⟩

theorem Safe.command (h : r.Safe) (line : Bytes) : (r.command line).2.Safe := by
  unfold Repl.command
  cases Command.ofLine? line with
  | none => exact h.print _
  | some command =>
      cases command with
      | why => exact h.explain
      | _ => exact h.print _

theorem Safe.printValue {v : Value} (h : r.Safe) (hv : v.ErrorsCatalogued) : (r.printValue v).Safe := by
  unfold Repl.printValue
  split
  · refine ⟨.output h.session _, fun e he => ?_⟩
    obtain rfl := Option.some.inj he
    exact hv
  · exact h.print _

theorem Safe.respond {input : Input} {values : List Value} {session : Session} (h : r.Safe)
    (responds : r.session.respond files depth input = some (values, session)) :
    { r with session }.Safe ∧ ∀ v ∈ values, v.ErrorsCatalogued := by
  have hglobals := h.session.sound Value.lasting_catalogued
  obtain ⟨hvalues, -⟩ := Session.respond_sound Value.lasting_catalogued hglobals responds
  exact ⟨⟨.input h.session responds, h.lastError⟩, fun v hv => (hvalues v hv).2.errorsCatalogued⟩

/-- A line is a command, or it is evaluated and its value printed. -/
theorem Safe.line {text : Bytes} {quit : Bool} (h : r.Safe) (responds : r.line files depth text = some (quit, after)) :
    after.Safe := by
  unfold Repl.line at responds
  split at responds
  · obtain ⟨-, rfl⟩ := Prod.mk.inj (Option.some.inj responds)
    exact h
  · rename_i b rest _
    split at responds
    · obtain rfl := congrArg Prod.snd (Option.some.inj responds)
      exact h.command _
    · cases heval : r.session.evalLine files depth lineSource (b :: rest) with
      | error e =>
          rw [heval] at responds
          obtain ⟨-, rfl⟩ := Prod.mk.inj (Option.some.inj responds)
          exact h.print _
      | ok outcome =>
          rw [heval] at responds
          obtain ⟨⟨v, session⟩, rfl, hpair⟩ := Option.map_eq_some_iff.mp responds
          obtain ⟨-, rfl⟩ := Prod.mk.inj hpair
          have hrespond : r.session.respond files depth (.line lineSource (b :: rest)) = some ([v], session) := by
            simp only [Session.respond, heval, Option.map_some]
          obtain ⟨hsafe, hvalues⟩ := h.respond hrespond
          exact hsafe.printValue (hvalues v List.mem_cons_self)

theorem Reachable.safe (h : r.Reachable) : r.Safe := by
  induction h with
  | start reachable colours => exact ⟨reachable, fun _ he => nomatch he⟩
  | line reachable responds ih => exact ih.line responds
  | input reachable responds ih => exact (ih.respond responds).1

/--
Nothing that a session at a prompt is given breaks down, at whatever depth of evaluation: what comes of it when
all is taken by position is what comes of it anyway; and so it is with names that are bound in the slots of an
environment and looked up there. Every error that is bound, or waits to be explained, or is returned, is
catalogued, and so are all errors in the frames and the results of every evaluation on the way.
-/
theorem Reachable.never_breaks_down (hr : r.Reachable) :
    (∀ entry ∈ r.session.globals, entry.2.ErrorsCatalogued) ∧
      (∀ e, r.lastError = some e → e.ErrorsCatalogued) ∧
      (∀ bindings, ∃ slots, Positional.Slots.putAll bindings .empty = .ok slots ∧
        ∀ name, slots.get? name = .ok (Bindings.get? name (Bindings.putAll bindings []))) ∧
      ∀ (files : Files) (depth : Nat),
        (∀ text, Positional.line files depth r text = (r.line files depth text).map Except.ok) ∧
        ∀ input,
          Positional.respond files depth r.session input = (r.session.respond files depth input).map Except.ok ∧
          (∀ values after, r.session.respond files depth input = some (values, after) →
            (∀ v ∈ values, v.ErrorsCatalogued) ∧ ∀ entry ∈ after.globals, entry.2.ErrorsCatalogued) ∧
          ∀ left w t, r.session.Evaluates files depth input left w t →
            t.scope.Binds Value.ErrorsCatalogued ∧
            ∀ v t', eval files left w t = some (v, t') →
              v.ErrorsCatalogued ∧ t'.scope.Binds Value.ErrorsCatalogued := by
  obtain ⟨hsession, hlast⟩ := hr.safe
  have hglobals := hsession.sound Value.lasting_catalogued
  have hslots (bindings : List (Bytes × Value)) : ∃ slots, Positional.Slots.putAll bindings .empty = .ok slots ∧
      ∀ name, slots.get? name = .ok (Bindings.get? name (Bindings.putAll bindings [])) := by
    obtain ⟨slots, hput, hshows⟩ := Positional.Slots.putAll_eq Positional.Slots.shows_empty bindings
    exact ⟨slots, hput, hshows.get?_eq⟩
  refine ⟨fun entry hentry => (hglobals entry hentry).2.errorsCatalogued, hlast, hslots, ?_⟩
  intro files depth
  refine ⟨fun text => Positional.line_eq hsession text, fun input => ⟨Positional.respond_eq hsession input, ?_, ?_⟩⟩
  · intro values after hresponds
    obtain ⟨hvalues, hafter⟩ := Session.respond_sound Value.lasting_catalogued hglobals hresponds
    exact ⟨fun v hv => (hvalues v hv).2.errorsCatalogued, fun entry hentry => (hafter entry hentry).2.errorsCatalogued⟩
  · intro left w t hevaluates
    obtain ⟨hw, ht⟩ := hevaluates.sound Value.lasting_catalogued hsession
    refine ⟨ht.errorsCatalogued, ?_⟩
    intro v t' heval
    obtain ⟨hv, ht'⟩ := eval_gives Value.lasting_catalogued files left hw t ht v t' heval
    exact ⟨hv.2.errorsCatalogued, ht'.errorsCatalogued⟩

/-- A malformed number is bound inside a list, is evaluated on a later line, and waits to be explained. -/
theorem never_breaks_down_of_quoted_number :
    ∃ quit after quit' later,
      (ofSession Session.bare false).line (fun _ => .missing) 8 (Bytes.of "= {x} {99999999999999999999}") =
        some (quit, after) ∧
      after.line (fun _ => .missing) 8 (Bytes.of "eval x") = some (quit', later) ∧
      later.lastError.map Value.render = some (Bytes.of "Error: Invalid number '99999999999999999999'.") ∧
      (∀ e, later.lastError = some e → e.ErrorsCatalogued) ∧
      (∀ entry ∈ later.session.globals, entry.2.ErrorsCatalogued) ∧
      Positional.line (fun _ => .missing) 8 later (Bytes.of ":why") =
        (later.line (fun _ => .missing) 8 (Bytes.of ":why")).map Except.ok := by
  have hrun : (((ofSession Session.bare false).line (fun _ => .missing) 8
      (Bytes.of "= {x} {99999999999999999999}")).bind fun first =>
        (first.2.line (fun _ => .missing) 8 (Bytes.of "eval x")).map fun second =>
          second.2.lastError.map Value.render) =
      some (some (Bytes.of "Error: Invalid number '99999999999999999999'.")) := by
    decide +kernel
  obtain ⟨⟨quit, after⟩, hfirst, hrest⟩ := Option.bind_eq_some_iff.mp hrun
  obtain ⟨⟨quit', later⟩, hsecond, hrender⟩ := Option.map_eq_some_iff.mp hrest
  have hbare : Session.start 0 false = some Session.bare := rfl
  have hreachable : later.Reachable := .line (.line (.start (.start hbare) false) hfirst) hsecond
  obtain ⟨hglobals, hlast, -, hall⟩ := hreachable.never_breaks_down
  exact ⟨quit, after, quit', later, hfirst, hsecond, hrender, hlast, hglobals, (hall _ 8).1 _⟩

end Repl

end BraceLisp
