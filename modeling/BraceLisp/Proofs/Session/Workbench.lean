import BraceLisp.Proofs.Draft
import BraceLisp.Proofs.Eval.Definitions
import BraceLisp.Proofs.LinkedEnvironments
import BraceLisp.Session.Workbench

/-!
# The frame property of evaluation

Environments may be linked in any way. Evaluation in one of them binds names there and in the outermost
environment around it, and changes neither the environments between them, nor any that is not on the way, nor
a link. A call of a closure changes the outermost environment only, and there only what `def` binds: bindings
that are made with `=` while it goes on are seen by nobody afterwards.
-/

namespace BraceLisp.Workbench

variable {w after : Workbench} {ref : Nat}

def stateAt (w : Workbench) (ref : Nat) : State :=
  ⟨w.store.scope ref, w.output, w.cache⟩

/-- A computation in an environment runs in its scope, and the frames are then put back. -/
theorem exists_of_run {α : Type} {m : EvalM α} {a : α} (h : w.run ref m = some (a, after)) :
    ∃ t, m (w.stateAt ref) = some (a, t) ∧ after.store = w.store.update ref t.scope := by
  obtain ⟨⟨a', t⟩, hm, hpair⟩ := Option.map_eq_some_iff.mp h
  obtain ⟨rfl, rfl⟩ := Prod.mk.inj hpair
  exact ⟨t, hm, rfl⟩

theorem grown_of_run {α : Type} {m : EvalM α} (hm : m.Grows) {a : α} (h : w.run ref m = some (a, after)) :
    w.store.Grown ref after.store := by
  obtain ⟨t, ht, hstore⟩ := exists_of_run h
  rw [hstore]
  exact Store.grown_update (hm _ _ _ ht)

theorem spared_of_run {α : Type} {m : EvalM α} (hm : m.Spares) {a : α} (h : w.run ref m = some (a, after)) :
    w.store.Spared ref after.store := by
  obtain ⟨t, ht, hstore⟩ := exists_of_run h
  rw [hstore]
  exact Store.spared_update (hm _ _ _ ht)

/--
Evaluation, of a value or of a draft, binds names in its own environment and in the outermost one, and a call of
a closure in the outermost one only. All other environments stay as they are, and so do all links. Every name that
`def` does not bind in the course of such a call means afterwards, in every environment, what it meant before.
-/
theorem evaluation_frames (files : Files) (depth : Nat) (w : Workbench) (ref : Nat) :
    (∀ v r after, w.run ref (BraceLisp.eval files depth v) = some (r, after) → w.store.Grown ref after.store) ∧
    (∀ d r after, w.eval files depth ref d = some (r, after) → w.store.Grown ref after.store) ∧
    (∀ function formals body own entered cells args r after,
      function.origin? = some (.closure formals body own entered cells) →
      w.call files depth ref function args = some (r, after) → w.store.Spared ref after.store) ∧
    ∀ formals body own entered args r after,
      w.run ref (BraceLisp.call files (BraceLisp.eval files depth) (.closure formals body own entered) args) =
        some (r, after) →
      w.store.Spared ref after.store ∧
      ∀ name, (∀ entry, CallDefines files depth (.closure formals body own entered) args (w.stateAt ref) entry →
        entry.1 ≠ name) → ∀ e, after.store.get? e name = w.store.get? e name := by
  refine ⟨?_, ?_, ?_, ?_⟩
  · intro v r after h
    exact grown_of_run (BraceLisp.eval_grows files depth v) h
  · intro d r after h
    exact grown_of_run (Draft.eval_grows files depth d) h
  · intro function formals body own entered cells args r after horigin h
    exact spared_of_run (Draft.call_closure_spares (Draft.eval_grows files depth) horigin args) h
  · intro formals body own entered args r after h
    have hspares : EvalM.Spares
        (BraceLisp.call files (BraceLisp.eval files depth) (.closure formals body own entered) args) :=
      call_closure_spares (BraceLisp.eval_grows files depth) formals body own entered args
    refine ⟨spared_of_run hspares h, fun name hname e => ?_⟩
    obtain ⟨t, ht, hstore⟩ := exists_of_run h
    rw [hstore]
    exact Store.get?_update_of_spared (hspares _ _ _ ht) ((call_closure_defines ht).get?_root hname) e

/-- Of three environments, each around the next, an assignment in the innermost one changes that one only. -/
theorem evaluation_frames_of_assignment :
    ∃ r after,
      Workbench.eval (fun _ => .missing) 4
        ⟨⟨[⟨Session.bare.globals, none⟩, ⟨[(Bytes.of "x", .number 1)], some 0⟩, ⟨[], some 1⟩]⟩, .empty, .empty⟩ 2
        (Draft.ofValue (.sexpr [.symbol (Bytes.of "="), .qexpr [.symbol (Bytes.of "x")], .number 2])) =
          some (r, after) ∧
      Bindings.names (after.store.frame 2) = [Bytes.of "x"] ∧
      after.store.frame 1 = [(Bytes.of "x", .number 1)] ∧ after.store.outer? 2 = some 1 := by
  have hrun : (Workbench.eval (fun _ => .missing) 4
      ⟨⟨[⟨Session.bare.globals, none⟩, ⟨[(Bytes.of "x", .number 1)], some 0⟩, ⟨[], some 1⟩]⟩, .empty, .empty⟩ 2
      (Draft.ofValue (.sexpr [.symbol (Bytes.of "="), .qexpr [.symbol (Bytes.of "x")], .number 2]))).map
        (fun outcome => Bindings.names (outcome.2.store.frame 2)) = some [Bytes.of "x"] := by
    decide +kernel
  obtain ⟨⟨r, after⟩, heval, hnames⟩ := Option.map_eq_some_iff.mp hrun
  have hgrown := (evaluation_frames _ _ _ _).2.1 _ _ _ heval
  exact ⟨r, after, heval, hnames, hgrown.others 1 (by decide) (by decide +kernel), hgrown.links 2⟩

end BraceLisp.Workbench
