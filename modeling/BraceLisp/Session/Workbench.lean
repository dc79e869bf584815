import BraceLisp.Draft.Eval
import BraceLisp.Environment.Store
import BraceLisp.Session.Basic

/-!
# Evaluation in linked environments

A workbench holds any number of environments, linked in any way, in place of the single global one of a
session. Drafts of values are evaluated and functions are called in one of them, with effects on those it is
linked to.
-/

namespace BraceLisp

structure Workbench where
  store : Store
  output : Output
  cache : ParseCache
  deriving Inhabited, Repr

namespace Workbench

def global : Nat := 0

def ofSession (s : Session) : Workbench := ⟨.single s.globals, s.output, s.cache⟩

def run {α : Type} (w : Workbench) (ref : Nat) (m : EvalM α) : Option (α × Workbench) :=
  (m ⟨w.store.scope ref, w.output, w.cache⟩).map fun (a, state) =>
    (a, ⟨w.store.update ref state.scope, state.output, state.cache⟩)

def eval (files : Files) (depth : Nat) (w : Workbench) (ref : Nat) (d : Draft) : Option (Draft × Workbench) :=
  w.run ref (Draft.eval files depth d)

/-- Calls a function from an environment; the function comes back as the call leaves it. -/
def call (files : Files) (depth : Nat) (w : Workbench) (ref : Nat) (function args : Draft) :
    Option ((Draft × Draft) × Workbench) :=
  w.run ref (Draft.call files (BraceLisp.eval files depth) (Draft.eval files depth) function args)

def evalForms (files : Files) (depth : Nat) (w : Workbench) (ref : Nat) (forms : List Draft) :
    Option (List Draft × Workbench) :=
  w.run ref (Draft.evalEach (Draft.eval files depth) forms)

def printed (w : Workbench) : Bytes := w.output.text

def clearOutput (w : Workbench) : Workbench :=
  { w with output := .empty }

def withStore (w : Workbench) (store : Store) : Workbench :=
  { w with store }

end Workbench

end BraceLisp
