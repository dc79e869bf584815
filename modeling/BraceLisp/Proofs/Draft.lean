import BraceLisp.Draft.Eval
import BraceLisp.Proofs.Eval.Frames

/-!
# Drafts and frames

Drafts are evaluated in scopes as values are, and do to the frames of a scope what values do: names are bound
in the innermost and in the outermost environment at most, and a call of a closure changes no inner frame.
-/

namespace BraceLisp.Draft

open EvalM

variable {files : Files} {finish : Value → EvalM Value} {ev : Draft → EvalM Draft}

theorem evalChecked_grows (hev : ∀ d, (ev d).Grows) (check : Except Fault Draft) :
    (evalChecked ev check).Grows := by
  cases check with
  | ok code => exact hev _
  | error fault => exact (spares_pure _).grows

/-- A call of a closure, or of what was a closure before it became a list, changes no inner frame. -/
theorem call_closure_spares (hev : ∀ d, (ev d).Grows) {function formals body : Draft} {own : Frame}
    {entered : Bool} {cells : List Draft}
    (horigin : function.origin? = some (.closure formals body own entered cells)) (args : Draft) :
    (call files finish ev function args).Spares := by
  simp only [call, horigin]
  split
  · exact spares_pure _
  · exact spares_pure _
  · exact (hev _).below _

section Step

variable (hfinish : ∀ v, (finish v).Grows) (hev : ∀ d, (ev d).Grows)

include hfinish hev

theorem apply_grows (b : Builtin) (args : Draft) : (apply files finish ev b args).Grows := by
  cases b with
  | operation op =>
      simp only [apply]
      cases compute op args with
      | ok d => exact (spares_pure _).grows
      | error fault => exact (spares_pure _).grows
  | eval => exact evalChecked_grows hev _
  | branch => exact evalChecked_grows hev _
  | _ => exact (BraceLisp.apply_grows hfinish _ _).bind fun _ => (spares_pure _).grows

theorem call_grows (function args : Draft) : (call files finish ev function args).Grows := by
  have hnoFunction : Grows (pure (ofValue (Fault.notFunction (.text function.type.name)).toValue, function)) :=
    (spares_pure _).grows
  cases horigin : function.origin? with
  | none =>
      simp only [call, horigin]
      exact hnoFunction
  | some origin =>
      cases origin with
      | atom v cells =>
          cases v with
          | builtin b =>
              simp only [call, horigin]
              exact (apply_grows hfinish hev b args).bind fun _ => (spares_pure _).grows
          | _ =>
              simp only [call, horigin]
              exact hnoFunction
      | closure formals body own entered cells => exact (call_closure_spares hev horigin args).grows
      | sexpr before cells =>
          simp only [call, horigin]
          exact hnoFunction
      | qexpr before cells =>
          simp only [call, horigin]
          exact hnoFunction

end Step

theorem evalCells_grows (hev : ∀ d, (ev d).Grows) (cells : List Draft) : (evalCells ev cells).Grows := by
  induction cells with
  | nil => exact (spares_pure _).grows
  | cons d rest ih =>
      refine (hev d).bind fun r => ?_
      split
      · exact (spares_pure _).grows
      · refine ih.bind fun values => ?_
        cases values with
        | ok rs => exact (spares_pure _).grows
        | error e => exact (spares_pure _).grows

/-- Evaluation of a draft binds names in the innermost and the outermost environment at most. -/
theorem eval_grows (files : Files) (depth : Nat) (d : Draft) : (eval files depth d).Grows := by
  induction depth generalizing d with
  | zero => exact fun _ _ _ hr => nomatch hr
  | succ depth ih =>
      cases d with
      | atom v cells =>
          cases v with
          | symbol name =>
              exact (spares_of_scope_eq fun _ _ _ hr => scope_lookup hr).grows.bind fun _ => (spares_pure _).grows
          | _ => exact (spares_pure _).grows
      | closure formals body own entered cells => exact (spares_pure _).grows
      | qexpr origin cells => exact (spares_pure _).grows
      | sexpr origin code =>
          refine (evalCells_grows ih code).bind fun values => ?_
          match values with
          | .error e => exact (spares_pure _).grows
          | .ok [] => exact (spares_pure _).grows
          | .ok [d] => exact (spares_pure _).grows
          | .ok (function :: arg :: args) =>
              dsimp only
              split
              · exact (call_grows (BraceLisp.eval_grows files depth) ih _ _).bind fun _ => (spares_pure _).grows
              · exact (spares_pure _).grows

end BraceLisp.Draft
