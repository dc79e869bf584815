import BraceLisp.Proofs.Prelude.Standard

/-!
# Lists where names are standard

What code that takes lists apart and puts them together yields, as long as the names in it mean what they mean at the
start: the operations on lists, the condition on which all functions of the prelude that go through a list come to an
end, and those functions that take an item out of a list or hand one on as arguments.
-/

namespace BraceLisp

open Prelude

namespace Scope.Standard

variable {files : Files} {caches : ParseCache → Prop} {scope : Scope} (h : scope.Standard)

include h

/-! ## Builtins -/

theorem yields_operation (op : Operation) {cells args : List Value} {arg r : Value}
    (hcells : scope.YieldsEach files caches cells (arg :: args)) (hcompute : op.compute (arg :: args) = .ok r) :
    scope.Yields files caches (.sexpr (.symbol op.name :: cells)) r :=
  yields_call (.cons (h.yields_builtin (.operation op)) rfl hcells) (calls_operation hcompute)

theorem yields_operation_of_error (op : Operation) {cells args : List Value} {arg : Value} {fault : Fault}
    (hcells : scope.YieldsEach files caches cells (arg :: args)) (hcompute : op.compute (arg :: args) = .error fault) :
    scope.Yields files caches (.sexpr (.symbol op.name :: cells)) fault.toValue :=
  yields_call (.cons (h.yields_builtin (.operation op)) rfl hcells) (calls_operation_of_error hcompute)

theorem yields_head {l x : Value} {xs : List Value} (hl : scope.Yields files caches l (.qexpr (x :: xs))) :
    scope.Yields files caches (apply "head" [l]) (.qexpr [x]) :=
  h.yields_operation .head (.cons hl rfl .nil) rfl

theorem yields_tail {l x : Value} {xs : List Value} (hl : scope.Yields files caches l (.qexpr (x :: xs))) :
    scope.Yields files caches (apply "tail" [l]) (.qexpr xs) :=
  h.yields_operation .tail (.cons hl rfl .nil) rfl

theorem yields_list {v x : Value} (hv : scope.Yields files caches v x) (hx : x.isError = false) :
    scope.Yields files caches (apply "list" [v]) (.qexpr [x]) :=
  h.yields_operation .list (.cons hv hx .nil) rfl

theorem yields_join {l m : Value} {xs ys : List Value} (hl : scope.Yields files caches l (.qexpr xs))
    (hm : scope.Yields files caches m (.qexpr ys)) :
    scope.Yields files caches (apply "join" [l, m]) (.qexpr (xs ++ ys)) := by
  refine h.yields_operation .join (.cons hl rfl (.cons hm rfl .nil)) ?_
  change Except.ok (Value.qexpr [xs, ys].flatten) = _
  rw [List.flatten_cons, List.flatten_singleton]

theorem yields_equal {v w x y : Value} (hv : scope.Yields files caches v x) (hw : scope.Yields files caches w y)
    (hx : x.isError = false) (hy : y.isError = false) :
    scope.Yields files caches (apply "==" [v, w]) (.ofBool (x.equal y)) :=
  h.yields_operation .equal (.cons hv hx (.cons hw hy .nil)) rfl

theorem yields_eval {code r : Value} {cells : List Value} (hcode : scope.Yields files caches code (.qexpr cells))
    (hr : scope.Yields files caches (.sexpr cells) r) : scope.Yields files caches (apply "eval" [code]) r :=
  yields_call (.cons (h.yields_builtin .eval) rfl (.cons hcode rfl .nil)) (calls_eval hr)

theorem yields_branch {condition r : Value} {n : Int64} {yes no : List Value}
    (hcondition : scope.Yields files caches condition (.number n))
    (hr : scope.Yields files caches (.sexpr (if n = 0 then no else yes)) r) :
    scope.Yields files caches (apply "if" [condition, .qexpr yes, .qexpr no]) r :=
  yields_call (.cons (h.yields_builtin .branch) rfl
    (.cons hcondition rfl (.cons (yields_self rfl) rfl (.cons (yields_self rfl) rfl .nil)))) (calls_branch hr)

/-! ## Where a list comes to an end -/

theorem yields_nil : scope.Yields files caches (symbol "nil") (.qexpr []) :=
  h.yields_meaning (by decide)

theorem yields_isNil {name : String} {l : List Value} (hl : scope.get? (Bytes.of name) = some (.qexpr l)) :
    scope.Yields files caches (isNil name) (.ofBool l.isEmpty) := by
  have hequal : (Value.qexpr l).equal (.qexpr []) = l.isEmpty := by
    cases l with
    | nil => rfl
    | cons x xs => rfl
  rw [← hequal]
  exact h.yields_equal (yields_symbol hl) h.yields_nil rfl rfl

theorem yields_if_nil {name : String} {yes no : List Value} {r : Value}
    (hl : scope.get? (Bytes.of name) = some (.qexpr [])) (hr : scope.Yields files caches (.sexpr yes) r) :
    scope.Yields files caches (apply "if" [isNil name, .qexpr yes, .qexpr no]) r :=
  h.yields_branch (h.yields_isNil hl) hr

theorem yields_if_cons {name : String} {x : Value} {xs yes no : List Value} {r : Value}
    (hl : scope.get? (Bytes.of name) = some (.qexpr (x :: xs))) (hr : scope.Yields files caches (.sexpr no) r) :
    scope.Yields files caches (apply "if" [isNil name, .qexpr yes, .qexpr no]) r :=
  h.yields_branch (h.yields_isNil hl) hr

/-! ## Functions of the prelude -/

theorem yields_apply {name : String} (function : Value) {arg r : Value} {cells args : List Value}
    (hmeaning : (name, function) ∈ meanings) (hcells : scope.YieldsEach files caches cells (arg :: args))
    (hcall : scope.Calls files caches function (arg :: args) r) : scope.Yields files caches (apply name cells) r := by
  have hfunction := Value.isError_of_isSettled (isSettled_of_mem_meanings hmeaning)
  exact yields_call (.cons (h.yields_meaning hmeaning) hfunction hcells) hcall

theorem yields_fst {l x : Value} {xs : List Value} (hl : scope.Yields files caches l (.qexpr (x :: xs)))
    (hx : x.isNormal) : scope.Yields files caches (apply "fst" [l]) x := by
  refine h.yields_apply fst (by decide) (.cons hl rfl .nil) ?_
  refine h.calls_function (by decide) rfl fun inside hinside hbound => ?_
  have hinner : inside.get? (Bytes.of "l") = some (.qexpr (x :: xs)) := hbound _ (.head _)
  exact hinside.yields_eval (hinside.yields_head (yields_symbol hinner)) (yields_singleton (yields_self hx))

theorem yields_snd {l x y : Value} {xs : List Value} (hl : scope.Yields files caches l (.qexpr (x :: y :: xs)))
    (hy : y.isNormal) : scope.Yields files caches (apply "snd" [l]) y := by
  refine h.yields_apply snd (by decide) (.cons hl rfl .nil) ?_
  refine h.calls_function (by decide) rfl fun inside hinside hbound => ?_
  have hinner : inside.get? (Bytes.of "l") = some (.qexpr (x :: y :: xs)) := hbound _ (.head _)
  exact hinside.yields_eval (hinside.yields_head (hinside.yields_tail (yields_symbol hinner)))
    (yields_singleton (yields_self hy))

/-- A function is unpacked as an S-expression in which it stands in front of the items of the list. -/
theorem calls_unpack {function r : Value} {args : List Value} (hfunction : function.isError = false)
    (hr : ∀ inside : Scope, inside.Standard → inside.Yields files caches (.sexpr (function :: args)) r) :
    scope.Calls files caches unpack [function, .qexpr args] r := by
  refine h.calls_function (by decide) rfl fun inside hinside hbound => ?_
  have hf : inside.get? (Bytes.of "f") = some function := hbound _ (.head _)
  have hl : inside.get? (Bytes.of "l") = some (.qexpr args) := hbound _ (.tail _ (.head _))
  exact hinside.yields_eval (hinside.yields_join (hinside.yields_list (yields_symbol hf) hfunction) (yields_symbol hl))
    (hr inside hinside)

end Scope.Standard

end BraceLisp
