import BraceLisp.Proofs.Prelude.HigherOrder

/-!
# Sums and products of lists

`sum` and `product` fold a list of numbers with an operation of arithmetic that takes any number of arguments itself.
The fold is recursive, evaluates every item once more and meets a fault deep inside nested calls; the operation goes
through its arguments in one loop. Both take the same steps up to the first that fails, and come to the same number or
the same error.
-/

namespace BraceLisp

open Prelude

namespace ArithOp

def result (op : ArithOp) (x : Int64) (numbers : List Int64) : Value :=
  match op.fold x numbers with
  | .ok z => .number z
  | .error fault => fault.toValue

variable {op : ArithOp} {x y z : Int64} {rest : List Int64}

theorem result_cons_of_ok (h : op.step x y = .ok z) : op.result x (y :: rest) = op.result z rest := by
  rw [result, fold, h]
  rfl

theorem result_cons_of_error {fault : Fault} (h : op.step x y = .error fault) :
    op.result x (y :: rest) = fault.toValue := by
  rw [result, fold, h]

theorem result_of_neverFails (h : op.NeverFails x.toInt rest) :
    ∃ z, op.result x rest = .number z ∧ z.toInt = op.total x.toInt rest := by
  obtain ⟨z, hfold, hz⟩ := h.exists_fold
  refine ⟨z, ?_, hz⟩
  rw [result, hfold]

theorem result_of_not_neverFails (hop : op ≠ .div) (h : ¬ op.NeverFails x.toInt rest) :
    op.result x rest = (Fault.overflow (.text op.name)).toValue := by
  obtain ⟨before, y, after, -, -, ⟨hzero, -⟩ | ⟨-, -, hfold⟩⟩ := exists_of_not_neverFails h
  · exact absurd hzero.1 hop
  · rw [result, hfold]

/-- The steps begin with the first number if it is put behind zero. -/
theorem result_add_zero (x : Int64) (rest : List Int64) : result .add 0 (x :: rest) = result .add x rest := by
  refine result_cons_of_ok (step_eq_ok_iff.mpr ⟨fun h => (nomatch h.1), ?_⟩)
  rw [exact, Int64.toInt_zero, Int.zero_add]

theorem result_mul_one (x : Int64) (rest : List Int64) : result .mul 1 (x :: rest) = result .mul x rest := by
  refine result_cons_of_ok (step_eq_ok_iff.mpr ⟨fun h => (nomatch h.1), ?_⟩)
  rw [exact, Int64.toInt_one, Int.one_mul]

end ArithOp

namespace Scope

variable {files : Files} {caches : ParseCache → Prop} {root : Frame} {scope : Scope}

theorem calls_foldl_arith (hroot : Session.BindsStart root) (op : ArithOp) (x : Int64) (numbers : List Int64)
    (h : scope.Above root) :
    scope.Calls files caches foldl [.builtin (.operation (.arith op)), .number x, .qexpr (numbers.map .number)]
      (op.result x numbers) := by
  induction numbers generalizing x scope with
  | nil => exact calls_foldl_nil hroot h
  | cons y rest ih =>
      have hcomputed := Operation.compute_arith_pair op x y
      cases hstep : op.step x y with
      | ok z =>
          rw [hstep] at hcomputed
          rw [ArithOp.result_cons_of_ok hstep]
          exact calls_foldl_cons hroot h rfl rfl rfl (answers_operation hcomputed rfl) fun inside habove => ih z habove
      | error fault =>
          rw [hstep] at hcomputed
          rw [ArithOp.result_cons_of_error hstep]
          exact calls_foldl_cons_of_error hroot h rfl rfl rfl rfl fun _ _ => calls_operation_of_error hcomputed

theorem calls_total (hroot : Session.BindsStart root) {operation : String} {op : ArithOp}
    (hname : Bytes.of operation = op.name) (unit : Int64) (numbers : List Int64)
    (h : scope.Above root) :
    scope.Calls files caches (total operation unit) [.qexpr (numbers.map .number)] (op.result unit numbers) := by
  refine h.calls_function hroot (by decide) rfl fun inside habove hinside hbound => ?_
  have hl : inside.get? (Bytes.of "l") = some (.qexpr (numbers.map .number)) := hbound _ (.head _)
  have hoperation : inside.Yields files caches (symbol operation) (.builtin (.operation (.arith op))) := by
    rw [symbol, hname]
    exact hinside.yields_builtin (.operation (.arith op))
  refine hinside.yields_apply foldl (by decide) ?_ (calls_foldl_arith hroot op unit numbers habove)
  exact .cons hoperation rfl (.cons (yields_self rfl) rfl (.cons (yields_symbol hl) rfl .nil))

/-- The number in front may be left out if it makes no difference to the first item. -/
theorem Above.yields_total (h : scope.Above root) (hroot : Session.BindsStart root)
    {name operation : String} {op : ArithOp} {unit x : Int64} {rest : List Int64}
    (hmeaning : (name, total operation unit) ∈ meanings) (hname : Bytes.of operation = op.name)
    (hunit : op.result unit (x :: rest) = op.result x rest) :
    scope.Yields files caches (apply name [.qexpr ((x :: rest).map .number)]) (op.result x rest) := by
  rw [← hunit]
  exact (h.standard hroot).yields_apply (total operation unit) hmeaning
    (.cons (yields_self rfl) rfl .nil) (calls_total hroot hname unit (x :: rest) h)

/-- An operation that is given all the numbers at once. -/
theorem Standard.yields_arith (h : scope.Standard) {op : ArithOp} (hop : op ≠ .sub) (x : Int64) (rest : List Int64) :
    scope.Yields files caches (.sexpr (.symbol op.name :: (x :: rest).map .number)) (op.result x rest) := by
  have hargs : scope.YieldsEach files caches ((x :: rest).map .number) ((x :: rest).map .number) :=
    yieldsEach_self (List.forall_mem_map.mpr fun _ _ => rfl)
  refine yields_call (.cons (h.yields_builtin (.operation (.arith op))) rfl hargs) ?_
  have hcomputed := Operation.compute_arith op (x :: rest)
  rw [ArithOp.run_cons, ArithOp.operands, if_neg fun hsub => hop hsub.1] at hcomputed
  rw [ArithOp.result]
  cases hfold : op.fold x rest with
  | ok z =>
      rw [hfold] at hcomputed
      exact calls_operation hcomputed
  | error fault =>
      rw [hfold] at hcomputed
      exact calls_operation_of_error hcomputed

end Scope

open Scope in
/--
The sum of a list that is not empty is what `+` gives of its numbers, and the product what `*` gives. It is the same
number if all results on the way fit, and the same overflow otherwise, also if a later number would make up for it.
-/
theorem list_totals_agree (files : Files) (caches : ParseCache → Prop) {root : Frame}
    (hroot : Session.BindsStart root) (x : Int64) (rest : List Int64) :
    ∀ name op, (name, op) ∈ [("sum", ArithOp.add), ("product", ArithOp.mul)] → ∃ r,
      Yields files caches ⟨[], root⟩ (apply name [.qexpr ((x :: rest).map .number)]) r ∧
      Yields files caches ⟨[], root⟩ (.sexpr (.symbol op.name :: (x :: rest).map .number)) r ∧
      (op.NeverFails x.toInt rest → ∃ z, r = .number z ∧ z.toInt = op.total x.toInt rest) ∧
      (¬ op.NeverFails x.toInt rest → r = (Fault.overflow (.text op.name)).toValue) := by
  intro name op hentry
  have habove := above_root root
  have hstandard := hroot.standard
  simp only [List.mem_cons, List.not_mem_nil, or_false, Prod.mk.injEq] at hentry
  rcases hentry with ⟨rfl, rfl⟩ | ⟨rfl, rfl⟩
  · refine ⟨ArithOp.result .add x rest, ?_, hstandard.yields_arith (by decide) x rest,
      ArithOp.result_of_neverFails, ArithOp.result_of_not_neverFails (by decide)⟩
    exact habove.yields_total hroot (by decide) rfl (ArithOp.result_add_zero x rest)
  · refine ⟨ArithOp.result .mul x rest, ?_, hstandard.yields_arith (by decide) x rest,
      ArithOp.result_of_neverFails, ArithOp.result_of_not_neverFails (by decide)⟩
    exact habove.yields_total hroot (by decide) rfl (ArithOp.result_mul_one x rest)

open Scope in
/-- A sum that is too large on the way overflows, although the last number would make up for it. -/
theorem list_totals_agree_of_overflow :
    Session.BindsStart startUp ∧
    Yields (fun _ => .missing) (fun _ => True) ⟨[], startUp⟩
      (apply "sum" [.qexpr [.number Int64.maxValue, .number 1, .number (-1)]])
      (Fault.overflow (.text (ArithOp.name .add))).toValue ∧
    Yields (fun _ => .missing) (fun _ => True) ⟨[], startUp⟩
      (apply "+" [.number Int64.maxValue, .number 1, .number (-1)])
      (Fault.overflow (.text (ArithOp.name .add))).toValue := by
  have htoolarge : ¬ Number.Fits (ArithOp.total .add Int64.maxValue.toInt [1]) := by decide
  have hfails : ¬ ArithOp.NeverFails .add Int64.maxValue.toInt [1, -1] := fun h => htoolarge (h.2 1 (by decide))
  obtain ⟨r, hsum, hplus, -, hoverflow⟩ := list_totals_agree (fun _ => .missing) (fun _ => True)
    Session.bindsStart_startUp Int64.maxValue [1, -1] "sum" .add (List.mem_cons_self)
  rw [hoverflow hfails] at hsum hplus
  exact ⟨Session.bindsStart_startUp, hsum, hplus⟩

end BraceLisp
