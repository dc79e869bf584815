import BraceLisp.Positional.Operation
import BraceLisp.Proofs.Eval.Arguments

/-!
# Operations never break down

Taken by position, operations compute what they compute by matching on their arguments. Their checks establish
that the cells which they go on to take are there, and every error has an entry in the catalogue and all the
particulars that its message mentions.
-/

namespace BraceLisp

def Fault.particulars : Fault → List Particular
  | .argCount function got expected => [function, got, expected]
  | .argEmpty function index => [function, index]
  | .argNone function => [function]
  | .argType function index got expected => [function, index, got, expected]
  | .divisionByZero => []
  | .raised message => [.text message]
  | .lambdaFormals got => [got]
  | .load reason => [reason]
  | .overflow function => [function]
  | .varCount function got expected => [function, got, expected]
  | .varNone function => [function]
  | .varSymbols function got => [function, got]
  | .callArity got expected => [got, expected]
  | .variadicRest => []
  | .variadicEnd => []
  | .notFunction got => [got]
  | .unbound name => [name]
  | .badNumber literal => [literal]

theorem FaultId.ofName?_name (id : FaultId) : FaultId.ofName? id.name = some id := by
  cases id <;> decide

theorem Fault.build?_particulars (fault : Fault) : Fault.build? fault.id fault.particulars = some fault := by
  cases fault <;> rfl

namespace Positional

variable {α β : Type}

/-! ## Errors -/

/-- The error of a fault is made under the name of its entry, from its own particulars. -/
theorem raise_eq (fault : Fault) : raise fault.id.name fault.particulars = .ok fault.toValue := by
  rw [raise, FaultId.ofName?_name]
  simp only [Fault.build?_particulars]

/-- An error with fewer particulars than its message mentions is not made. -/
example : raise FaultId.argCount.name [.text []] = .error (.badParticulars .argCount) := rfl

def ofFault : Except Fault α → Checked α
  | .ok a => pure a
  | .error fault => throw fault.toValue

@[simp] theorem ofFault_ok (a : α) : ofFault (.ok a) = pure a := rfl

theorem ofFault_bind (outcome : Except Fault α) (f : α → Except Fault β) :
    ofFault (outcome >>= f) = ofFault outcome >>= fun a => ofFault (f a) := by
  cases outcome with
  | ok a => rfl
  | error fault => rfl

theorem complain_eq (fault : Fault) :
    (complain fault.id.name fault.particulars : Checked α) = ofFault (.error fault) := by
  rw [complain, raise_eq]
  rfl

/-! ## Checks -/

theorem checkCount_eq (function : Bytes) (args : List Value) (expected : Nat) :
    checkCount function args expected =
      ofFault (if args.length = expected then .ok () else .error (Arguments.wrongCount function args expected)) := by
  unfold checkCount
  split
  · rfl
  · exact complain_eq (Arguments.wrongCount function args expected)

theorem checkNotEmpty_eq {function : Bytes} {args : List Value} {i : Nat} {v : Value} (hv : cell args i = .ok v) :
    checkNotEmpty function args i =
      ofFault (if v.cells.length = 0 then .error (.argEmpty (.text function) (.int i)) else .ok ()) := by
  rw [checkNotEmpty, hv]
  change (if v.cells.length = 0 then _ else _) = _
  split
  · exact complain_eq (.argEmpty (.text function) (.int i))
  · rfl

theorem checkSymbols_eq (name : Bytes) (particulars : List Particular) (vs : List Value) :
    checkSymbols name particulars vs =
      match firstNonSymbol? vs with
      | none => pure ()
      | some v => complain name (particulars ++ [.text v.type.name]) := by
  induction vs with
  | nil => rfl
  | cons v rest ih =>
      rw [checkSymbols, firstNonSymbol?, List.find?_cons]
      by_cases hv : v.type = .symbol
      · simp only [hv, if_true, bne_self_eq_false]
        exact ih
      · simp only [hv, if_false, bne_iff_ne.mpr hv]

/-! ## Checks of types -/

/-- A check lets through the arguments of a type, and complains about others as all checks of types do. -/
def Tests (check : Nat → Value → Except Fault α) (function : Bytes) (type : ValueType) : Prop :=
  ∀ i v, (check i v).map (fun _ => ()) =
    if v.type = type then .ok () else .error (Arguments.wrongType function i v type)

theorem tests_list (function : Bytes) : Tests (Arguments.list function) function .qexpr := by
  intro i v
  cases v <;> rfl

theorem tests_number (function : Bytes) : Tests (Arguments.number function) function .number := by
  intro i v
  cases v <;> rfl

theorem tests_string (function : Bytes) : Tests (Arguments.string function) function .string := by
  intro i v
  cases v <;> rfl

variable {check : Nat → Value → Except Fault α} {function : Bytes} {type : ValueType}

theorem Tests.checkType_eq (h : Tests check function type) {args : List Value} {i : Nat} {v : Value}
    (hv : cell args i = .ok v) :
    checkType function args i type = ofFault ((check i v).map fun _ => ()) := by
  rw [checkType, hv, h i v]
  change (if v.type = type then _ else _) = _
  split
  · rfl
  · exact complain_eq (Arguments.wrongType function i v type)

/-- Checking the types of all arguments by position is checking each of them in turn. -/
theorem Tests.checkEach_eq (h : Tests check function type) (args : List Value) :
    checkEach function args type = ofFault ((Arguments.each check 0 args).map fun _ => ()) := by
  suffices hfrom : ∀ done rest : List Value,
      forM (List.range' done.length rest.length) (fun i => checkType function (done ++ rest) i type) =
        ofFault ((Arguments.each check done.length rest).map fun _ => ()) by
    rw [checkEach, List.range_eq_range']
    exact hfrom [] args
  intro done rest
  induction rest generalizing done with
  | nil => rfl
  | cons v rest ih =>
      have hnext := ih (done ++ [v])
      rw [List.length_append, List.length_singleton, List.append_assoc, List.singleton_append] at hnext
      rw [List.length_cons, List.range'_succ, List.forM_cons, hnext, h.checkType_eq (cell_append_length done v rest),
        Arguments.each]
      cases check done.length v with
      | error fault => rfl
      | ok x =>
          cases Arguments.each check (done.length + 1) rest with
          | error fault => rfl
          | ok xs => rfl

theorem Tests.checkOne_eq (h : Tests check function type) (args : List Value) :
    checkOne function args type =
      ofFault (Except.map (fun _ => ()) (match args with
        | [v] => check 0 v
        | args => .error (Arguments.wrongCount function args 1))) := by
  rw [checkOne, checkCount_eq]
  match args with
  | [] => rfl
  | [v] =>
      rw [h.checkType_eq (cell_zero v [])]
      rfl
  | v :: w :: rest =>
      have hlength : (v :: w :: rest).length ≠ 1 := by simp
      rw [if_neg hlength]
      rfl

theorem Tests.checkTwo_eq (h : Tests check function type) (args : List Value) :
    checkTwo function args type =
      ofFault ((Arguments.twoValues function args >>= fun found =>
        check 0 found.1 >>= fun x => check 1 found.2 >>= fun y => pure (x, y)).map fun _ => ()) := by
  rw [checkTwo, checkCount_eq]
  match args with
  | [] => rfl
  | [v] => rfl
  | [v, w] =>
      have hfirst : cell [v, w] 0 = .ok v := rfl
      have hsecond : cell [v, w] 1 = .ok w := rfl
      have hpair : Arguments.twoValues function [v, w] = .ok (v, w) := rfl
      rw [h.checkType_eq hfirst, h.checkType_eq hsecond, hpair]
      change _ = ofFault (Except.map _ (check 0 v >>= fun x => check 1 w >>= fun y => pure (x, y)))
      cases check 0 v with
      | error fault => rfl
      | ok x =>
          cases check 1 w with
          | error fault => rfl
          | ok y => rfl
  | v :: w :: u :: rest =>
      have hlength : (v :: w :: u :: rest).length ≠ 2 := by simp
      rw [if_neg hlength]
      rfl

/-! ## Lists -/

theorem keepFirst_cons (v : Value) (rest : List Value) : keepFirst (v :: rest) = .ok [v] := by
  induction rest with
  | nil =>
      rw [keepFirst]
      rfl
  | cons w rest ih =>
      have hlength : ¬ (v :: w :: rest).length ≤ 1 := by
        simp
      rw [keepFirst, if_neg hlength]
      exact ih

theorem oneList_eq (function : Bytes) (args : List Value) :
    oneList function args = ofFault (Arguments.oneList function args) := by
  rw [oneList, (tests_list function).checkOne_eq]
  change (ofFault (Except.map _ (Arguments.oneList function args)) >>= _) = _
  cases hcells : Arguments.oneList function args with
  | error fault => rfl
  | ok cells =>
      obtain rfl := Arguments.oneList_eq_ok.mp hcells
      rfl

theorem oneString_eq (function : Bytes) (args : List Value) :
    oneString function args = ofFault (Arguments.oneString function args) := by
  rw [oneString, (tests_string function).checkOne_eq]
  change (ofFault (Except.map _ (Arguments.oneString function args)) >>= _) = _
  cases htext : Arguments.oneString function args with
  | error fault => rfl
  | ok text =>
      obtain rfl := Arguments.oneString_eq_ok.mp htext
      rfl

theorem checkOneList_eq (function : Bytes) (args : List Value) :
    checkOneList function args = ofFault ((Arguments.oneNonemptyList function args).map fun _ => ()) := by
  rw [checkOneList, (tests_list function).checkOne_eq, Arguments.oneNonemptyList]
  change (ofFault (Except.map _ (Arguments.oneList function args)) >>= _) = _
  cases hcells : Arguments.oneList function args with
  | error fault => rfl
  | ok cells =>
      obtain rfl := Arguments.oneList_eq_ok.mp hcells
      rw [checkNotEmpty_eq (cell_zero _ [])]
      cases cells with
      | nil => rfl
      | cons x rest => rfl

theorem head_eq (function : Bytes) (args : List Value) :
    head function args =
      ofFault (Arguments.oneNonemptyList function args >>= fun found => pure (.qexpr [found.1])) := by
  rw [head, checkOneList_eq]
  cases hfound : Arguments.oneNonemptyList function args with
  | error fault => rfl
  | ok found =>
      obtain ⟨x, rest⟩ := found
      obtain rfl := Arguments.oneNonemptyList_eq_ok.mp hfound
      have hkept : keepFirst (Value.qexpr (x :: rest)).cells = .ok [x] := keepFirst_cons x rest
      change (liftM (keepFirst (Value.qexpr (x :: rest)).cells) >>= fun cells => pure (Value.qexpr cells) :
        Checked Value) = _
      rw [hkept]
      rfl

theorem tail_eq (function : Bytes) (args : List Value) :
    tail function args =
      ofFault (Arguments.oneNonemptyList function args >>= fun found => pure (.qexpr found.2)) := by
  rw [tail, checkOneList_eq]
  cases hfound : Arguments.oneNonemptyList function args with
  | error fault => rfl
  | ok found =>
      obtain ⟨x, rest⟩ := found
      obtain rfl := Arguments.oneNonemptyList_eq_ok.mp hfound
      rfl

theorem joinTwo_qexpr (xs ys : List Value) : joinTwo (.qexpr xs) (.qexpr ys) = pure (.qexpr (xs ++ ys)) := by
  rw [joinTwo, drain_eq_foldlM, Value.cells]
  induction ys generalizing xs with
  | nil => simp
  | cons y ys ih =>
      rw [List.foldlM_cons, pure_bind]
      simpa [Value.cells, Value.withCells] using ih (xs ++ [y])

theorem foldlM_joinTwo (xs : List Value) (lists : List (List Value)) :
    (lists.map Value.qexpr).foldlM joinTwo (.qexpr xs) = pure (.qexpr (xs ++ lists.flatten)) := by
  induction lists generalizing xs with
  | nil => simp
  | cons ys lists ih =>
      rw [List.map_cons, List.foldlM_cons, joinTwo_qexpr, pure_bind, ih, List.flatten_cons, List.append_assoc]

theorem join_eq (function : Bytes) (args : List Value) :
    join function args =
      ofFault (Arguments.each (Arguments.list function) 0 args >>= fun lists => pure (.qexpr lists.flatten)) := by
  rw [join, (tests_list function).checkEach_eq]
  cases heach : Arguments.each (Arguments.list function) 0 args with
  | error fault => rfl
  | ok lists =>
      obtain rfl := (Arguments.each_eq_ok fun _ _ _ => Arguments.list_eq_ok).mp heach
      cases lists with
      | nil => rfl
      | cons xs lists =>
          have hjoined := foldlM_joinTwo xs lists
          rw [← drain_eq_foldlM] at hjoined
          exact hjoined

/-! ## Numbers -/

theorem arithmeticStep_eq (op : ArithOp) (x y : Int64) : arithmeticStep op x y = ofFault (op.step x y) := by
  unfold arithmeticStep ArithOp.step
  split
  · exact complain_eq .divisionByZero
  · dsimp only
    split
    · rfl
    · exact complain_eq (.overflow (.text op.name))

theorem foldlM_arithmeticStep (op : ArithOp) (n : Int64) (numbers : List Int64) :
    (numbers.map Value.number).foldlM (fun n y => arithmeticStep op n (numberOf y)) n =
      ofFault (op.fold n numbers) := by
  induction numbers generalizing n with
  | nil => rfl
  | cons y numbers ih =>
      rw [List.map_cons, List.foldlM_cons, numberOf, arithmeticStep_eq, ArithOp.fold]
      cases op.step n y with
      | error fault => rfl
      | ok z => exact ih z

theorem arithmetic_eq (op : ArithOp) (args : List Value) :
    arithmetic op args =
      ofFault (Arguments.each (Arguments.number op.name) 0 args >>= fun numbers =>
        op.run numbers >>= fun n => pure (.number n)) := by
  rw [arithmetic, (tests_number op.name).checkEach_eq]
  cases heach : Arguments.each (Arguments.number op.name) 0 args with
  | error fault => rfl
  | ok numbers =>
      obtain rfl := (Arguments.each_eq_ok fun _ _ _ => Arguments.number_eq_ok).mp heach
      cases numbers with
      | nil => exact complain_eq (.argNone (.text op.name))
      | cons x rest =>
          have hdrain (start : Int64) :
              drain (fun n y => arithmeticStep op n (numberOf y)) start (rest.map Value.number) =
                ofFault (op.fold start rest) := by
            rw [drain_eq_foldlM, foldlM_arithmeticStep]
          change (arithmeticStart op x (rest.map Value.number) >>= fun start =>
            drain (fun n y => arithmeticStep op n (numberOf y)) start (rest.map Value.number) >>= fun n =>
              pure (.number n) : Checked Value) = ofFault (op.run (x :: rest) >>= fun n => pure (.number n))
          simp only [hdrain, arithmeticStart]
          cases rest with
          | nil =>
              by_cases hop : op = .sub
              · subst hop
                simp only [ArithOp.run, ArithOp.fold, List.map_nil, List.length_nil, and_self, if_true,
                  arithmeticStep_eq, ofFault_bind, ofFault_ok, pure_bind]
                rfl
              · simp only [ArithOp.run, ArithOp.fold, hop, false_and, if_false, ofFault_bind, ofFault_ok, pure_bind]
                rfl
          | cons y rest =>
              have hlength : ¬ (op = .sub ∧ ((y :: rest).map Value.number).length = 0) := by simp
              rw [if_neg hlength, pure_bind, ArithOp.run, ofFault_bind]
              rfl

theorem order_eq (op : OrderOp) (args : List Value) :
    order op args =
      ofFault (Arguments.twoNumbers op.name args >>= fun found => pure (.ofBool (op.holds found.1 found.2))) := by
  rw [order, (tests_number op.name).checkTwo_eq]
  change (ofFault (Except.map _ (Arguments.twoNumbers op.name args)) >>= _) = _
  cases hfound : Arguments.twoNumbers op.name args with
  | error fault => rfl
  | ok found =>
      obtain ⟨x, y⟩ := found
      obtain rfl := Arguments.twoNumbers_eq_ok.mp hfound
      rfl

/-! ## Equality -/

theorem equalAll_of_length_ne {vs ws : List Value} (h : vs.length ≠ ws.length) :
    Value.equalAll vs ws = false := by
  induction vs generalizing ws with
  | nil =>
      cases ws with
      | nil => exact absurd rfl h
      | cons w ws => rfl
  | cons v vs ih =>
      cases ws with
      | nil => rfl
      | cons w ws =>
          have hrest : vs.length ≠ ws.length := fun hlength => h (congrArg Nat.succ hlength)
          rw [Value.equalAll, ih hrest, Bool.and_false]

mutual

theorem equal_eq (v w : Value) : equal v w = .ok (v.equal w) := by
  cases v with
  | closure f b own entered =>
      cases w with
      | closure f' b' own' entered' =>
          rw [equal, equal_eq f f', equal_eq b b', Value.equal]
          cases f.equal f' with
          | true => rfl
          | false => rfl
      | _ => rfl
  | sexpr cells =>
      cases w with
      | sexpr cells' =>
          rw [equal, Value.equal]
          exact equalFrom_eq_of_length cells cells'
      | _ => rfl
  | qexpr cells =>
      cases w with
      | qexpr cells' =>
          rw [equal, Value.equal]
          exact equalFrom_eq_of_length cells cells'
      | _ => rfl
  | _ => cases w <;> rfl

theorem equalFrom_eq (vs done ws : List Value) (h : vs.length = ws.length) :
    equalFrom vs (done ++ ws) done.length = .ok (Value.equalAll vs ws) := by
  cases vs with
  | nil =>
      obtain rfl := List.eq_nil_of_length_eq_zero h.symm
      rfl
  | cons v vs =>
      cases ws with
      | nil => cases h
      | cons w ws =>
          have hrest := equalFrom_eq vs (done ++ [w]) ws (Nat.succ.inj h)
          rw [List.length_append, List.length_singleton, List.append_assoc, List.singleton_append] at hrest
          rw [equalFrom, cell_append_length, Value.equalAll]
          change (equal v w >>= _) = _
          rw [equal_eq v w]
          cases v.equal w with
          | true => exact hrest
          | false => rfl

theorem equalFrom_eq_of_length (vs ws : List Value) :
    (if vs.length = ws.length then equalFrom vs ws 0 else pure false) = .ok (Value.equalAll vs ws) := by
  split
  · rename_i h
    exact equalFrom_eq vs [] ws h
  · rename_i h
    rw [equalAll_of_length_ne h]
    rfl

end

theorem compare_eq (function : Bytes) (sense : Bool) (args : List Value) :
    compare function sense args =
      ofFault (Arguments.twoValues function args >>= fun found =>
        pure (.ofBool (found.1.equal found.2 == sense))) := by
  rw [compare, checkCount_eq]
  match args with
  | [] => rfl
  | [v] => rfl
  | [v, w] =>
      change (liftM (equal v w) >>= fun same => pure (.ofBool (same == sense)) : Checked Value) = _
      rw [equal_eq]
      rfl
  | v :: w :: u :: rest =>
      have hlength : (v :: w :: u :: rest).length ≠ 2 := by simp
      rw [if_neg hlength]
      rfl

/-! ## Functions and errors -/

theorem lambda_eq (function : Bytes) (args : List Value) :
    lambda function args =
      ofFault (Arguments.twoLists function args >>= fun found => Operation.makeClosure found.1 found.2) := by
  rw [lambda, (tests_list function).checkTwo_eq]
  change (ofFault (Except.map _ (Arguments.twoLists function args)) >>= _) = _
  cases hfound : Arguments.twoLists function args with
  | error fault => rfl
  | ok found =>
      obtain ⟨formals, body⟩ := found
      obtain rfl := Arguments.twoLists_eq_ok.mp hfound
      change (checkSymbols (Bytes.of "built/lambda/formals") [] formals >>= fun _ =>
        pure (.lambda (.qexpr formals) (.qexpr body)) : Checked Value) = ofFault (Operation.makeClosure formals body)
      rw [checkSymbols_eq, Operation.makeClosure]
      cases firstNonSymbol? formals with
      | none => rfl
      | some formal =>
          have hcomplain : complain (Bytes.of "built/lambda/formals") [.text formal.type.name] =
              (ofFault (.error (.lambdaFormals (.text formal.type.name))) : Checked Unit) :=
            complain_eq (.lambdaFormals (.text formal.type.name))
          exact congrArg (· >>= fun _ => pure _) hcomplain

theorem raiseError_eq (function : Bytes) (args : List Value) :
    raiseError function args =
      ofFault (Arguments.oneString function args >>= fun message => .error (.raised message)) := by
  rw [raiseError, oneString_eq]
  cases Arguments.oneString function args with
  | error fault => rfl
  | ok message => exact complain_eq (.raised message)

/-- Operations compute by position what they compute. -/
theorem compute_eq (op : Operation) (args : List Value) : compute op args = ofFault (op.compute args) := by
  cases op with
  | list => rfl
  | head => exact head_eq _ args
  | tail => exact tail_eq _ args
  | join => exact join_eq _ args
  | arith op => exact arithmetic_eq op args
  | lambda => exact lambda_eq _ args
  | order op => exact order_eq op args
  | equal =>
      rw [compute, compare_eq]
      simp only [beq_true]
      rfl
  | notEqual =>
      rw [compute, compare_eq]
      simp only [beq_false]
      rfl
  | raise => exact raiseError_eq _ args

end Positional

end BraceLisp
