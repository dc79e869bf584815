import BraceLisp.Eval.Basic
import BraceLisp.Proofs.Eval.Arguments
import BraceLisp.Value.Number

/-!
# Exact arithmetic

A step of arithmetic computes a word and looks at signs to find out whether the word is the result. The signs tell
exactly what they should: a step gives the result that it has over the integers if that is a number of the language,
and fails otherwise. A product that is too large can have the right sign by chance; it does not come out again when the
word is divided.

From the step it follows by induction what becomes of any list of numbers, from left to right up to the first step that
fails.
-/

namespace BraceLisp

namespace Number

def Fits (n : Int) : Prop := least ≤ n ∧ n ≤ greatest

instance (n : Int) : Decidable (Fits n) := inferInstanceAs (Decidable (_ ∧ _))

theorem fits_toInt (x : Int64) : Fits x.toInt := by
  have hlower := x.le_toInt
  have hupper := x.toInt_lt
  simp only [Fits, least, greatest]
  omega

theorem exists_toInt_eq {n : Int} (h : Fits n) : ∃ z : Int64, z.toInt = n := by
  simp only [Fits, least, greatest] at h
  exact ⟨Int64.ofInt n, Int64.toInt_ofInt_of_le (by omega) (by omega)⟩

end Number

namespace ArithOp

open Number

/-- The result of an operation over the integers. Division rounds toward zero. -/
def exact : ArithOp → Int → Int → Int
  | .add, m, n => m + n
  | .sub, m, n => m - n
  | .mul, m, n => m * n
  | .div, m, n => m.tdiv n

def DividesByZero (op : ArithOp) (y : Int64) : Prop := op = .div ∧ y = 0

/-! ## Words and exact results -/

/-- The word that is computed is the exact result up to a multiple of the number of words. -/
theorem exists_toInt_word (op : ArithOp) (x y : Int64) :
    ∃ k : Int, (op.word x y).toInt = op.exact x.toInt y.toInt - k * (greatest - least + 1) := by
  cases op with
  | add => exact ⟨_, (Int64.toInt_add x y).trans (Int.bmod_eq_self_sub_bdiv_mul _ _)⟩
  | sub => exact ⟨_, (Int64.toInt_sub x y).trans (Int.bmod_eq_self_sub_bdiv_mul _ _)⟩
  | mul => exact ⟨_, (Int64.toInt_mul x y).trans (Int.bmod_eq_self_sub_bdiv_mul _ _)⟩
  | div => exact ⟨_, (Int64.toInt_div x y).trans (Int.bmod_eq_self_sub_bdiv_mul _ _)⟩

variable {op : ArithOp} {x y z : Int64}

/-- An exact result that fits is the word that is computed. -/
theorem toInt_word_of_fits (h : Fits (op.exact x.toInt y.toInt)) :
    (op.word x y).toInt = op.exact x.toInt y.toInt := by
  obtain ⟨k, hk⟩ := op.exists_toInt_word x y
  have hword := fits_toInt (op.word x y)
  simp only [Fits, least, greatest] at h hk hword
  omega

/-! ## Signs -/

theorem sign_mul_sign_iff {m n : Int} (hm : m ≠ 0) (hn : n ≠ 0) : m.sign * n.sign = -1 ↔ (m < 0 ↔ ¬ n < 0) := by
  rcases Int.lt_or_gt_of_ne hm with hm | hm
  · rw [Int.sign_eq_neg_one_of_neg hm, Int.neg_one_mul, Int.neg_inj]
    have h := Int.sign_eq_one_iff_pos (a := n)
    omega
  · rw [Int.sign_eq_one_of_pos hm, Int.one_mul, Int.sign_eq_neg_one_iff_neg]
    omega

theorem mul_lt_zero_iff {m n : Int} (hm : m ≠ 0) (hn : n ≠ 0) : m * n < 0 ↔ (m < 0 ↔ ¬ n < 0) := by
  rw [← Int.sign_eq_neg_one_iff_neg, Int.sign_mul, sign_mul_sign_iff hm hn]

theorem tdiv_lt_zero_iff {m n : Int} (h : m.tdiv n ≠ 0) : m.tdiv n < 0 ↔ (m < 0 ↔ ¬ n < 0) := by
  have hm : m ≠ 0 := by
    rintro rfl
    exact h (Int.zero_tdiv n)
  have hn : n ≠ 0 := by
    rintro rfl
    exact h (Int.tdiv_zero m)
  have hsign := Int.sign_tdiv m n
  by_cases hless : m.natAbs < n.natAbs
  · rw [if_pos hless, Int.sign_eq_zero_iff_zero] at hsign
    exact absurd hsign h
  · rw [if_neg hless] at hsign
    rw [← Int.sign_eq_neg_one_iff_neg, hsign, sign_mul_sign_iff hm hn]

/-- The only quotient that does not fit is the integer behind the greatest number. -/
theorem fits_tdiv_or {m : Int} (h : Fits m) (n : Int) : Fits (m.tdiv n) ∨ m.tdiv n = greatest + 1 := by
  have hle := Int.natAbs_tdiv_le_natAbs m n
  simp only [Fits, least, greatest] at h ⊢
  omega

theorem haveMixedSigns_iff : haveMixedSigns x y ↔ (x.toInt < 0 ↔ ¬ y.toInt < 0) := by
  simp only [haveMixedSigns, bne_iff_ne, ne_eq, decide_eq_decide, Int64.lt_iff_toInt_lt, Int64.toInt_zero]
  omega

theorem decide_eq_haveMixedSigns_iff :
    decide (z < 0) = haveMixedSigns x y ↔ (z.toInt < 0 ↔ (x.toInt < 0 ↔ ¬ y.toInt < 0)) := by
  rw [← haveMixedSigns_iff, Bool.eq_iff_iff, decide_eq_true_iff, Int64.lt_iff_toInt_lt, Int64.toInt_zero]

theorem toInt_ne_zero (h : x ≠ 0) : x.toInt ≠ 0 :=
  fun hzero => h (Int64.toInt_inj.mp hzero)

/-! ## What the signs tell -/

theorem isExact_add_iff : isExact .add x y (word .add x y) ↔ Fits (x.toInt + y.toInt) := by
  obtain ⟨k, hk⟩ := exists_toInt_word .add x y
  have hword := fits_toInt (word .add x y)
  have hx := fits_toInt x
  have hy := fits_toInt y
  simp only [isExact, beq_iff_eq, decide_eq_decide, Int64.lt_iff_toInt_lt, Int64.toInt_zero]
  simp only [exact, Fits, least, greatest] at *
  omega

theorem isExact_sub_iff : isExact .sub x y (word .sub x y) ↔ Fits (x.toInt - y.toInt) := by
  obtain ⟨k, hk⟩ := exists_toInt_word .sub x y
  have hword := fits_toInt (word .sub x y)
  have hx := fits_toInt x
  have hy := fits_toInt y
  simp only [isExact, beq_iff_eq, decide_eq_decide, Int64.lt_iff_toInt_lt, Int64.toInt_zero]
  simp only [exact, Fits, least, greatest] at *
  omega

/-- A quotient that does not fit is positive, and its word is negative. -/
theorem isExact_div_iff : isExact .div x y (word .div x y) ↔ Fits (x.toInt.tdiv y.toInt) := by
  have hsign (hne : x.toInt.tdiv y.toInt ≠ 0) := tdiv_lt_zero_iff hne
  simp only [isExact, Bool.or_eq_true, beq_iff_eq, decide_eq_haveMixedSigns_iff, ← Int64.toInt_inj, Int64.toInt_zero]
  constructor
  · intro htest
    obtain ⟨k, hk⟩ := exists_toInt_word .div x y
    have hword := fits_toInt (word .div x y)
    refine (fits_tdiv_or (fits_toInt x) y.toInt).resolve_right fun hquotient => ?_
    simp only [exact, hquotient, Fits, least, greatest] at hk hword hsign
    omega
  · intro hfits
    have hword : (word .div x y).toInt = x.toInt.tdiv y.toInt := toInt_word_of_fits hfits
    rw [hword]
    exact Classical.or_iff_not_imp_left.mpr hsign

theorem isExact_mul_of_ne_zero (hx : x ≠ 0) (hy : y ≠ 0) :
    isExact .mul x y z ↔ (z.toInt < 0 ↔ (x.toInt < 0 ↔ ¬ y.toInt < 0)) ∧ word .div z y = x := by
  simp only [isExact, Bool.or_eq_true, Bool.and_eq_true, beq_iff_eq, decide_eq_haveMixedSigns_iff, hx, hy, false_or]
  rfl

/-- A word of the right sign that gives the one factor when it is divided by the other is the product. -/
theorem fits_mul_of_word_div (hy : y ≠ 0) (hsign : (word .mul x y).toInt < 0 ↔ (x.toInt < 0 ↔ ¬ y.toInt < 0))
    (hagain : word .div (word .mul x y) y = x) : Fits (x.toInt * y.toInt) := by
  obtain ⟨k, hk⟩ := exists_toInt_word .mul x y
  generalize word .mul x y = z at hk hsign hagain
  have hx := fits_toInt x
  have hz := fits_toInt z
  rcases fits_tdiv_or hz y.toInt with hfits | hquotient
  · -- the rest of the division is a multiple of the number of words, and less than the divisor
    have hback : z.toInt.tdiv y.toInt = x.toInt := by
      have hword : (word .div z y).toInt = z.toInt.tdiv y.toInt := toInt_word_of_fits hfits
      rw [← hword, hagain]
    have hrest := Int.mul_tdiv_add_tmod z.toInt y.toInt
    rw [hback, Int.mul_comm] at hrest
    have hless : (z.toInt.tmod y.toInt).natAbs < y.toInt.natAbs := by
      rw [Int.natAbs_tmod]
      exact Nat.mod_lt _ (Int.natAbs_pos.mpr (toInt_ne_zero hy))
    have hyFits := fits_toInt y
    simp only [exact, Fits, least, greatest] at *
    omega
  · -- the quotient of two words of the same sign would be a negative word
    obtain ⟨k', hk'⟩ := exists_toInt_word .div z y
    have hdiv (hne : z.toInt.tdiv y.toInt ≠ 0) := tdiv_lt_zero_iff hne
    rw [hagain] at hk'
    simp only [exact, hquotient, Fits, least, greatest] at *
    omega

theorem isExact_mul_iff : isExact .mul x y (word .mul x y) ↔ Fits (x.toInt * y.toInt) := by
  by_cases hx : x = 0
  · subst hx
    simp [isExact, Fits, least, greatest]
  by_cases hy : y = 0
  · subst hy
    simp [isExact, Fits, least, greatest]
  rw [isExact_mul_of_ne_zero hx hy]
  constructor
  · rintro ⟨hsign, hagain⟩
    exact fits_mul_of_word_div hy hsign hagain
  · intro hfits
    have hword : (word .mul x y).toInt = x.toInt * y.toInt := toInt_word_of_fits hfits
    have hback : exact .div (word .mul x y).toInt y.toInt = x.toInt := by
      rw [hword]
      exact Int.mul_tdiv_cancel _ (toInt_ne_zero hy)
    refine ⟨?_, ?_⟩
    · rw [hword]
      exact mul_lt_zero_iff (toInt_ne_zero hx) (toInt_ne_zero hy)
    · rw [← Int64.toInt_inj, toInt_word_of_fits (hback ▸ fits_toInt x), hback]

/-! ## One step -/

/-- The signs tell whether the exact result is a number of the language. -/
theorem isExact_word_iff : op.isExact x y (op.word x y) ↔ Fits (op.exact x.toInt y.toInt) := by
  cases op with
  | add => exact isExact_add_iff
  | sub => exact isExact_sub_iff
  | mul => exact isExact_mul_iff
  | div => exact isExact_div_iff

theorem step_of_dividesByZero (h : op.DividesByZero y) : op.step x y = .error .divisionByZero :=
  if_pos h

theorem step_of_fits (hy : ¬ op.DividesByZero y) (h : Fits (op.exact x.toInt y.toInt)) :
    op.step x y = .ok (op.word x y) := by
  exact (if_neg hy).trans (if_pos (isExact_word_iff.mpr h))

theorem step_of_not_fits (hy : ¬ op.DividesByZero y) (h : ¬ Fits (op.exact x.toInt y.toInt)) :
    op.step x y = .error (.overflow (.text op.name)) := by
  exact (if_neg hy).trans (if_neg (mt isExact_word_iff.mp h))

/-- A step gives the number that is its exact result, and no other. -/
theorem step_eq_ok_iff : op.step x y = .ok z ↔ ¬ op.DividesByZero y ∧ z.toInt = op.exact x.toInt y.toInt := by
  by_cases hy : op.DividesByZero y
  · simp [step_of_dividesByZero hy, hy]
  by_cases hfits : Fits (op.exact x.toInt y.toInt)
  · rw [step_of_fits hy hfits, Except.ok.injEq, ← Int64.toInt_inj, toInt_word_of_fits hfits, eq_comm]
    exact (and_iff_right hy).symm
  · have hother : z.toInt ≠ op.exact x.toInt y.toInt := fun h => hfits (h ▸ fits_toInt z)
    simp [step_of_not_fits hy hfits, hother]

/-! ## Many steps -/

/-- The exact result of the steps over some numbers, from left to right. -/
def total (op : ArithOp) (start : Int) (numbers : List Int64) : Int :=
  numbers.foldl (fun n y => op.exact n y.toInt) start

/-- No step over some numbers divides by zero, and the exact results on the way all fit. -/
def NeverFails (op : ArithOp) (start : Int) (numbers : List Int64) : Prop :=
  (∀ y ∈ numbers, ¬ op.DividesByZero y) ∧ ∀ k ≤ numbers.length, Fits (op.total start (numbers.take k))

variable {numbers rest : List Int64}

theorem neverFails_nil (x : Int64) : op.NeverFails x.toInt [] :=
  ⟨List.forall_mem_nil _, fun _ _ => by rw [List.take_nil]; exact fits_toInt x⟩

theorem neverFails_cons_iff :
    op.NeverFails x.toInt (y :: rest) ↔ ¬ op.DividesByZero y ∧ op.NeverFails (op.exact x.toInt y.toInt) rest := by
  simp only [NeverFails, List.forall_mem_cons, and_assoc]
  refine and_congr_right fun _ => and_congr_right fun _ => ⟨fun h k hk => ?_, fun h k hk => ?_⟩
  · exact h (k + 1) (Nat.succ_le_succ hk)
  · cases k with
    | zero => exact fits_toInt x
    | succ k => exact h k (Nat.le_of_succ_le_succ hk)

theorem fold_cons : op.fold x (y :: rest) = op.step x y >>= fun z => op.fold z rest := by
  rw [fold]
  cases op.step x y with
  | ok z => rfl
  | error fault => rfl

/-- Steps over some numbers give the number that is their exact result, if none of them fails. -/
theorem fold_eq_ok_iff :
    op.fold x numbers = .ok z ↔ op.NeverFails x.toInt numbers ∧ z.toInt = op.total x.toInt numbers := by
  induction numbers generalizing x with
  | nil =>
      rw [fold, Except.ok.injEq, ← Int64.toInt_inj, eq_comm]
      exact (and_iff_right (neverFails_nil x)).symm
  | cons y rest ih =>
      rw [fold_cons, bind_eq_ok, neverFails_cons_iff]
      simp only [step_eq_ok_iff, ih]
      constructor
      · rintro ⟨u, ⟨hy, hu⟩, hrest, hz⟩
        rw [hu] at hrest hz
        exact ⟨⟨hy, hrest⟩, hz⟩
      · rintro ⟨⟨hy, hrest⟩, hz⟩
        have hu : (op.word x y).toInt = op.exact x.toInt y.toInt := toInt_word_of_fits (hrest.2 0 (Nat.zero_le _))
        refine ⟨op.word x y, ⟨hy, hu⟩, ?_⟩
        rw [hu]
        exact ⟨hrest, hz⟩

theorem NeverFails.exists_fold (h : op.NeverFails x.toInt numbers) :
    ∃ z, op.fold x numbers = .ok z ∧ z.toInt = op.total x.toInt numbers := by
  have hfits := h.2 numbers.length (Nat.le_refl _)
  rw [List.take_length] at hfits
  obtain ⟨z, hz⟩ := exists_toInt_eq hfits
  exact ⟨z, fold_eq_ok_iff.mpr ⟨h, hz⟩, hz⟩

/-- If a step fails, the first that does decides which fault is found. -/
theorem exists_of_not_neverFails (h : ¬ op.NeverFails x.toInt numbers) :
    ∃ before y after, numbers = before ++ y :: after ∧ op.NeverFails x.toInt before ∧
      (op.DividesByZero y ∧ op.fold x numbers = .error .divisionByZero ∨
        ¬ op.DividesByZero y ∧ ¬ Fits (op.exact (op.total x.toInt before) y.toInt) ∧
          op.fold x numbers = .error (.overflow (.text op.name))) := by
  induction numbers generalizing x with
  | nil => exact absurd (neverFails_nil x) h
  | cons y rest ih =>
      rw [fold_cons]
      by_cases hy : op.DividesByZero y
      · refine ⟨[], y, rest, rfl, neverFails_nil x, .inl ⟨hy, ?_⟩⟩
        rw [step_of_dividesByZero hy]
        rfl
      by_cases hfits : Fits (op.exact x.toInt y.toInt)
      · have hword := toInt_word_of_fits hfits
        have hrest : ¬ op.NeverFails (op.word x y).toInt rest := by
          rw [hword]
          exact fun hrest => h (neverFails_cons_iff.mpr ⟨hy, hrest⟩)
        obtain ⟨before, u, after, rfl, hbefore, hfails⟩ := ih hrest
        rw [hword] at hbefore hfails
        rw [step_of_fits hy hfits]
        exact ⟨y :: before, u, after, rfl, neverFails_cons_iff.mpr ⟨hy, hbefore⟩, hfails⟩
      · refine ⟨[], y, rest, rfl, neverFails_nil x, .inr ⟨hy, hfits, ?_⟩⟩
        rw [step_of_not_fits hy hfits]
        rfl

/-! ## Arguments -/

/--
Where the steps over some arguments start, and over which numbers they go: from the first over the others, but a
single number is subtracted from zero.
-/
def operands (op : ArithOp) (x : Int64) (rest : List Int64) : Int64 × List Int64 :=
  if op = .sub ∧ rest = [] then (0, [x]) else (x, rest)

theorem run_cons : op.run (x :: rest) = op.fold (op.operands x rest).1 (op.operands x rest).2 := by
  cases rest with
  | nil =>
      rw [run, operands]
      by_cases hsub : op = .sub
      · rw [if_pos hsub, if_pos ⟨hsub, rfl⟩, fold_cons]
        exact (bind_pure _).symm
      · rw [if_neg hsub, if_neg fun h => hsub h.1]
        rfl
  | cons y rest =>
      rw [run, operands, if_neg fun h => List.cons_ne_nil _ _ h.2]

end ArithOp

namespace Operation

variable (op : ArithOp)

theorem compute_arith (numbers : List Int64) :
    compute (.arith op) (numbers.map Value.number) = (op.run numbers).map Value.number := by
  have hnumbers : Arguments.each (Arguments.number op.name) 0 (numbers.map Value.number) = .ok numbers :=
    (Arguments.each_eq_ok fun _ _ _ => Arguments.number_eq_ok).mpr rfl
  have hcomputed : compute (.arith op) (numbers.map Value.number) =
      op.run numbers >>= fun n => pure (Value.number n) :=
    congrArg (fun checked => checked >>= fun numbers => op.run numbers >>= fun n => pure (Value.number n)) hnumbers
  rw [hcomputed]
  cases op.run numbers with
  | ok n => rfl
  | error fault => rfl

/-- Two numbers are a single step. -/
theorem compute_arith_pair (x y : Int64) :
    compute (.arith op) [.number x, .number y] = (op.step x y).map Value.number := by
  have hcomputed := compute_arith op [x, y]
  rw [List.map_cons, List.map_cons, List.map_nil, ArithOp.run, ArithOp.fold_cons] at hcomputed
  rw [hcomputed]
  exact congrArg (Except.map Value.number) (bind_pure (op.step x y))

theorem compute_arith_of_not_number {before : List Value} (hbefore : ∀ w ∈ before, w.type = .number) {v : Value}
    (hv : v.type ≠ .number) (after : List Value) :
    compute (.arith op) (before ++ v :: after) =
      .error (Arguments.wrongType op.name before.length v .number) := by
  have hchecked (i : Nat) (w : Value) (hw : w ∈ before) : ∃ n, Arguments.number op.name i w = .ok n := by
    have hnumber := hbefore w hw
    cases w with
    | number n => exact ⟨n, rfl⟩
    | _ => cases hnumber
  have hrefused (i : Nat) : Arguments.number op.name i v = .error (Arguments.wrongType op.name i v .number) := by
    cases v with
    | number n => exact absurd rfl hv
    | _ => rfl
  simp only [compute, name, Arguments.each_append_of_error hchecked (hrefused _)]
  rw [Nat.zero_add]
  rfl

end Operation

namespace Builtin

variable {op : Operation} {args : List Value} (files : Files) (ev : Value → EvalM Value) (s : State)

theorem apply_operation_of_ok {v : Value} (h : op.compute args = .ok v) :
    (operation op).apply files ev args s = some (v, s) := by
  rw [apply, h]
  rfl

theorem apply_operation_of_error {fault : Fault} (h : op.compute args = .error fault) :
    (operation op).apply files ev args s = some (fault.toValue, s) := by
  rw [apply, h]
  rfl

end Builtin

/--
Arithmetic on numbers gives the exact result of the steps from left to right, if no step divides by zero and all results
on the way fit; otherwise the first step that fails decides whether the error is a division by zero or an overflow. An
argument that is no number is complained about before anything is computed, and the first of them is. Nothing changes.
-/
theorem arithmetic_exact_or_error (files : Files) (ev : Value → EvalM Value) (op : ArithOp) (s : State) :
    (∀ x rest,
      let start := (op.operands x rest).1.toInt
      let numbers := (op.operands x rest).2
      let outcome := (Builtin.operation (.arith op)).apply files ev ((x :: rest).map Value.number) s
      (∀ n : Int, (∃ z : Int64, z.toInt = n ∧ outcome = some (.number z, s)) ↔
        op.NeverFails start numbers ∧ n = op.total start numbers) ∧
      (¬ op.NeverFails start numbers →
        ∃ before y after, numbers = before ++ y :: after ∧ op.NeverFails start before ∧
          (op.DividesByZero y ∧ outcome = some (Fault.divisionByZero.toValue, s) ∨
            ¬ op.DividesByZero y ∧ ¬ Number.Fits (op.exact (op.total start before) y.toInt) ∧
              outcome = some ((Fault.overflow (.text op.name)).toValue, s)))) ∧
    ∀ before v after, (∀ w ∈ before, w.type = .number) → v.type ≠ .number →
      (Builtin.operation (.arith op)).apply files ev (before ++ v :: after) s =
        some ((Fault.argType (.text op.name) (.int before.length) (.text v.type.name)
          (.text ValueType.number.name)).toValue, s) := by
  refine ⟨fun x rest => ?_, fun before v after hbefore hv => ?_⟩
  · intro start numbers outcome
    have hcomputed := Operation.compute_arith op (x :: rest)
    rw [ArithOp.run_cons] at hcomputed
    have hok {z : Int64} (h : op.fold (op.operands x rest).1 numbers = .ok z) : outcome = some (.number z, s) := by
      rw [h] at hcomputed
      exact Builtin.apply_operation_of_ok files ev s hcomputed
    have herror {fault : Fault} (h : op.fold (op.operands x rest).1 numbers = .error fault) :
        outcome = some (fault.toValue, s) := by
      rw [h] at hcomputed
      exact Builtin.apply_operation_of_error files ev s hcomputed
    refine ⟨fun n => ⟨?_, ?_⟩, fun hfails => ?_⟩
    · rintro ⟨z, rfl, hz⟩
      cases hfold : op.fold (op.operands x rest).1 numbers with
      | ok u =>
          rw [hok hfold] at hz
          obtain rfl : u = z := by simpa using hz
          exact ArithOp.fold_eq_ok_iff.mp hfold
      | error fault =>
          rw [herror hfold] at hz
          cases hz
    · rintro ⟨hnumbers, rfl⟩
      obtain ⟨z, hfold, hz⟩ := hnumbers.exists_fold
      exact ⟨z, hz, hok hfold⟩
    · obtain ⟨before, y, after, hsplit, hbefore, hstops⟩ := ArithOp.exists_of_not_neverFails hfails
      refine ⟨before, y, after, hsplit, hbefore, hstops.imp ?_ ?_⟩
      · rintro ⟨hy, hfold⟩
        exact ⟨hy, herror hfold⟩
      · rintro ⟨hy, hfits, hfold⟩
        exact ⟨hy, hfits, herror hfold⟩
  · have hcomputed := Operation.compute_arith_of_not_number op hbefore hv after
    exact Builtin.apply_operation_of_error files ev s hcomputed

/--
The least number divided by -1 is too large by one, and is not divided by zero after that; a string behind a number is
complained about.
-/
theorem arithmetic_exact_or_error_of_least :
    ∀ s, (Builtin.operation (.arith .div)).apply (fun _ => .missing) (eval (fun _ => .missing) 1)
        [.number Int64.minValue, .number (-1), .number 0] s =
          some ((Fault.overflow (.text (ArithOp.name .div))).toValue, s) ∧
      (Builtin.operation (.arith .add)).apply (fun _ => .missing) (eval (fun _ => .missing) 1)
        [.number 1, .string [], .symbol []] s =
          some ((Fault.argType (.text (ArithOp.name .add)) (.int 1) (.text ValueType.string.name)
            (.text ValueType.number.name)).toValue, s) := by
  intro s
  have htoolarge : ¬ Number.Fits (ArithOp.total .div Int64.minValue.toInt [-1]) := by decide
  have hfails : ¬ ArithOp.NeverFails .div Int64.minValue.toInt [-1, 0] := fun h => htoolarge (h.2 1 (by decide))
  have hdivision := (arithmetic_exact_or_error (fun _ => .missing) (eval (fun _ => .missing) 1) .div s).1
    Int64.minValue [-1, 0]
  have haddition := (arithmetic_exact_or_error (fun _ => .missing) (eval (fun _ => .missing) 1) .add s).2
    [.number 1] (.string []) [.symbol []] (List.forall_mem_singleton.mpr rfl) (by decide)
  refine ⟨?_, haddition⟩
  obtain ⟨before, y, after, hsplit, hbefore, hstops⟩ := hdivision.2 hfails
  rcases hstops with ⟨⟨-, rfl⟩, -⟩ | ⟨-, -, hoverflow⟩
  · cases before with
    | nil => cases hsplit
    | cons x before =>
        obtain rfl : -1 = x := (List.cons.inj hsplit).1
        exact absurd (hbefore.2 1 (Nat.succ_le_succ (Nat.zero_le _))) htoolarge
  · exact hoverflow

end BraceLisp
