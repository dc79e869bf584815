import BraceLisp.Proofs.Prelude.Lists

/-!
# Counting along lists

`len` counts the cells of a list, and `take`, `drop` and `split` count down while they go along one. None of them
evaluates a cell: whatever the cells are, nothing is printed or bound, and the cells come back as they were.

A number that is negative or greater than the length leads past the end of the list, where an operation complains that
it is given no cells. The list gets shorter with every call, so this comes to an end whatever the number is; only a
number that is too close to the least one to be counted down as often overflows before.
-/

namespace BraceLisp

open Prelude

namespace Prelude

def isZero : Value := apply "==" [symbol "n", .number 0]

def lessOne : Value := apply "-" [symbol "n", .number 1]

/-- A function that passes over as many cells of `l` as `n` says, and then goes on with some code. -/
def counting (name : String) (code : List Value) : Value :=
  function ["n", "l"]
    [symbol "if", isZero, .qexpr code, .qexpr [symbol name, lessOne, apply "tail" [symbol "l"]]]

theorem drop_eq_counting : drop = counting "drop" [symbol "l"] := rfl

def noCells (op : Operation) : Fault := .argEmpty (.text op.name) (.int 0)

def outOfRange (op : ArithOp) : Fault := .overflow (.text op.name)

/-- The complaint where a list ends before `n` has been counted down, if a cell is looked at before each count. -/
def pastCells (n : Int64) (l : List Value) : Fault :=
  if n.toInt - l.length < Number.least then outOfRange .sub else noCells .head

/-- The complaint where a list ends before `n` has been counted down, if a cell is passed over after each count. -/
def pastEnd (n : Int64) (l : List Value) : Fault :=
  if n.toInt - l.length ≤ Number.least then outOfRange .sub else noCells .tail

def lengthOf (l : List Value) : Value :=
  match Number.ofInt? l.length with
  | some k => .number k
  | none => (outOfRange .add).toValue

section Past

variable {n m : Int64} {x : Value} {xs l : List Value}

theorem ne_zero_of_past (hpast : n.toInt < 0 ∨ l.length < n.toInt) : n ≠ 0 := by
  rintro rfl
  rw [Int64.toInt_zero] at hpast
  omega

/-- What leads past the end of a list leads past its end from the next cell on. -/
theorem past_tail (hpast : n.toInt < 0 ∨ (x :: xs).length < n.toInt) (hm : m.toInt = n.toInt - 1) :
    m.toInt < 0 ∨ xs.length < m.toInt := by
  rw [List.length_cons] at hpast
  omega

theorem pastEnd_nil (hfits : Number.Fits (n.toInt - 1)) : pastEnd n [] = noCells .tail := by
  refine if_neg fun h => ?_
  simp only [Number.Fits, List.length_nil] at hfits h
  omega

theorem pastEnd_of_not_fits (hfits : ¬ Number.Fits (n.toInt - 1)) : pastEnd n l = outOfRange .sub := by
  have hn := Number.fits_toInt n
  refine if_pos ?_
  simp only [Number.Fits] at hfits hn
  omega

theorem pastEnd_cons (hm : m.toInt = n.toInt - 1) : pastEnd n (x :: xs) = pastEnd m xs := by
  have hleft : n.toInt - (x :: xs).length = m.toInt - xs.length := by
    rw [hm, List.length_cons]
    omega
  rw [pastEnd, pastEnd, hleft]

theorem pastCells_nil : pastCells n [] = noCells .head := by
  have hn := Number.fits_toInt n
  refine if_neg fun h => ?_
  simp only [Number.Fits, List.length_nil] at hn h
  omega

theorem pastCells_cons_of_not_fits (hfits : ¬ Number.Fits (n.toInt - 1)) :
    pastCells n (x :: xs) = outOfRange .sub := by
  have hn := Number.fits_toInt n
  refine if_pos ?_
  simp only [Number.Fits, List.length_cons] at hfits hn ⊢
  omega

theorem pastCells_cons (hm : m.toInt = n.toInt - 1) : pastCells n (x :: xs) = pastCells m xs := by
  have hleft : n.toInt - (x :: xs).length = m.toInt - xs.length := by
    rw [hm, List.length_cons]
    omega
  rw [pastCells, pastCells, hleft]

end Past

/-- A number above zero can be counted down. -/
theorem exists_pred {n : Int64} {k : Nat} (h : n.toInt = (k + 1 : Nat)) :
    n ≠ 0 ∧ ∃ m : Int64, m.toInt = n.toInt - 1 ∧ m.toInt = k := by
  have hn := Number.fits_toInt n
  have hpred : Number.Fits (n.toInt - 1) := by
    simp only [Number.Fits, Number.least, Number.greatest] at hn ⊢
    omega
  obtain ⟨m, hm⟩ := Number.exists_toInt_eq hpred
  refine ⟨?_, m, hm, by omega⟩
  rintro rfl
  rw [Int64.toInt_zero] at h
  omega

theorem lengthOf_of_toInt_eq {k : Int64} {l : List Value} (h : k.toInt = l.length) : lengthOf l = .number k := by
  rw [lengthOf, ← h, Number.ofInt?_toInt]

theorem lengthOf_of_not_fits {l : List Value} (h : ¬ Number.Fits l.length) :
    lengthOf l = (outOfRange .add).toValue := by
  have hnone : Number.ofInt? l.length = none := if_neg h
  rw [lengthOf, hnone]

end Prelude

namespace Scope.Standard

variable {files : Files} {caches : ParseCache → Prop} {scope : Scope} (h : scope.Standard)

include h

theorem yields_noCells (op : Operation) (hop : op = .head ∨ op = .tail) {l : Value}
    (hl : scope.Yields files caches l (.qexpr [])) :
    scope.Yields files caches (.sexpr [.symbol op.name, l]) (noCells op).toValue := by
  refine h.yields_operation_of_error op (.cons hl rfl .nil) ?_
  rcases hop with rfl | rfl
  · rfl
  · rfl

/-! ## Counting -/

section Exact

variable (op : ArithOp) (hop : op ≠ .div) {v w : Value} {x y : Int64}
  (hv : scope.Yields files caches v (.number x)) (hw : scope.Yields files caches w (.number y))

include hop hv hw

theorem yields_exact {z : Int64} (hz : z.toInt = op.exact x.toInt y.toInt) :
    scope.Yields files caches (.sexpr [.symbol op.name, v, w]) (.number z) := by
  have hstep : op.step x y = .ok z := ArithOp.step_eq_ok_iff.mpr ⟨fun hdiv => hop hdiv.1, hz⟩
  refine h.yields_operation (.arith op) (.cons hv rfl (.cons hw rfl .nil)) ?_
  rw [Operation.compute_arith_pair, hstep]
  rfl

theorem yields_outOfRange (hfits : ¬ Number.Fits (op.exact x.toInt y.toInt)) :
    scope.Yields files caches (.sexpr [.symbol op.name, v, w]) (outOfRange op).toValue := by
  have hstep : op.step x y = .error (outOfRange op) := ArithOp.step_of_not_fits (fun hdiv => hop hdiv.1) hfits
  refine h.yields_operation_of_error (.arith op) (.cons hv rfl (.cons hw rfl .nil)) ?_
  rw [Operation.compute_arith_pair, hstep]
  rfl

end Exact

/-- One is added to the number of cells of a list; an overflow stays one. -/
theorem yields_oneMore {v x : Value} {xs : List Value} (hv : scope.Yields files caches v (lengthOf xs)) :
    scope.Yields files caches (apply "+" [.number 1, v]) (lengthOf (x :: xs)) := by
  have hone : scope.Yields files caches (.number 1) (.number 1) := yields_self rfl
  have hlength : ((x :: xs).length : Int) = 1 + xs.length := by
    rw [List.length_cons, Int.natCast_succ, Int.add_comm]
  by_cases hxs : Number.Fits xs.length
  · obtain ⟨k, hk⟩ := Number.exists_toInt_eq hxs
    rw [lengthOf_of_toInt_eq hk] at hv
    by_cases hfits : Number.Fits (x :: xs).length
    · obtain ⟨m, hm⟩ := Number.exists_toInt_eq hfits
      rw [lengthOf_of_toInt_eq hm]
      refine h.yields_exact .add (by decide) hone hv ?_
      rw [hm, hlength, ← hk]
      rfl
    · rw [lengthOf_of_not_fits hfits]
      refine h.yields_outOfRange .add (by decide) hone hv ?_
      rw [hlength, ← hk] at hfits
      exact hfits
  · have hcons : ¬ Number.Fits (x :: xs).length := by
      simp only [Number.Fits, Number.least, Number.greatest] at hxs ⊢
      omega
    rw [lengthOf_of_not_fits hxs] at hv
    rw [lengthOf_of_not_fits hcons]
    exact yields_error (.cons (h.yields_builtin (.operation (.arith .add))) rfl (.cons hone rfl .nil)) hv rfl []

section Down

variable {n : Int64} (hn : scope.get? (Bytes.of "n") = some (.number n))

include hn

theorem yields_if_isZero {yes no : List Value} {r : Value}
    (hr : scope.Yields files caches (.sexpr (if n = 0 then yes else no)) r) :
    scope.Yields files caches (apply "if" [isZero, .qexpr yes, .qexpr no]) r := by
  have hzero : scope.Yields files caches isZero (.ofBool (n == 0)) :=
    h.yields_equal (yields_symbol hn) (yields_self rfl) rfl rfl
  refine h.yields_branch hzero ?_
  by_cases hn : n = 0
  · rwa [hn] at hr ⊢
  · rw [if_neg hn] at hr
    rwa [beq_eq_false_iff_ne.mpr hn]

theorem yields_lessOne {m : Int64} (hm : m.toInt = n.toInt - 1) : scope.Yields files caches lessOne (.number m) :=
  h.yields_exact .sub (by decide) (yields_symbol hn) (yields_self rfl) hm

theorem yields_lessOne_of_not_fits (hfits : ¬ Number.Fits (n.toInt - 1)) :
    scope.Yields files caches lessOne (outOfRange .sub).toValue :=
  h.yields_outOfRange .sub (by decide) (yields_symbol hn) (yields_self rfl) hfits

end Down

end Scope.Standard

namespace Scope

variable {files : Files} {caches : ParseCache → Prop} {scope : Scope}

theorem calls_len (l : List Value) (h : scope.Standard) :
    scope.Calls files caches len [.qexpr l] (lengthOf l) := by
  induction l generalizing scope with
  | nil =>
      refine h.calls_function (by decide) rfl fun inside hinside hbound => ?_
      exact hinside.yields_if_nil (hbound _ (.head _)) (yields_singleton (yields_self rfl))
  | cons x xs ih =>
      refine h.calls_function (by decide) rfl fun inside hinside hbound => ?_
      have hl : inside.get? (Bytes.of "l") = some (.qexpr (x :: xs)) := hbound _ (.head _)
      have hrest : inside.Yields files caches (apply "len" [apply "tail" [symbol "l"]]) (lengthOf xs) :=
        hinside.yields_apply len (by decide) (.cons (hinside.yields_tail (yields_symbol hl)) rfl .nil) (ih hinside)
      exact hinside.yields_if_cons hl (hinside.yields_oneMore hrest)

/-! ## Passing over cells -/

section Counting

variable {name : String} {code : List Value} {n m : Int64} {x r : Value} {xs l : List Value}

/-- Inside a function that counts down, its number and its list are bound. -/
theorem Standard.calls_counting_body (h : scope.Standard)
    (hbody : ∀ inside : Scope, inside.Standard → inside.get? (Bytes.of "n") = some (.number n) →
      inside.get? (Bytes.of "l") = some (.qexpr l) →
        inside.Yields files caches (.sexpr (if n = 0 then code else
          [symbol name, lessOne, apply "tail" [symbol "l"]])) r) :
    scope.Calls files caches (counting name code) [.number n, .qexpr l] r := by
  refine h.calls_function (by decide) rfl fun inside hinside hbound => ?_
  have hn : inside.get? (Bytes.of "n") = some (.number n) := hbound _ (.head _)
  have hl : inside.get? (Bytes.of "l") = some (.qexpr l) := hbound _ (.tail _ (.head _))
  exact hinside.yields_if_isZero hn (hbody inside hinside hn hl)

theorem calls_counting_zero (h : scope.Standard)
    (hcode : ∀ inside : Scope, inside.Standard → inside.get? (Bytes.of "l") = some (.qexpr l) →
      inside.Yields files caches (.sexpr code) r) :
    scope.Calls files caches (counting name code) [.number 0, .qexpr l] r :=
  h.calls_counting_body fun inside hinside _ hl => hcode inside hinside hl

variable (hmeaning : (name, counting name code) ∈ meanings) (hn : n ≠ 0) (h : scope.Standard)

include hmeaning hn h

theorem calls_counting_cons (hm : m.toInt = n.toInt - 1)
    (hrest : ∀ inside : Scope, inside.Standard →
      inside.Calls files caches (counting name code) [.number m, .qexpr xs] r) :
    scope.Calls files caches (counting name code) [.number n, .qexpr (x :: xs)] r := by
  refine h.calls_counting_body fun inside hinside hbound hl => ?_
  have htail : inside.Yields files caches (apply "tail" [symbol "l"]) (.qexpr xs) :=
    hinside.yields_tail (yields_symbol hl)
  rw [if_neg hn]
  exact hinside.yields_apply _ hmeaning (.cons (hinside.yields_lessOne hbound hm) rfl (.cons htail rfl .nil))
    (hrest inside hinside)

theorem calls_counting_nil (hm : m.toInt = n.toInt - 1) :
    scope.Calls files caches (counting name code) [.number n, .qexpr []] (noCells .tail).toValue := by
  refine h.calls_counting_body fun inside hinside hbound hl => ?_
  have hfunction := Value.isError_of_isSettled (isSettled_of_mem_meanings hmeaning)
  rw [if_neg hn]
  exact yields_error (.cons (hinside.yields_meaning hmeaning) hfunction
    (.cons (hinside.yields_lessOne hbound hm) rfl .nil))
    (hinside.yields_noCells .tail (.inr rfl) (yields_symbol hl)) rfl []

theorem calls_counting_of_not_fits (hfits : ¬ Number.Fits (n.toInt - 1)) :
    scope.Calls files caches (counting name code) [.number n, .qexpr l] (outOfRange .sub).toValue := by
  refine h.calls_counting_body fun inside hinside hbound hl => ?_
  have hfunction := Value.isError_of_isSettled (isSettled_of_mem_meanings hmeaning)
  rw [if_neg hn]
  exact yields_error (.cons (hinside.yields_meaning hmeaning) hfunction .nil)
    (hinside.yields_lessOne_of_not_fits hbound hfits) rfl [apply "tail" [symbol "l"]]

omit hn in
theorem calls_counting_pastEnd (hpast : n.toInt < 0 ∨ l.length < n.toInt) :
    scope.Calls files caches (counting name code) [.number n, .qexpr l] (pastEnd n l).toValue := by
  induction l generalizing n scope with
  | nil =>
      by_cases hfits : Number.Fits (n.toInt - 1)
      · obtain ⟨m, hm⟩ := Number.exists_toInt_eq hfits
        rw [pastEnd_nil hfits]
        exact calls_counting_nil hmeaning (ne_zero_of_past hpast) h hm
      · rw [pastEnd_of_not_fits hfits]
        exact calls_counting_of_not_fits hmeaning (ne_zero_of_past hpast) h hfits
  | cons x xs ih =>
      by_cases hfits : Number.Fits (n.toInt - 1)
      · obtain ⟨m, hm⟩ := Number.exists_toInt_eq hfits
        rw [pastEnd_cons hm]
        exact calls_counting_cons hmeaning (ne_zero_of_past hpast) h hm fun inside hinside =>
          ih hinside (past_tail hpast hm)
      · rw [pastEnd_of_not_fits hfits]
        exact calls_counting_of_not_fits hmeaning (ne_zero_of_past hpast) h hfits

end Counting

theorem calls_counting {name : String} {code : List Value} {n : Int64} {k : Nat} {r : Value} {l : List Value}
    (hmeaning : (name, counting name code) ∈ meanings) (hk : k ≤ l.length) (hn : n.toInt = k)
    (hcode : ∀ inside : Scope, inside.Standard → inside.get? (Bytes.of "l") = some (.qexpr (l.drop k)) →
      inside.Yields files caches (.sexpr code) r) (h : scope.Standard) :
    scope.Calls files caches (counting name code) [.number n, .qexpr l] r := by
  induction k generalizing n l scope with
  | zero =>
      obtain rfl : n = 0 := Int64.toInt_inj.mp hn
      exact calls_counting_zero h hcode
  | succ k ih =>
      cases l with
      | nil => exact absurd hk (Nat.not_succ_le_zero k)
      | cons x xs =>
          obtain ⟨hzero, m, hm, hmk⟩ := exists_pred hn
          exact calls_counting_cons hmeaning hzero h hm fun inside hinside =>
            ih (Nat.le_of_succ_le_succ hk) hmk hcode hinside

/-! ## Taking cells -/

section Take

variable {n m : Int64} {x r : Value} {xs ys l : List Value}

/-- Inside `take`, its number and its list are bound. -/
theorem Standard.calls_take_body (h : scope.Standard)
    (hbody : ∀ inside : Scope, inside.Standard → inside.get? (Bytes.of "n") = some (.number n) →
      inside.get? (Bytes.of "l") = some (.qexpr l) →
        inside.Yields files caches (.sexpr (if n = 0 then [symbol "nil"] else
          [symbol "join", apply "head" [symbol "l"], apply "take" [lessOne, apply "tail" [symbol "l"]]])) r) :
    scope.Calls files caches take [.number n, .qexpr l] r := by
  refine h.calls_function (by decide) rfl fun inside hinside hbound => ?_
  have hn : inside.get? (Bytes.of "n") = some (.number n) := hbound _ (.head _)
  have hl : inside.get? (Bytes.of "l") = some (.qexpr l) := hbound _ (.tail _ (.head _))
  exact hinside.yields_if_isZero hn (hbody inside hinside hn hl)

theorem calls_take_zero (h : scope.Standard) : scope.Calls files caches take [.number 0, .qexpr l] (.qexpr []) :=
  h.calls_take_body fun _ hinside _ _ => yields_singleton hinside.yields_nil

variable (hn : n ≠ 0) (h : scope.Standard)

include hn h

theorem calls_take_nil : scope.Calls files caches take [.number n, .qexpr []] (noCells .head).toValue := by
  refine h.calls_take_body fun inside hinside _ hl => ?_
  rw [if_neg hn]
  exact yields_error (.cons (hinside.yields_builtin (.operation .join)) rfl .nil)
    (hinside.yields_noCells .head (.inl rfl) (yields_symbol hl)) rfl [_]

/-- The first cell is put in front of what comes of the others. -/
theorem calls_take_cons (hrest : ∀ inside : Scope, inside.Standard →
      inside.get? (Bytes.of "n") = some (.number n) → inside.get? (Bytes.of "l") = some (.qexpr (x :: xs)) →
        inside.Yields files caches (apply "take" [lessOne, apply "tail" [symbol "l"]]) (.qexpr ys)) :
    scope.Calls files caches take [.number n, .qexpr (x :: xs)] (.qexpr (x :: ys)) := by
  refine h.calls_take_body fun inside hinside hbound hl => ?_
  rw [if_neg hn]
  exact hinside.yields_join (hinside.yields_head (yields_symbol hl)) (hrest inside hinside hbound hl)

theorem calls_take_cons_of_error (hr : r.isError = true) (hrest : ∀ inside : Scope, inside.Standard →
      inside.get? (Bytes.of "n") = some (.number n) → inside.get? (Bytes.of "l") = some (.qexpr (x :: xs)) →
        inside.Yields files caches (apply "take" [lessOne, apply "tail" [symbol "l"]]) r) :
    scope.Calls files caches take [.number n, .qexpr (x :: xs)] r := by
  refine h.calls_take_body fun inside hinside hbound hl => ?_
  rw [if_neg hn]
  exact yields_error (.cons (hinside.yields_builtin (.operation .join)) rfl
    (.cons (hinside.yields_head (yields_symbol hl)) rfl .nil)) (hrest inside hinside hbound hl) hr []

omit hn in
/-- What comes of the other cells is what the function returns for one cell less. -/
theorem Standard.yields_take_tail (hbound : scope.get? (Bytes.of "n") = some (.number n))
    (hl : scope.get? (Bytes.of "l") = some (.qexpr (x :: xs))) (hm : m.toInt = n.toInt - 1)
    (hcall : scope.Calls files caches take [.number m, .qexpr xs] r) :
    scope.Yields files caches (apply "take" [lessOne, apply "tail" [symbol "l"]]) r := by
  have htail : scope.Yields files caches (apply "tail" [symbol "l"]) (.qexpr xs) := h.yields_tail (yields_symbol hl)
  exact h.yields_apply take (by decide) (.cons (h.yields_lessOne hbound hm) rfl (.cons htail rfl .nil)) hcall

omit hn in
theorem calls_take_pastCells (hpast : n.toInt < 0 ∨ l.length < n.toInt) :
    scope.Calls files caches take [.number n, .qexpr l] (pastCells n l).toValue := by
  have hzero : n ≠ 0 := ne_zero_of_past hpast
  induction l generalizing n scope with
  | nil =>
      rw [pastCells_nil]
      exact calls_take_nil hzero h
  | cons x xs ih =>
      refine calls_take_cons_of_error hzero h rfl fun inside hinside hbound hl => ?_
      by_cases hfits : Number.Fits (n.toInt - 1)
      · obtain ⟨m, hm⟩ := Number.exists_toInt_eq hfits
        have hrest : m.toInt < 0 ∨ xs.length < m.toInt := past_tail hpast hm
        rw [pastCells_cons hm]
        exact hinside.yields_take_tail hbound hl hm (ih hinside hrest (ne_zero_of_past hrest))
      · rw [pastCells_cons_of_not_fits hfits]
        have hfunction : inside.Yields files caches (symbol "take") take := hinside.yields_meaning (by decide)
        exact yields_error (.cons hfunction rfl .nil)
          (hinside.yields_lessOne_of_not_fits hbound hfits) rfl [_]

end Take

theorem calls_take {n : Int64} {k : Nat} {l : List Value} (hk : k ≤ l.length) (hn : n.toInt = k)
    (h : scope.Standard) : scope.Calls files caches take [.number n, .qexpr l] (.qexpr (l.take k)) := by
  induction k generalizing n l scope with
  | zero =>
      obtain rfl : n = 0 := Int64.toInt_inj.mp hn
      exact calls_take_zero h
  | succ k ih =>
      cases l with
      | nil => exact absurd hk (Nat.not_succ_le_zero k)
      | cons x xs =>
          obtain ⟨hzero, m, hm, hmk⟩ := exists_pred hn
          exact calls_take_cons hzero h fun inside hinside hbound hl =>
            hinside.yields_take_tail hbound hl hm (ih (Nat.le_of_succ_le_succ hk) hmk hinside)

/-! ## Splitting -/

section Split

variable {n : Int64} {k : Nat} {l : List Value} (h : scope.Standard)

include h

theorem Standard.calls_drop (hk : k ≤ l.length) (hn : n.toInt = k) :
    scope.Calls files caches drop [.number n, .qexpr l] (.qexpr (l.drop k)) := by
  rw [drop_eq_counting]
  exact calls_counting (by decide) hk hn (fun _ _ hl => yields_singleton (yields_symbol hl)) h

/-- Inside `split`, its number and its list are bound. -/
theorem Standard.calls_split_body {r : Value}
    (hbody : ∀ inside : Scope, inside.Standard →
      inside.YieldsEach files caches [symbol "n", symbol "l"] [.number n, .qexpr l] →
        inside.Yields files caches (.sexpr [symbol "list", apply "take" [symbol "n", symbol "l"],
          apply "drop" [symbol "n", symbol "l"]]) r) :
    scope.Calls files caches split [.number n, .qexpr l] r := by
  refine h.calls_function (by decide) rfl fun inside hinside hbound => hbody inside hinside ?_
  have hn : inside.get? (Bytes.of "n") = some (.number n) := hbound _ (.head _)
  have hl : inside.get? (Bytes.of "l") = some (.qexpr l) := hbound _ (.tail _ (.head _))
  exact .cons (yields_symbol hn) rfl (.cons (yields_symbol hl) rfl .nil)

theorem Standard.calls_split (hk : k ≤ l.length) (hn : n.toInt = k) :
    scope.Calls files caches split [.number n, .qexpr l] (.qexpr [.qexpr (l.take k), .qexpr (l.drop k)]) := by
  refine h.calls_split_body fun inside hinside hargs => ?_
  have htake : inside.Yields files caches (apply "take" [symbol "n", symbol "l"]) (.qexpr (l.take k)) :=
    hinside.yields_apply take (by decide) hargs (calls_take hk hn hinside)
  have hdrop : inside.Yields files caches (apply "drop" [symbol "n", symbol "l"]) (.qexpr (l.drop k)) :=
    hinside.yields_apply drop (by decide) hargs (hinside.calls_drop hk hn)
  exact hinside.yields_operation .list (.cons htake rfl (.cons hdrop rfl .nil)) rfl

/-- The cells that cannot be taken are missed before any are dropped. -/
theorem Standard.calls_split_pastCells (hpast : n.toInt < 0 ∨ l.length < n.toInt) :
    scope.Calls files caches split [.number n, .qexpr l] (pastCells n l).toValue := by
  refine h.calls_split_body fun inside hinside hargs => ?_
  have htake : inside.Yields files caches (apply "take" [symbol "n", symbol "l"]) (pastCells n l).toValue :=
    hinside.yields_apply take (by decide) hargs (calls_take_pastCells hinside hpast)
  exact yields_error (.cons (hinside.yields_builtin (.operation .list)) rfl .nil) htake rfl [_]

/-- The two parts of a list are put together again. -/
theorem Standard.yields_join_split {parts : Value} (hparts : scope.Yields files caches parts
      (.qexpr [.qexpr (l.take k), .qexpr (l.drop k)])) :
    scope.Yields files caches (apply "unpack" [symbol "join", parts]) (.qexpr l) := by
  have hjoin (inside : Scope) (hinside : inside.Standard) : inside.Yields files caches
      (.sexpr [.builtin (.operation .join), .qexpr (l.take k), .qexpr (l.drop k)]) (.qexpr l) := by
    refine yields_call (yieldsEach_self (by simp [Value.isSettled, Value.isNormal, Value.isError])) ?_
    refine calls_operation ?_
    change Except.ok (Value.qexpr [l.take k, l.drop k].flatten) = _
    rw [List.flatten_cons, List.flatten_singleton, List.take_append_drop]
  exact h.yields_apply unpack (by decide)
    (.cons (h.yields_builtin (.operation .join)) rfl (.cons hparts rfl .nil)) (h.calls_unpack rfl hjoin)

end Split

end Scope

/-! ## Expressions -/

namespace Prelude

def counted (name : String) (n : Int64) (l : List Value) : Value :=
  apply name [.number n, .qexpr l]

end Prelude

open Scope in
/--
The length of a list is the number of its cells. A number from zero up to the length splits a list into as many cells
from its front and the others, which can be put together again; every other number comes to an error. The cells are
any values, also code that would print, bind names or never come to an end: none is evaluated.
-/
theorem lists_taken_apart (files : Files) (caches : ParseCache → Prop) {root : Frame}
    (hroot : Session.BindsStart root) (l : List Value) (n : Int64) :
    Yields files caches ⟨[], root⟩ (apply "len" [.qexpr l]) (lengthOf l) ∧
    (∀ k ≤ l.length, n.toInt = k →
      Yields files caches ⟨[], root⟩ (counted "take" n l) (.qexpr (l.take k)) ∧
      Yields files caches ⟨[], root⟩ (counted "drop" n l) (.qexpr (l.drop k)) ∧
      Yields files caches ⟨[], root⟩ (counted "split" n l) (.qexpr [.qexpr (l.take k), .qexpr (l.drop k)]) ∧
      Yields files caches ⟨[], root⟩ (apply "unpack" [symbol "join", counted "split" n l]) (.qexpr l)) ∧
    (n.toInt < 0 ∨ l.length < n.toInt →
      Yields files caches ⟨[], root⟩ (counted "take" n l) (pastCells n l).toValue ∧
      Yields files caches ⟨[], root⟩ (counted "drop" n l) (pastEnd n l).toValue ∧
      Yields files caches ⟨[], root⟩ (counted "split" n l) (pastCells n l).toValue) := by
  have h := hroot.standard
  have hargs : Scope.YieldsEach files caches ⟨[], root⟩ [.number n, .qexpr l] [.number n, .qexpr l] :=
    .cons (yields_self rfl) rfl (.cons (yields_self rfl) rfl .nil)
  refine ⟨?_, fun k hk hn => ?_, fun hpast => ?_⟩
  · exact h.yields_apply len (by decide) (.cons (yields_self rfl) rfl .nil) (calls_len l h)
  · have hsplit : Yields files caches ⟨[], root⟩ (counted "split" n l)
        (.qexpr [.qexpr (l.take k), .qexpr (l.drop k)]) :=
      h.yields_apply split (by decide) hargs (h.calls_split hk hn)
    refine ⟨?_, ?_, hsplit, h.yields_join_split hsplit⟩
    · exact h.yields_apply take (by decide) hargs (calls_take hk hn h)
    · exact h.yields_apply drop (by decide) hargs (h.calls_drop hk hn)
  · refine ⟨?_, ?_, ?_⟩
    · exact h.yields_apply take (by decide) hargs (calls_take_pastCells h hpast)
    · exact h.yields_apply drop (by decide) hargs (calls_counting_pastEnd (by decide) h hpast)
    · exact h.yields_apply split (by decide) hargs (h.calls_split_pastCells hpast)

open Scope in
/--
A name without a value, code that prints, and an error are counted and split as they are. The least number cannot be
counted down once.
-/
theorem lists_taken_apart_of_code :
    Session.BindsStart startUp ∧
    Yields (fun _ => .missing) (fun _ => True) ⟨[], startUp⟩
      (apply "len" [.qexpr [symbol "unbound", apply "print" [.number 1], Fault.divisionByZero.toValue]])
      (.number 3) ∧
    Yields (fun _ => .missing) (fun _ => True) ⟨[], startUp⟩
      (counted "split" 1 [symbol "unbound", apply "print" [.number 1], Fault.divisionByZero.toValue])
      (.qexpr [.qexpr [symbol "unbound"], .qexpr [apply "print" [.number 1], Fault.divisionByZero.toValue]]) ∧
    Yields (fun _ => .missing) (fun _ => True) ⟨[], startUp⟩
      (counted "take" 4 [symbol "unbound", apply "print" [.number 1], Fault.divisionByZero.toValue])
      (noCells .head).toValue ∧
    Yields (fun _ => .missing) (fun _ => True) ⟨[], startUp⟩
      (counted "drop" Int64.minValue [symbol "unbound", apply "print" [.number 1], Fault.divisionByZero.toValue])
      (outOfRange .sub).toValue := by
  have hall := lists_taken_apart (fun _ => .missing) (fun _ => True) Session.bindsStart_startUp
    [symbol "unbound", apply "print" [.number 1], Fault.divisionByZero.toValue]
  refine ⟨Session.bindsStart_startUp, (hall 0).1, ?_, ?_, ?_⟩
  · exact ((hall 1).2.1 1 (by decide) rfl).2.2.1
  · exact ((hall 4).2.2 (.inr (by decide))).1
  · exact ((hall Int64.minValue).2.2 (.inl (by decide))).2.1

end BraceLisp
