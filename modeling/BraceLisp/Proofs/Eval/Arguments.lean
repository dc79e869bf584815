import BraceLisp.Eval.Builtin

/-!
# What checks of arguments let through

A check that succeeds tells exactly which arguments it was given. What operations compute and which names a
definition binds is then read off the arguments themselves.
-/

namespace BraceLisp

/-- Two checks in a row let through what the second makes of what the first lets through. -/
theorem bind_eq_ok {ε α β : Type} {check : Except ε α} {next : α → Except ε β} {y : β} :
    (check >>= next) = .ok y ↔ ∃ x, check = .ok x ∧ next x = .ok y := by
  cases check with
  | error e =>
      constructor
      · intro h; cases h
      · rintro ⟨x, h, -⟩; cases h
  | ok x =>
      constructor
      · intro h; exact ⟨x, rfl, h⟩
      · rintro ⟨x', hx, h⟩
        cases hx
        exact h

namespace Arguments

variable {function : Bytes} {index : Nat}

/-! ## One argument -/

@[simp]
theorem number_eq_ok {v : Value} {n : Int64} : number function index v = .ok n ↔ v = .number n := by
  cases v <;> simp [number]

@[simp]
theorem string_eq_ok {v : Value} {s : Bytes} : string function index v = .ok s ↔ v = .string s := by
  cases v <;> simp [string]

@[simp]
theorem list_eq_ok {v : Value} {cells : List Value} : list function index v = .ok cells ↔ v = .qexpr cells := by
  cases v <;> simp [list]

/-! ## All arguments -/

theorem each_eq_ok {α : Type} {check : Nat → Value → Except Fault α} {make : α → Value}
    (hcheck : ∀ i v x, check i v = .ok x ↔ v = make x) {args : List Value} {xs : List α} :
    each check index args = .ok xs ↔ args = xs.map make := by
  induction args generalizing index xs with
  | nil =>
      cases xs with
      | nil => simp [each]
      | cons x xs => simp [each]
  | cons v rest ih =>
      simp only [each, bind_eq_ok, hcheck, ih, pure, Except.pure, Except.ok.injEq]
      constructor
      · rintro ⟨x, rfl, tail, rfl, rfl⟩
        rfl
      · intro h
        cases xs with
        | nil => cases h
        | cons x xs =>
            obtain ⟨hv, hrest⟩ := List.cons.inj h
            exact ⟨x, hv, xs, hrest, rfl⟩

/-- A check of all arguments fails at the first that it refuses. -/
theorem each_append_of_error {α : Type} {check : Nat → Value → Except Fault α} {before : List Value}
    (hbefore : ∀ i, ∀ w ∈ before, ∃ x, check i w = .ok x) {v : Value} {fault : Fault}
    (hv : check (index + before.length) v = .error fault) (after : List Value) :
    each check index (before ++ v :: after) = .error fault := by
  induction before generalizing index with
  | nil =>
      rw [List.length_nil, Nat.add_zero] at hv
      simp only [List.nil_append, each, hv]
      rfl
  | cons w before ih =>
      obtain ⟨x, hx⟩ := hbefore index w List.mem_cons_self
      have hrest : check (index + 1 + before.length) v = .error fault := by
        rwa [Nat.add_assoc, Nat.add_comm 1]
      simp only [List.cons_append, each, hx, ih (fun i u hu => hbefore i u (List.mem_cons_of_mem w hu)) hrest]
      rfl

theorem oneString_eq_ok {args : List Value} {s : Bytes} :
    oneString function args = .ok s ↔ args = [.string s] := by
  match args with
  | [] => simp [oneString]
  | [v] => simp [oneString]
  | _ :: _ :: _ => simp [oneString]

theorem oneList_eq_ok {args : List Value} {cells : List Value} :
    oneList function args = .ok cells ↔ args = [.qexpr cells] := by
  match args with
  | [] => simp [oneList]
  | [v] => simp [oneList]
  | _ :: _ :: _ => simp [oneList]

theorem mem_of_oneList {args cells : List Value} (h : oneList function args = .ok cells) :
    .qexpr cells ∈ args := by
  rw [oneList_eq_ok.mp h]
  exact List.mem_cons_self

theorem oneNonemptyList_eq_ok {args : List Value} {x : Value} {rest : List Value} :
    oneNonemptyList function args = .ok (x, rest) ↔ args = [.qexpr (x :: rest)] := by
  simp only [oneNonemptyList, bind_eq_ok, oneList_eq_ok]
  constructor
  · rintro ⟨cells, rfl, h⟩
    cases cells with
    | nil => cases h
    | cons y cells =>
        obtain ⟨rfl, rfl⟩ : y = x ∧ cells = rest := by simpa [pure, Except.pure] using h
        rfl
  · rintro rfl
    exact ⟨_, rfl, rfl⟩

theorem twoValues_eq_ok {args : List Value} {v w : Value} :
    twoValues function args = .ok (v, w) ↔ args = [v, w] := by
  match args with
  | [] => simp [twoValues]
  | [_] => simp [twoValues]
  | [_, _] => simp [twoValues]
  | _ :: _ :: _ :: _ => simp [twoValues]

theorem twoNumbers_eq_ok {args : List Value} {x y : Int64} :
    twoNumbers function args = .ok (x, y) ↔ args = [.number x, .number y] := by
  simp only [twoNumbers, bind_eq_ok, Prod.exists, twoValues_eq_ok, number_eq_ok, pure, Except.pure,
    Except.ok.injEq, Prod.mk.injEq]
  constructor
  · rintro ⟨v, w, rfl, _, rfl, _, rfl, rfl, rfl⟩
    rfl
  · rintro rfl
    exact ⟨_, _, rfl, _, rfl, _, rfl, rfl, rfl⟩

theorem twoLists_eq_ok {args : List Value} {xs ys : List Value} :
    twoLists function args = .ok (xs, ys) ↔ args = [.qexpr xs, .qexpr ys] := by
  simp only [twoLists, bind_eq_ok, Prod.exists, twoValues_eq_ok, list_eq_ok, pure, Except.pure,
    Except.ok.injEq, Prod.mk.injEq]
  constructor
  · rintro ⟨v, w, rfl, _, rfl, _, rfl, rfl, rfl⟩
    rfl
  · rintro rfl
    exact ⟨_, _, rfl, _, rfl, _, rfl, rfl, rfl⟩

theorem numberAndTwoLists_eq_ok {args : List Value} {n : Int64} {xs ys : List Value} :
    numberAndTwoLists function args = .ok (n, xs, ys) ↔ args = [.number n, .qexpr xs, .qexpr ys] := by
  match args with
  | [] => simp [numberAndTwoLists]
  | [_] => simp [numberAndTwoLists]
  | [_, _] => simp [numberAndTwoLists]
  | [v, w, u] =>
      simp only [numberAndTwoLists, bind_eq_ok, number_eq_ok, list_eq_ok, pure, Except.pure,
        Except.ok.injEq, Prod.mk.injEq, List.cons.injEq, and_true]
      constructor
      · rintro ⟨_, rfl, _, rfl, _, rfl, rfl, rfl, rfl⟩
        exact ⟨rfl, rfl, rfl⟩
      · rintro ⟨rfl, rfl, rfl⟩
        exact ⟨_, rfl, _, rfl, _, rfl, rfl, rfl, rfl⟩
  | _ :: _ :: _ :: _ :: _ => simp [numberAndTwoLists]

end Arguments

namespace Builtin

theorem chooseBranch_eq_ok {args : List Value} {code : List Value} :
    chooseBranch args = .ok code ↔
      ∃ n yes no, args = [.number n, .qexpr yes, .qexpr no] ∧ code = if n = 0 then no else yes := by
  simp only [chooseBranch, bind_eq_ok, Prod.exists, Arguments.numberAndTwoLists_eq_ok, pure, Except.pure,
    Except.ok.injEq]
  constructor
  · rintro ⟨n, yes, no, hargs, hcode⟩
    exact ⟨n, yes, no, hargs, hcode.symm⟩
  · rintro ⟨n, yes, no, hargs, hcode⟩
    exact ⟨n, yes, no, hargs, hcode.symm⟩

/-- The code that a condition chooses is one of the arguments. -/
theorem mem_of_chooseBranch {args code : List Value} (h : chooseBranch args = .ok code) : .qexpr code ∈ args := by
  obtain ⟨n, yes, no, rfl, rfl⟩ := chooseBranch_eq_ok.mp h
  split <;> simp

/-- What a definition binds is among the arguments. -/
theorem mem_of_mem_definitions {b : Builtin} {args : List Value} {bindings : List (Bytes × Value)}
    (h : b.definitions args = .ok bindings) : ∀ entry ∈ bindings, entry.2 ∈ args := by
  cases args with
  | nil => cases h
  | cons names values =>
      simp only [definitions, bind_eq_ok, Arguments.list_eq_ok] at h
      obtain ⟨symbols, rfl, h⟩ := h
      split at h
      · cases h
      · split at h
        · obtain rfl : (symbols.map Value.symbolName).zip values = bindings := by
            simpa [pure, Except.pure] using h
          intro entry hentry
          exact List.mem_cons_of_mem _ (List.of_mem_zip hentry).2
        · cases h

end Builtin

end BraceLisp
