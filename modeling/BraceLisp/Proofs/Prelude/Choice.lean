import BraceLisp.Proofs.Prelude.Lists

/-!
# Choice among clauses

`case` takes a value and clauses that consist of a key and a value, and `select` clauses that consist of a condition and
a value. Both look at the first clause and hand the others on to themselves, as code that is put together and evaluated;
on the way every clause is evaluated again in each of ever more frames.

A `case` without a clause that fits comes to an error. A `select` should as well, but the code that it puts together
once no clause is left has no cell besides the function itself. Such an S-expression is no call, and so the function
itself is what comes of it.
-/

namespace BraceLisp

open Prelude

namespace Prelude

def clause (c : Value × Value) : Value := .qexpr [c.1, c.2]

/-- The value of the first clause that fits, or another value if none does. -/
def choose (fits : Value × Value → Bool) (clauses : List (Value × Value)) (other : Value) : Value :=
  ((clauses.find? fits).map Prod.snd).getD other

theorem choose_cons (fits : Value × Value → Bool) (c : Value × Value) (rest : List (Value × Value)) (other : Value) :
    choose fits (c :: rest) other = if fits c then c.2 else choose fits rest other := by
  rw [choose, List.find?_cons]
  cases fits c with
  | true => rfl
  | false => rfl

end Prelude

namespace Scope.Standard

variable {files : Files} {caches : ParseCache → Prop} {scope : Scope} (h : scope.Standard)

include h

theorem yields_raise (message : String) :
    scope.Yields files caches (.sexpr [symbol "error", .string (Bytes.of message)])
      (Fault.raised (Bytes.of message)).toValue :=
  h.yields_operation_of_error .raise (.cons (yields_self rfl) rfl .nil) rfl

/-! ## The first clause -/

section First

variable {c : Value × Value} {rest : List Value} (hcs : scope.get? (Bytes.of "cs") = some (.qexpr (clause c :: rest)))

include hcs

theorem yields_first_clause : scope.Yields files caches (apply "fst" [symbol "cs"]) (clause c) :=
  h.yields_fst (yields_symbol hcs) rfl

theorem yields_first_condition (hc : c.1.isSettled) :
    scope.Yields files caches (apply "fst" [apply "fst" [symbol "cs"]]) c.1 :=
  h.yields_fst (h.yields_first_clause hcs) (Value.isNormal_of_isSettled hc)

theorem yields_first_value (hc : c.2.isSettled) :
    scope.Yields files caches (apply "snd" [apply "fst" [symbol "cs"]]) c.2 :=
  h.yields_snd (h.yields_first_clause hcs) (Value.isNormal_of_isSettled hc)

end First

/-! ## The other clauses -/

/-- A function is called with the items of a list, in the frame of the function that unpacks them. -/
theorem yields_unpack {name : String} {function arg l r : Value} {args : List Value}
    (hmeaning : (name, function) ∈ meanings) (hl : scope.Yields files caches l (.qexpr (arg :: args)))
    (hargs : ∀ v ∈ arg :: args, v.isSettled)
    (hcall : ∀ inside : Scope, inside.Standard → inside.Calls files caches function (arg :: args) r) :
    scope.Yields files caches (apply "unpack" [symbol name, l]) r := by
  have hfunction := isSettled_of_mem_meanings hmeaning
  have hnoError := Value.isError_of_isSettled hfunction
  have hcells : ∀ v ∈ function :: arg :: args, v.isSettled := List.forall_mem_cons.mpr ⟨hfunction, hargs⟩
  refine h.yields_apply unpack (by decide) (.cons (h.yields_meaning hmeaning) hnoError (.cons hl rfl .nil)) ?_
  exact h.calls_unpack hnoError fun inside hinside => yields_call (yieldsEach_self hcells) (hcall inside hinside)

/-- Where a list has no items, the function itself is what comes of it. -/
theorem yields_unpack_nil {name : String} {function l : Value} (hmeaning : (name, function) ∈ meanings)
    (hl : scope.Yields files caches l (.qexpr [])) :
    scope.Yields files caches (apply "unpack" [symbol name, l]) function := by
  have hfunction := isSettled_of_mem_meanings hmeaning
  have hnoError := Value.isError_of_isSettled hfunction
  refine h.yields_apply unpack (by decide) (.cons (h.yields_meaning hmeaning) hnoError (.cons hl rfl .nil)) ?_
  exact h.calls_unpack hnoError fun _ _ => yields_singleton (yields_self (Value.isNormal_of_isSettled hfunction))

end Scope.Standard

namespace Scope

variable {files : Files} {caches : ParseCache → Prop} {scope : Scope}

/-! ## Clauses with keys -/

theorem calls_case_nil {x : Value} (h : scope.Standard) :
    scope.Calls files caches case [x] (Fault.raised (Bytes.of "No case found")).toValue := by
  refine h.calls_variadic ["x"] [x] (by decide) rfl fun inside hinside hbound => ?_
  have hcs : inside.get? (Bytes.of "cs") = some (.qexpr []) := hbound _ (.tail _ (.head _))
  exact hinside.yields_if_nil hcs (hinside.yields_raise "No case found")

theorem calls_case_cons {x r : Value} {c : Value × Value} {rest : List Value} (h : scope.Standard)
    (hx : x.isSettled) (hkey : c.1.isSettled) (hvalue : c.2.isSettled) (hrest : ∀ v ∈ rest, v.isSettled)
    (hnext : ∀ inside : Scope, inside.Standard → inside.Calls files caches case (x :: rest) r) :
    scope.Calls files caches case (x :: clause c :: rest) (if x.equal c.1 then c.2 else r) := by
  refine h.calls_variadic ["x"] [x] (by decide) rfl fun inside hinside hbound => ?_
  have hxYields : inside.Yields files caches (symbol "x") x := yields_symbol (hbound _ (.head _))
  have hxNoError := Value.isError_of_isSettled hx
  have hcs : inside.get? (Bytes.of "cs") = some (.qexpr (clause c :: rest)) := hbound _ (.tail _ (.head _))
  have hequal : inside.Yields files caches (apply "==" [symbol "x", apply "fst" [apply "fst" [symbol "cs"]]])
      (.ofBool (x.equal c.1)) :=
    hinside.yields_equal hxYields (hinside.yields_first_condition hcs hkey) hxNoError (Value.isError_of_isSettled hkey)
  refine hinside.yields_if_cons hcs (hinside.yields_branch hequal ?_)
  cases x.equal c.1 with
  | true => exact hinside.yields_first_value hcs hvalue
  | false =>
      have hlist := hinside.yields_list hxYields hxNoError
      have hothers := hinside.yields_join hlist (hinside.yields_tail (yields_symbol hcs))
      exact hinside.yields_unpack (by decide) hothers (List.forall_mem_cons.mpr ⟨hx, hrest⟩) hnext

theorem calls_case {x : Value} (hx : x.isSettled) {clauses : List (Value × Value)}
    (hclauses : ∀ c ∈ clauses, c.1.isSettled ∧ c.2.isSettled) (h : scope.Standard) :
    scope.Calls files caches case (x :: clauses.map clause)
      (choose (fun c => x.equal c.1) clauses (Fault.raised (Bytes.of "No case found")).toValue) := by
  induction clauses generalizing scope with
  | nil => exact calls_case_nil h
  | cons c rest ih =>
      obtain ⟨⟨hkey, hvalue⟩, hrest⟩ := List.forall_mem_cons.mp hclauses
      rw [choose_cons]
      exact calls_case_cons h hx hkey hvalue (List.forall_mem_map.mpr fun _ _ => rfl) fun _ => ih hrest

/-! ## Clauses with conditions -/

theorem calls_select_cons {r : Value} {n : Int64} {c : Value × Value} {rest : List Value} (h : scope.Standard)
    (hn : c.1 = .number n) (hvalue : c.2.isSettled)
    (hnext : ∀ inside : Scope, inside.Standard → inside.Yields files caches (apply "tail" [symbol "cs"]) (.qexpr rest) →
      inside.Yields files caches (apply "unpack" [symbol "select", apply "tail" [symbol "cs"]]) r) :
    scope.Calls files caches select (clause c :: rest) (if c.1 != .number 0 then c.2 else r) := by
  refine h.calls_variadic [] [] (by decide) rfl fun inside hinside hbound => ?_
  have hcs : inside.get? (Bytes.of "cs") = some (.qexpr (clause c :: rest)) := hbound _ (.head _)
  have hcondition : inside.Yields files caches (apply "fst" [apply "fst" [symbol "cs"]]) (.number n) :=
    hn ▸ hinside.yields_first_condition hcs (hn ▸ rfl)
  refine hinside.yields_if_cons hcs (hinside.yields_branch hcondition ?_)
  by_cases hzero : n = 0
  · rw [if_pos hzero, if_neg (by simp [hn, hzero])]
    exact hnext inside hinside (hinside.yields_tail (yields_symbol hcs))
  · rw [if_neg hzero, if_pos (by simp [hn, hzero])]
    exact hinside.yields_first_value hcs hvalue

theorem calls_select (c : Value × Value) (rest : List (Value × Value))
    (hclauses : ∀ d ∈ c :: rest, (∃ n, d.1 = .number n) ∧ d.2.isSettled) (h : scope.Standard) :
    scope.Calls files caches select ((c :: rest).map clause)
      (choose (fun d => d.1 != .number 0) (c :: rest) select) := by
  induction rest generalizing c scope with
  | nil =>
      obtain ⟨⟨n, hn⟩, hvalue⟩ := List.forall_mem_singleton.mp hclauses
      rw [choose_cons]
      -- no clause is left to call the function with, so it is not called again
      exact calls_select_cons h hn hvalue fun inside hinside htail =>
        hinside.yields_unpack_nil (by decide) htail
  | cons d rest ih =>
      obtain ⟨⟨⟨n, hn⟩, hvalue⟩, hrest⟩ := List.forall_mem_cons.mp hclauses
      have hsettled : ∀ v ∈ (d :: rest).map clause, v.isSettled := List.forall_mem_map.mpr fun _ _ => rfl
      rw [choose_cons]
      exact calls_select_cons h hn hvalue fun inside hinside htail =>
        hinside.yields_unpack (by decide) htail hsettled fun _ => ih d hrest

end Scope

/-! ## Expressions -/

open Scope in
/--
A `case` yields the value of the first clause whose key is equal to a value, and an error if there is none. The value,
the keys and the values of the clauses are such as are their own results.
-/
theorem case_chooses_first (files : Files) (caches : ParseCache → Prop) {root : Frame}
    (hroot : Session.BindsStart root) {x : Value} (hx : x.isSettled) (clauses : List (Value × Value))
    (hclauses : ∀ c ∈ clauses, c.1.isSettled ∧ c.2.isSettled) :
    Yields files caches ⟨[], root⟩ (apply "case" (x :: clauses.map clause))
      (choose (fun c => x.equal c.1) clauses (Fault.raised (Bytes.of "No case found")).toValue) := by
  have hargs : ∀ v ∈ x :: clauses.map clause, v.isSettled :=
    List.forall_mem_cons.mpr ⟨hx, List.forall_mem_map.mpr fun _ _ => rfl⟩
  exact hroot.standard.yields_apply case (by decide) (yieldsEach_self hargs)
    (calls_case hx hclauses hroot.standard)

open Scope in
/-- Of two clauses that fit the first is chosen, and none fits a string. -/
theorem case_chooses_first_of_repeated_key :
    Session.BindsStart startUp ∧
    Yields (fun _ => .missing) (fun _ => True) ⟨[], startUp⟩
      (apply "case" [.number 2, .qexpr [.number 1, .number 10], .qexpr [.number 2, .number 20],
        .qexpr [.number 2, .qexpr []]]) (.number 20) ∧
    Yields (fun _ => .missing) (fun _ => True) ⟨[], startUp⟩
      (apply "case" [.string (Bytes.of "2"), .qexpr [.number 2, .number 20]])
      (Fault.raised (Bytes.of "No case found")).toValue := by
  refine ⟨Session.bindsStart_startUp, ?_, ?_⟩
  · exact case_chooses_first (fun _ => .missing) (fun _ => True) Session.bindsStart_startUp (x := .number 2) rfl
      [(.number 1, .number 10), (.number 2, .number 20), (.number 2, .qexpr [])] (by decide)
  · exact case_chooses_first (fun _ => .missing) (fun _ => True) Session.bindsStart_startUp
      (x := .string (Bytes.of "2")) rfl [(.number 2, .number 20)] (by decide)

open Scope in
/--
A `select` yields the value of the first clause whose condition is a number other than zero. If there is none, the
result is no error but the function itself.
-/
theorem select_chooses_first_or_itself (files : Files) (caches : ParseCache → Prop) {root : Frame}
    (hroot : Session.BindsStart root) (clauses : List (Value × Value)) (hne : clauses ≠ [])
    (hclauses : ∀ c ∈ clauses, (∃ n, c.1 = .number n) ∧ c.2.isSettled) :
    Yields files caches ⟨[], root⟩ (apply "select" (clauses.map clause))
      (choose (fun c => c.1 != .number 0) clauses select) := by
  cases clauses with
  | nil => exact absurd rfl hne
  | cons c rest =>
      have hargs : ∀ v ∈ (c :: rest).map clause, v.isSettled := List.forall_mem_map.mpr fun _ _ => rfl
      exact hroot.standard.yields_apply select (by decide) (yieldsEach_self hargs)
        (calls_select c rest hclauses hroot.standard)

open Scope in
/-- Any number but zero is true. -/
theorem select_chooses_first_or_itself_of_numbers :
    Session.BindsStart startUp ∧
    Yields (fun _ => .missing) (fun _ => True) ⟨[], startUp⟩
      (apply "select" [.qexpr [.number 0, .number 10], .qexpr [.number (-5), .number 20],
        .qexpr [.number 1, .number 30]]) (.number 20) ∧
    Yields (fun _ => .missing) (fun _ => True) ⟨[], startUp⟩
      (apply "select" [.qexpr [.number 0, .number 1]]) select := by
  refine ⟨Session.bindsStart_startUp, ?_, ?_⟩
  · exact select_chooses_first_or_itself (fun _ => .missing) (fun _ => True) Session.bindsStart_startUp
      [(.number 0, .number 10), (.number (-5), .number 20), (.number 1, .number 30)] (List.cons_ne_nil _ _)
      (by simp [Value.isSettled, Value.isNormal, Value.isError])
  · exact select_chooses_first_or_itself (fun _ => .missing) (fun _ => True) Session.bindsStart_startUp
      [(.number 0, .number 1)] (List.cons_ne_nil _ _) (List.forall_mem_singleton.mpr ⟨⟨0, rfl⟩, rfl⟩)

open Scope in
/-- A `select` whose only condition is zero does not come to an error. -/
theorem select_without_choice_no_error :
    Session.BindsStart startUp ∧
    ¬ Yields (fun _ => .missing) (fun _ => True) ⟨[], startUp⟩ (apply "select" [.qexpr [.number 0, .number 1]])
      (Fault.raised (Bytes.of "No selection found")).toValue := by
  have hstandard := Session.bindsStart_startUp.standard
  refine ⟨Session.bindsStart_startUp, fun herror => ?_⟩
  have hitself : Yields (fun _ => .missing) (fun _ => True) ⟨[], startUp⟩
      (apply "select" [.qexpr [.number 0, .number 1]]) select :=
    hstandard.yields_apply select (by decide) (yieldsEach_self (List.forall_mem_singleton.mpr rfl))
      (calls_select (.number 0, .number 1) [] (List.forall_mem_singleton.mpr ⟨⟨0, rfl⟩, rfl⟩) hstandard)
  cases hitself.eq herror (eval_deepens _ _) ⟨ParseCache.empty, trivial⟩

end BraceLisp
