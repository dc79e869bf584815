import BraceLisp.Eval.Basic
import BraceLisp.Proofs.Eval.Binding

/-!
# Currying

A closure that is given fewer arguments than it has formals in front of `&` waits for the others, and nothing else
happens. When it is given them it does what it would have done if it had been given all at once, whatever the state
is by then. It makes a difference only to the complaint about too many arguments: both numbers in it are counted
from the arguments that came first.
-/

namespace BraceLisp

namespace Value

theorem withCells_withCells (v : Value) (cells others : List Value) :
    (v.withCells cells).withCells others = v.withCells others := by
  cases v <;> rfl

/-- A value that is no list has no cells to lose. -/
theorem cells_withCells_drop (v : Value) (n : Nat) : (v.withCells (v.cells.drop n)).cells = v.cells.drop n := by
  cases v with
  | sexpr cells => rfl
  | qexpr cells => rfl
  | _ => exact (List.drop_nil).symm

end Value

/-- The closure that waits for more after some arguments have been bound to its first formals. -/
def waitingFor (formals body : Value) (own : Frame) (entered : Bool) (args : List Value) : Value :=
  .closure (formals.withCells (formals.cells.drop args.length)) body
    (Bindings.putAll ((formals.cells.map Value.symbolName).zip args) own) entered

section Call

variable (files : Files) (ev : Value → EvalM Value) {formals : Value} (body : Value) (own : Frame) (entered : Bool)
  {args more : List Value}

theorem call_of_lt_leading (h : args.length < (Bound.leading formals.cells).length) :
    call files ev (.closure formals body own entered) args =
      pure (waitingFor formals body own entered args, waitingFor formals body own entered args) := by
  simp only [call, Bound.ofCall, Bound.bind_of_lt_leading h]
  rfl

/-- With a surplus both calls complain about it, each with its own numbers, and leave the same function behind. -/
theorem call_waitingFor_of_surplus (h : args.length ≤ (Bound.leading formals.cells).length)
    (hsurplus : Bound.Surplus formals.cells (args ++ more)) :
    ∃ left,
      call files ev (.closure formals body own entered) (args ++ more) =
        pure ((Fault.callArity (.int (args ++ more).length) (.int formals.cells.length)).toValue, left) ∧
      call files ev (waitingFor formals body own entered args) more =
        pure ((Fault.callArity (.int more.length) (.int (formals.cells.drop args.length).length)).toValue, left) := by
  have hrest := (Bound.surplus_append_iff h more).mp hsurplus
  obtain ⟨bound, hbound⟩ :=
    hrest.exists_bind (Bindings.putAll ((formals.cells.map Value.symbolName).zip args) own)
  refine ⟨.closure (formals.withCells []) body bound entered, ?_, ?_⟩
  · simp only [call, Bound.ofCall, Bound.bind_append h, hbound]
  · simp only [call, waitingFor, Bound.ofCall, Value.cells_withCells_drop, hbound, Value.withCells_withCells]

/-- Without a surplus both calls bind the same and go on in the same way. -/
theorem call_waitingFor_of_not_surplus (h : args.length ≤ (Bound.leading formals.cells).length)
    (hfits : ¬ Bound.Surplus formals.cells (args ++ more)) :
    call files ev (waitingFor formals body own entered args) more =
      call files ev (.closure formals body own entered) (args ++ more) := by
  have hrest : ¬ Bound.Surplus (formals.cells.drop args.length) more := fun hrest =>
    hfits ((Bound.surplus_append_iff h more).mpr hrest)
  have hbound : Bound.ofCall (formals.cells.drop args.length) more
        (Bindings.putAll ((formals.cells.map Value.symbolName).zip args) own) =
      Bound.ofCall formals.cells (args ++ more) own := by
    rw [Bound.ofCall, Bound.ofCall, Bound.bind_append h]
    exact Bound.bind_of_not_surplus hrest _ _ _
  simp only [call, waitingFor, Value.cells_withCells_drop, hbound, Value.withCells_withCells]

end Call

/--
A closure that is called with fewer arguments than it has leading formals returns the closure that waits for the
others, and changes nothing. That closure, called with more arguments in any state, has the outcome that the first
one has with all of them; if there are too many, both complain, and the numbers in the later complaint are smaller by
the number of arguments that came first.
-/
theorem currying (files : Files) (depth : Nat) (formals body : Value) (own : Frame) (entered : Bool)
    (args : List Value) (h : args.length < (Bound.leading formals.cells).length) :
    (∀ s, call files (eval files depth) (.closure formals body own entered) args s =
      some ((waitingFor formals body own entered args, waitingFor formals body own entered args), s)) ∧
    ∀ more,
      (¬ Bound.Surplus formals.cells (args ++ more) → ∀ s,
        call files (eval files depth) (waitingFor formals body own entered args) more s =
          call files (eval files depth) (.closure formals body own entered) (args ++ more) s) ∧
      (Bound.Surplus formals.cells (args ++ more) → ∃ left, ∀ s,
        call files (eval files depth) (.closure formals body own entered) (args ++ more) s =
          some (((Fault.callArity (.int (args ++ more).length) (.int formals.cells.length)).toValue, left), s) ∧
        call files (eval files depth) (waitingFor formals body own entered args) more s =
          some (((Fault.callArity (.int ((args ++ more).length - args.length))
            (.int (formals.cells.length - args.length))).toValue, left), s)) := by
  refine ⟨fun s => ?_, fun more => ⟨fun hfits s => ?_, fun hsurplus => ?_⟩⟩
  · rw [call_of_lt_leading files (eval files depth) body own entered h]
    rfl
  · rw [call_waitingFor_of_not_surplus files (eval files depth) body own entered (Nat.le_of_lt h) hfits]
  · obtain ⟨left, hall, hlater⟩ :=
      call_waitingFor_of_surplus files (eval files depth) body own entered (Nat.le_of_lt h) hsurplus
    have hleading : (Bound.leading formals.cells).length ≤ formals.cells.length :=
      (List.takeWhile_prefix _).length_le
    have hgiven : ((args ++ more).length : Int) - args.length = more.length := by
      rw [List.length_append]
      omega
    have htotal : (formals.cells.length : Int) - args.length = (formals.cells.drop args.length).length := by
      rw [List.length_drop]
      omega
    refine ⟨left, fun s => ⟨?_, ?_⟩⟩
    · rw [hall]
      rfl
    · rw [hlater, hgiven, htotal]
      rfl

/--
Of three arguments the first is given before the others, to a closure that has one formal twice and another that takes
the rest, and to a closure that has two formals only.
-/
theorem currying_of_repeated_formal :
    let x := Value.symbol (Bytes.of "x")
    let formals := Value.qexpr [x, x, .symbol (Bytes.of "&"), .symbol (Bytes.of "rest")]
    let body := Value.qexpr [.builtin (.operation .list), x, .symbol (Bytes.of "rest")]
    let first := [Value.number 1]
    let others := [Value.number 2, Value.number 3]
    (first.length < (Bound.leading formals.cells).length ∧ ¬ Bound.Surplus formals.cells (first ++ others) ∧
      ∀ s, call (fun _ => .missing) (eval (fun _ => .missing) 3) (waitingFor formals body [] false first) others s =
        call (fun _ => .missing) (eval (fun _ => .missing) 3) (.closure formals body [] false) (first ++ others) s) ∧
    first.length < (Bound.leading [x, x]).length ∧ Bound.Surplus [x, x] (first ++ others) ∧
      ∃ left, ∀ s,
        call (fun _ => .missing) (eval (fun _ => .missing) 3) (waitingFor (.qexpr [x, x]) body [] false first) others s =
          some (((Fault.callArity (.int 2) (.int 1)).toValue, left), s) := by
  intro x formals body first others
  have hformals : first.length < (Bound.leading formals.cells).length := by decide +kernel
  have hfits : ¬ Bound.Surplus formals.cells (first ++ others) := by
    rintro ⟨hmarks, -⟩
    exact hmarks (.symbol (Bytes.of "&")) (by simp [formals, Value.cells]) rfl
  have hpair : first.length < (Bound.leading [x, x]).length := by decide +kernel
  have hsurplus : Bound.Surplus [x, x] (first ++ others) := by
    refine ⟨?_, by decide⟩
    intro formal hformal
    obtain rfl : formal = x := by simpa using hformal
    decide +kernel
  refine ⟨⟨hformals, hfits, ?_⟩, hpair, hsurplus, ?_⟩
  · exact ((currying (fun _ => .missing) 3 formals body [] false first hformals).2 others).1 hfits
  · obtain ⟨left, hleft⟩ :=
      ((currying (fun _ => .missing) 3 (.qexpr [x, x]) body [] false first hpair).2 others).2 hsurplus
    exact ⟨left, fun s => (hleft s).2⟩

end BraceLisp
