import BraceLisp.Proofs.Eval.Binding
import BraceLisp.Proofs.Positional.Eval

/-!
# What a call of a closure comes to

The binder goes through formals and arguments at the same time, and where it ends can be told beforehand, from how
many arguments there are and where the first `&` stands. The formals in front of it are bound from left to right. If
there are arguments for all of them, then what matters are the formals behind `&`, of which there must be one, or
without `&` the arguments that are left, of which there must be none. The body is evaluated when all formals are bound.
-/

namespace BraceLisp

namespace Bound

/-- The bindings when the leading formals are bound from left to right, as many of them as there are arguments for. -/
def withLeading (formals args : List Value) (own : Frame) : Frame :=
  Bindings.putAll ((formals.map Value.symbolName).zip (args.take (leading formals).length)) own

variable {mark last : Value} {formals args rest : List Value}

/-- Either all formals are leading, or the formal behind those that are is `&`. -/
theorem leading_eq_or (formals : List Value) :
    leading formals = formals ∨
      ∃ mark rest, formals = leading formals ++ mark :: rest ∧ mark.symbolName = variadicMark := by
  induction formals with
  | nil => exact .inl rfl
  | cons formal formals ih =>
      by_cases hmark : formal.symbolName = variadicMark
      · exact .inr ⟨formal, formals, by simp [leading, hmark], hmark⟩
      · have hleading : leading (formal :: formals) = formal :: leading formals := by simp [leading, hmark]
        rw [hleading]
        rcases ih with hall | ⟨mark, rest, hsplit, hrest⟩
        · exact .inl (congrArg (formal :: ·) hall)
        · exact .inr ⟨mark, rest, congrArg (formal :: ·) hsplit, hrest⟩

theorem leading_eq_self (h : ∀ formal ∈ formals, formal.symbolName ≠ variadicMark) : leading formals = formals := by
  rcases leading_eq_or formals with hall | ⟨mark, rest, hsplit, hmark⟩
  · exact hall
  · have hmem : mark ∈ formals := by
      rw [hsplit]
      exact List.mem_append_right _ List.mem_cons_self
    exact absurd hmark (h mark hmem)

theorem symbolName_of_eq_leading_append (h : formals = leading formals ++ mark :: rest) :
    mark.symbolName = variadicMark := by
  rcases leading_eq_or formals with hall | ⟨mark', rest', hsplit, hmark⟩
  · have hlength := congrArg List.length h
    rw [hall, List.length_append, List.length_cons] at hlength
    omega
  · have hrest := List.append_cancel_left (h.symm.trans hsplit)
    rw [(List.cons.inj hrest).1]
    exact hmark

theorem drop_eq_of_eq_leading_append (h : formals = leading formals ++ mark :: rest) :
    formals.drop (leading formals).length = mark :: rest :=
  (congrArg (List.drop _) h).trans List.drop_left

/-! ## Where binding ends -/

variable (own : Frame)

theorem bind_of_fewer_than_leading (h : args.length < (leading formals).length) (tooMany : Fault) :
    bind tooMany formals args own = .waiting (formals.drop args.length) (withLeading formals args own) := by
  rw [bind_of_lt_leading h, withLeading, List.take_of_length_le (Nat.le_of_lt h)]

/-- With arguments for all leading formals binding goes on behind them. -/
theorem bind_of_leading_le (h : (leading formals).length ≤ args.length) (tooMany : Fault) :
    bind tooMany formals args own =
      bind tooMany (formals.drop (leading formals).length) (args.drop (leading formals).length)
        (withLeading formals args own) := by
  have hlength : (args.take (leading formals).length).length = (leading formals).length :=
    List.length_take_of_le h
  have hbind := bind_append (Nat.le_of_eq hlength) tooMany (args.drop (leading formals).length) own
  rw [List.take_append_drop, hlength] at hbind
  exact hbind

theorem bind_of_as_many (hmarks : ∀ formal ∈ formals, formal.symbolName ≠ variadicMark)
    (h : args.length = formals.length) (tooMany : Fault) :
    bind tooMany formals args own = .saturated (withLeading formals args own) := by
  have hleading : (leading formals).length = formals.length := congrArg List.length (leading_eq_self hmarks)
  rw [bind_of_leading_le own (Nat.le_of_eq (hleading.trans h.symm)), hleading, List.drop_length, ← h, List.drop_length]
  rfl

theorem bind_of_too_many (hmarks : ∀ formal ∈ formals, formal.symbolName ≠ variadicMark)
    (h : formals.length < args.length) (tooMany : Fault) :
    bind tooMany formals args own = .failed tooMany [] (withLeading formals args own) := by
  have hleading : (leading formals).length = formals.length := congrArg List.length (leading_eq_self hmarks)
  have hlength : (leading formals).length ≤ args.length := Nat.le_of_lt (hleading ▸ h)
  rw [bind_of_leading_le own hlength, hleading, List.drop_length, List.drop_eq_getElem_cons h]
  rfl

theorem bind_of_rest (hsplit : formals = leading formals ++ [mark, last])
    (h : (leading formals).length ≤ args.length) (tooMany : Fault) :
    bind tooMany formals args own =
      .saturated (Bindings.put last.symbolName (.qexpr (args.drop (leading formals).length))
        (withLeading formals args own)) := by
  rw [bind_of_leading_le own h, drop_eq_of_eq_leading_append hsplit]
  cases args.drop (leading formals).length with
  | nil => simp only [bind, symbolName_of_eq_leading_append hsplit, if_true]
  | cons arg more => simp only [bind, symbolName_of_eq_leading_append hsplit, if_true]

theorem bind_of_not_one_rest (hsplit : formals = leading formals ++ mark :: rest) (hrest : rest.length ≠ 1)
    (h : (leading formals).length < args.length) (tooMany : Fault) :
    bind tooMany formals args own = .failed .variadicRest rest (withLeading formals args own) := by
  rw [bind_of_leading_le own (Nat.le_of_lt h), drop_eq_of_eq_leading_append hsplit, List.drop_eq_getElem_cons h]
  simp only [bind, symbolName_of_eq_leading_append hsplit, if_true]
  rcases rest with _ | ⟨last, _ | ⟨more, rest⟩⟩
  · rfl
  · exact absurd rfl hrest
  · rfl

theorem bind_of_not_one_end (hsplit : formals = leading formals ++ mark :: rest) (hrest : rest.length ≠ 1)
    (h : args.length = (leading formals).length) (tooMany : Fault) :
    bind tooMany formals args own = .failed .variadicEnd (mark :: rest) (withLeading formals args own) := by
  rw [bind_of_leading_le own (Nat.le_of_eq h.symm), drop_eq_of_eq_leading_append hsplit, ← h, List.drop_length]
  simp only [bind, symbolName_of_eq_leading_append hsplit, if_true]
  rcases rest with _ | ⟨last, _ | ⟨more, rest⟩⟩
  · rfl
  · exact absurd rfl hrest
  · rfl

end Bound

section Call

variable (files : Files) (ev : Value → EvalM Value) {formals : Value} (body : Value) {own bound : Frame}
  (entered : Bool) {args : List Value}

/--
What comes of the body of a closure in a frame with the given bindings, hung below the scope of the call: the result,
the closure that is left behind with the bindings that are there at the end, and the state outside that frame.
-/
def enterBody (formals body : Value) (bound : Frame) : EvalM (Value × Value) := fun s =>
  (ev (.sexpr body.cells) { s with scope := s.scope.enter bound }).map fun (result, t) =>
    ((result, .closure (formals.withCells []) body t.scope.leave.1 true), { t with scope := t.scope.leave.2 })

theorem call_of_saturated (h : Bound.ofCall formals.cells args own = .saturated bound) :
    call files ev (.closure formals body own entered) args = enterBody ev formals body bound := by
  simp only [call, h]
  funext s
  change (ev (.sexpr body.cells) { s with scope := s.scope.enter bound } >>= fun r => _) = _
  rw [enterBody]
  cases ev (.sexpr body.cells) { s with scope := s.scope.enter bound } with
  | none => rfl
  | some r => rfl

theorem call_of_waiting {left : List Value} (h : Bound.ofCall formals.cells args own = .waiting left bound) :
    call files ev (.closure formals body own entered) args =
      pure (.closure (formals.withCells left) body bound entered,
        .closure (formals.withCells left) body bound entered) := by
  simp only [call, h]

theorem call_of_failed {fault : Fault} {left : List Value}
    (h : Bound.ofCall formals.cells args own = .failed fault left bound) :
    call files ev (.closure formals body own entered) args =
      pure (fault.toValue, .closure (formals.withCells left) body bound entered) := by
  simp only [call, h]

end Call

/--
Binding comes to an end, and where, is told by the number of arguments and by the formals. Fewer arguments than leading
formals are bound to the first of these, and the closure waits with the others. Without `&` there must be as many
arguments as formals, and the complaint about too many gives both numbers. Behind `&` there must be one formal, and it
is bound to all arguments that are left. With all formals bound the body is evaluated in a frame of these bindings hung
below the scope of the call.
-/
theorem call_outcome (files : Files) (depth : Nat) (formals body : Value) (own : Frame) (entered : Bool)
    (args : List Value) :
    let leading := Bound.leading formals.cells
    let bound := Bound.withLeading formals.cells args own
    let machine := Positional.bindNext args.length formals.cells.length formals.cells args own
    let outcome := call files (eval files depth) (.closure formals body own entered) args
    let Runs := fun all : Frame =>
      machine = .ok (.saturated all) ∧ outcome = enterBody (eval files depth) formals body all
    let Fails := fun fault : Fault =>
      machine = .ok (.failed fault.toValue) ∧ ∃ left, outcome = pure (fault.toValue, left)
    (args.length < leading.length →
      machine = .ok (.waiting (formals.cells.drop args.length) bound) ∧
        let waiting := .closure (formals.withCells (formals.cells.drop args.length)) body bound entered
        outcome = pure (waiting, waiting)) ∧
    ((∀ formal ∈ formals.cells, formal.symbolName ≠ variadicMark) →
      (args.length = formals.cells.length → Runs bound) ∧
      (formals.cells.length < args.length →
        Fails (.callArity (.int args.length) (.int formals.cells.length)))) ∧
    ∀ mark rest, formals.cells = leading ++ mark :: rest → mark.symbolName = variadicMark ∧
      (rest.length ≠ 1 →
        (leading.length < args.length → Fails .variadicRest) ∧ (args.length = leading.length → Fails .variadicEnd)) ∧
      ∀ last, rest = [last] → leading.length ≤ args.length →
        Runs (Bindings.put last.symbolName (.qexpr (args.drop leading.length)) bound) := by
  intro leading bound machine outcome Runs Fails
  have hmachine : machine = .ok (.ofBound (Bound.ofCall formals.cells args own)) :=
    Positional.bindNext_eq args.length formals.cells.length formals.cells args own
  have hruns {all : Frame} (h : Bound.ofCall formals.cells args own = .saturated all) : Runs all := by
    refine ⟨?_, call_of_saturated files _ body entered h⟩
    rw [hmachine, h]
    rfl
  have hfails {fault : Fault} {left : List Value} (h : Bound.ofCall formals.cells args own = .failed fault left bound) :
      Fails fault := by
    refine ⟨?_, _, call_of_failed files _ body entered h⟩
    rw [hmachine, h]
    rfl
  refine ⟨fun hfewer => ⟨?_, ?_⟩, fun hmarks => ⟨fun hequal => ?_, fun hmore => ?_⟩,
    fun mark rest hsplit => ⟨?_, fun hrest => ⟨fun hmore => ?_, fun hequal => ?_⟩, ?_⟩⟩
  · rw [hmachine, Bound.ofCall, Bound.bind_of_fewer_than_leading own hfewer]
    rfl
  · exact call_of_waiting files _ body entered (Bound.bind_of_fewer_than_leading own hfewer _)
  · exact hruns (Bound.bind_of_as_many own hmarks hequal _)
  · exact hfails (Bound.bind_of_too_many own hmarks hmore _)
  · exact Bound.symbolName_of_eq_leading_append hsplit
  · exact hfails (Bound.bind_of_not_one_rest own hsplit hrest hmore _)
  · exact hfails (Bound.bind_of_not_one_end own hsplit hrest hequal _)
  · rintro last rfl hle
    exact hruns (Bound.bind_of_rest own hsplit hle _)

/--
Three arguments for `{x & rest}`, of which `rest` takes two; one for each of `{x & x x}` and `{& & x}`, where the first
`&` counts; and three and one for `{x x}`.
-/
theorem call_outcome_of_mark :
    let x := Value.symbol (Bytes.of "x")
    let mark := Value.symbol (Bytes.of "&")
    let rest := Value.symbol (Bytes.of "rest")
    let body := Value.qexpr [.builtin (.operation .list), x, rest]
    let one := [Value.number 1]
    let three := [Value.number 1, Value.number 2, Value.number 3]
    let outcome := fun formals args =>
      call (fun _ => .missing) (eval (fun _ => .missing) 3) (.closure (.qexpr formals) body [] false) args
    outcome [x, mark, rest] three =
        enterBody (eval (fun _ => .missing) 3) (.qexpr [x, mark, rest]) body
          [(Bytes.of "x", .number 1), (Bytes.of "rest", .qexpr [.number 2, .number 3])] ∧
      (∃ left, outcome [x, mark, x, x] one = pure (Fault.variadicEnd.toValue, left)) ∧
      (∃ left, outcome [mark, mark, x] one = pure (Fault.variadicRest.toValue, left)) ∧
      (∃ left, outcome [x, x] three = pure ((Fault.callArity (.int 3) (.int 2)).toValue, left)) ∧
      outcome [x, x] one =
        let waiting := .closure (.qexpr [x]) body [(Bytes.of "x", .number 1)] false
        pure (waiting, waiting) := by
  intro x mark rest body one three outcome
  have hspec (formals args : List Value) :=
    call_outcome (fun _ => .missing) 3 (.qexpr formals) body [] false args
  have hpair : ∀ formal ∈ [x, x], formal.symbolName ≠ variadicMark := by decide +kernel
  refine ⟨?_, ?_, ?_, ?_, ?_⟩
  · obtain ⟨-, -, hmark⟩ := hspec [x, mark, rest] three
    exact ((hmark mark [rest] rfl).2.2 rest rfl (by decide +kernel)).2
  · obtain ⟨-, -, hmark⟩ := hspec [x, mark, x, x] one
    exact (((hmark mark [x, x] rfl).2.1 (by decide)).2 rfl).2
  · obtain ⟨-, -, hmark⟩ := hspec [mark, mark, x] one
    exact (((hmark mark [mark, x] rfl).2.1 (by decide)).1 (by decide +kernel)).2
  · obtain ⟨-, hnone, -⟩ := hspec [x, x] three
    exact ((hnone hpair).2 (by decide)).2
  · obtain ⟨hfewer, -, -⟩ := hspec [x, x] one
    exact (hfewer (by decide +kernel)).2

end BraceLisp
