import BraceLisp.Proofs.Environment
import BraceLisp.Session.Basic

/-!
# Definitions are all or nothing

A definition looks at all of its arguments before it binds the first name. If it finds a fault nothing has changed. If
not, all names are bound, in one environment: `def` binds them in the outermost, `=` in the innermost. There each name
has the value that was given last for it, the new names come behind the old ones in the order in which they were first
given, and nothing else is different.
-/

namespace BraceLisp

namespace Bindings

variable {α : Type} {bindings b : Bindings α}

/--
What there is after some names have been bound in an environment: old names keep their places, each new one comes where
it is first given, and a name has the value that is given for it last.
-/
structure Assigned (bindings b after : Bindings α) : Prop where
  names : names after = names b ++ ((names bindings).filter fun name => name ∉ names b).eraseDups
  given : ∀ before name v later, bindings = before ++ (name, v) :: later → name ∉ Bindings.names later →
    get? name after = some v
  others : ∀ name, name ∉ Bindings.names bindings → get? name after = get? name b

theorem get?_putAll_of_not_mem {name : Bytes} (h : name ∉ names bindings) :
    get? name (putAll bindings b) = get? name b :=
  get?_putAll_of_ne fun _ hentry hname => h (hname ▸ List.mem_map_of_mem hentry)

theorem assigned_putAll (bindings b : Bindings α) : Assigned bindings b (putAll bindings b) where
  names := names_putAll bindings b
  given := by
    rintro before name v later rfl hlater
    rw [putAll_append, putAll, get?_putAll_of_not_mem hlater, get?_put_self]
  others _ h := get?_putAll_of_not_mem h

end Bindings

namespace Scope

theorem frames_define (scope : Scope) (bindings : List (Bytes × Value)) :
    (scope.define bindings).frames =
      scope.frames.set scope.inner.length (Bindings.putAll bindings (scope.frames.getD scope.inner.length [])) := by
  simp [frames, define]

theorem frames_assign (scope : Scope) (bindings : List (Bytes × Value)) :
    (scope.assign bindings).frames = scope.frames.set 0 (Bindings.putAll bindings (scope.frames.getD 0 [])) := by
  obtain ⟨inner, root⟩ := scope
  cases inner with
  | nil => rfl
  | cons frame rest => rfl

end Scope

theorem firstNonSymbol?_eq_none_iff {vs : List Value} : firstNonSymbol? vs = none ↔ ∀ v ∈ vs, v.type = .symbol := by
  simp [firstNonSymbol?]

theorem firstNonSymbol?_eq_some_iff {vs : List Value} {v : Value} :
    firstNonSymbol? vs = some v ↔
      v.type ≠ .symbol ∧ ∃ before after, vs = before ++ v :: after ∧ ∀ w ∈ before, w.type = .symbol := by
  simp [firstNonSymbol?, List.find?_eq_some_iff_append]

namespace Builtin

/-- The faults that a definition finds in its arguments: each is looked for only when those above it are not there. -/
inductive Refuses (b : Builtin) : List Value → Fault → Prop where
  | none : Refuses b [] (.varNone (.text b.name))
  | notList {first : Value} (values : List Value) (h : first.type ≠ .qexpr) :
      Refuses b (first :: values)
        (.argType (.text b.name) (.int 0) (.text first.type.name) (.text ValueType.qexpr.name))
  | notSymbol {before : List Value} {v : Value} (after values : List Value) (hbefore : ∀ w ∈ before, w.type = .symbol)
      (hv : v.type ≠ .symbol) :
      Refuses b (.qexpr (before ++ v :: after) :: values) (.varSymbols (.text b.name) (.text v.type.name))
  | count {symbols values : List Value} (hsymbols : ∀ v ∈ symbols, v.type = .symbol)
      (h : symbols.length ≠ values.length) :
      Refuses b (.qexpr symbols :: values) (.varCount (.text b.name) (.int values.length) (.int symbols.length))

theorem definitions_qexpr (b : Builtin) (symbols values : List Value) :
    b.definitions (.qexpr symbols :: values) =
      match firstNonSymbol? symbols with
      | some symbol => .error (.varSymbols (.text b.name) (.text symbol.type.name))
      | none =>
          if symbols.length = values.length then .ok ((symbols.map Value.symbolName).zip values)
          else .error (.varCount (.text b.name) (.int values.length) (.int symbols.length)) :=
  rfl

theorem Refuses.definitions {b : Builtin} {args : List Value} {fault : Fault} (h : b.Refuses args fault) :
    b.definitions args = .error fault := by
  cases h with
  | none => rfl
  | @notList first values h =>
      cases first with
      | qexpr symbols => exact absurd rfl h
      | _ => rfl
  | notSymbol after values hbefore hv =>
      rw [definitions_qexpr, firstNonSymbol?_eq_some_iff.mpr ⟨hv, _, after, rfl, hbefore⟩]
  | count hsymbols h =>
      rw [definitions_qexpr, firstNonSymbol?_eq_none_iff.mpr hsymbols]
      exact if_neg h

/-- Either a fault is found in the arguments, or they are a list of symbols and as many values. -/
theorem refuses_or_exists_definitions (b : Builtin) (args : List Value) :
    (∃ fault, b.Refuses args fault) ∨
      ∃ symbols values, args = .qexpr symbols :: values ∧ (∀ v ∈ symbols, v.type = .symbol) ∧
        symbols.length = values.length ∧
        b.definitions args = .ok ((symbols.map Value.symbolName).zip values) := by
  cases args with
  | nil => exact .inl ⟨_, .none⟩
  | cons first values =>
      by_cases hlist : first.type = .qexpr
      · obtain ⟨symbols, rfl⟩ : ∃ symbols, first = .qexpr symbols := by
          cases first with
          | qexpr symbols => exact ⟨symbols, rfl⟩
          | _ => cases hlist
        cases hfirst : firstNonSymbol? symbols with
        | some v =>
            obtain ⟨hv, before, after, rfl, hbefore⟩ := firstNonSymbol?_eq_some_iff.mp hfirst
            exact .inl ⟨_, .notSymbol after values hbefore hv⟩
        | none =>
            have hsymbols := firstNonSymbol?_eq_none_iff.mp hfirst
            by_cases hcount : symbols.length = values.length
            · refine .inr ⟨symbols, values, rfl, hsymbols, hcount, ?_⟩
              rw [definitions_qexpr, hfirst]
              exact if_pos hcount
            · exact .inl ⟨_, .count hsymbols hcount⟩
      · exact .inl ⟨_, .notList values hlist⟩

variable (files : Files) (ev : Value → EvalM Value) (s : State) {b : Builtin} {args : List Value}

theorem apply_of_refused (hb : b = .define ∨ b = .assign) {fault : Fault} (h : b.definitions args = .error fault) :
    b.apply files ev args s = some (fault.toValue, s) := by
  rcases hb with rfl | rfl
  · rw [apply, h]
    rfl
  · rw [apply, h]
    rfl

theorem apply_define {bindings : List (Bytes × Value)} (h : define.definitions args = .ok bindings) :
    define.apply files ev args s = some (.sexpr [], { s with scope := s.scope.define bindings }) := by
  rw [apply, h]
  rfl

theorem apply_assign {bindings : List (Bytes × Value)} (h : assign.definitions args = .ok bindings) :
    assign.apply files ev args s = some (.sexpr [], { s with scope := s.scope.assign bindings }) := by
  rw [apply, h]
  rfl

end Builtin

/--
A definition that finds a fault in its arguments returns it as an error, and nothing has changed. Otherwise its first
argument is a list of as many symbols as there are values, it returns `()`, and one environment has changed, which is
the outermost for `def` and `doh` and the innermost for `=`: there each symbol is bound to the value in the same place.
-/
theorem definitions_all_or_nothing (files : Files) (ev : Value → EvalM Value) (s : State) (args : List Value) :
    Bindings.get? (Bytes.of "def") Session.builtins = some (.builtin .define) ∧
    Bindings.get? (Bytes.of "doh") Session.builtins = some (.builtin .define) ∧
    Bindings.get? (Bytes.of "=") Session.builtins = some (.builtin .assign) ∧
    ∀ b place, (b, place) ∈ [(Builtin.define, s.scope.inner.length), (Builtin.assign, 0)] →
      (∃ fault, b.Refuses args fault ∧ b.apply files ev args s = some (fault.toValue, s)) ∨
      ∃ symbols values scope after,
        args = .qexpr symbols :: values ∧ (∀ v ∈ symbols, v.type = .symbol) ∧ symbols.length = values.length ∧
        b.apply files ev args s = some (.sexpr [], { s with scope }) ∧
        scope.frames = s.scope.frames.set place after ∧
        Bindings.Assigned ((symbols.map Value.symbolName).zip values) (s.scope.frames.getD place []) after := by
  refine ⟨rfl, rfl, rfl, fun b place hb => ?_⟩
  have hplace : b = .define ∧ place = s.scope.inner.length ∨ b = .assign ∧ place = 0 := by simpa using hb
  rcases b.refuses_or_exists_definitions args with
    ⟨fault, hfault⟩ | ⟨symbols, values, hargs, hsymbols, hcount, hbindings⟩
  · refine .inl ⟨fault, hfault, Builtin.apply_of_refused files ev s ?_ hfault.definitions⟩
    exact hplace.imp And.left And.left
  · right
    rcases hplace with ⟨rfl, rfl⟩ | ⟨rfl, rfl⟩
    · exact ⟨symbols, values, _, _, hargs, hsymbols, hcount, Builtin.apply_define files ev s hbindings,
        s.scope.frames_define _, Bindings.assigned_putAll _ _⟩
    · exact ⟨symbols, values, _, _, hargs, hsymbols, hcount, Builtin.apply_assign files ev s hbindings,
        s.scope.frames_assign _, Bindings.assigned_putAll _ _⟩

/--
Below the outermost environment `(= {x y x} 3 4 5)` binds `x`, which is bound to 1 there, to the last value; and
`(def {x})` is refused.
-/
theorem definitions_all_or_nothing_of_repeated_name :
    let x := Value.symbol (Bytes.of "x")
    let y := Value.symbol (Bytes.of "y")
    let s : State := ⟨⟨[[(Bytes.of "x", .number 1)]], [(Bytes.of "y", .number 2)]⟩, default, default⟩
    (∃ scope after,
      Builtin.assign.apply (fun _ => .missing) (eval (fun _ => .missing) 1)
        [.qexpr [x, y, x], .number 3, .number 4, .number 5] s = some (.sexpr [], { s with scope }) ∧
      scope.frames = [after, [(Bytes.of "y", .number 2)]] ∧
      Bindings.names after = [Bytes.of "x", Bytes.of "y"] ∧
      Bindings.get? (Bytes.of "x") after = some (.number 5) ∧ Bindings.get? (Bytes.of "y") after = some (.number 4)) ∧
    Builtin.define.apply (fun _ => .missing) (eval (fun _ => .missing) 1) [.qexpr [x]] s =
      some ((Fault.varCount (.text (Bytes.of "def")) (.int 0) (.int 1)).toValue, s) := by
  intro x y s
  refine ⟨?_, ?_⟩
  · obtain ⟨-, -, -, hspec⟩ := definitions_all_or_nothing (fun _ => .missing) (eval (fun _ => .missing) 1) s
      [.qexpr [x, y, x], .number 3, .number 4, .number 5]
    rcases hspec .assign 0 (by simp) with
      ⟨fault, hfault, -⟩ | ⟨symbols, values, scope, after, hargs, -, -, happly, hframes, hafter⟩
    · cases hfault.definitions
    · obtain ⟨hfirst, rfl⟩ := List.cons.inj hargs
      obtain rfl : [x, y, x] = symbols := by simpa using hfirst
      refine ⟨scope, after, happly, hframes, hafter.names.trans (by decide +kernel), ?_, ?_⟩
      · exact hafter.given [(Bytes.of "x", .number 3), (Bytes.of "y", .number 4)] _ _ [] rfl (by decide)
      · exact hafter.given [(Bytes.of "x", .number 3)] _ _ [(Bytes.of "x", .number 5)] rfl (by decide +kernel)
  · obtain ⟨-, -, -, hspec⟩ := definitions_all_or_nothing (fun _ => .missing) (eval (fun _ => .missing) 1) s
      [.qexpr [x]]
    rcases hspec .define s.scope.inner.length (by simp) with
      ⟨fault, hfault, happly⟩ | ⟨symbols, values, _, _, hargs, -, hcount, -⟩
    · obtain rfl : Fault.varCount (.text (Bytes.of "def")) (.int 0) (.int 1) = fault :=
        Except.error.inj hfault.definitions
      exact happly
    · obtain ⟨hfirst, rfl⟩ := List.cons.inj hargs
      obtain rfl : [x] = symbols := by simpa using hfirst
      cases hcount

end BraceLisp
