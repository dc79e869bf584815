import BraceLisp.Proofs.Prelude.StartUp

/-!
# Code that means what it means at the start

Free names mean what they mean to the caller, so the functions of the prelude do what they should only in a scope
where the names that they use have not been bound to something else. The prelude itself takes care of that: none of the
formals of its functions is a name that it uses otherwise, and however deep its functions call each other, the frames on
the way hide none of the names of the start.
-/

namespace BraceLisp

open Prelude (symbol apply function isNil startUp meanings)

/-! ## Frames of calls -/

theorem Builtin.mem_all (b : Builtin) : b ∈ Builtin.all := by
  cases b with
  | operation op => cases op <;> first | decide | (rename_i op; cases op <;> decide)
  | _ => decide

namespace Prelude

theorem builtins_eq : Session.builtins = Builtin.bound.map fun (name, b) => (name, .builtin b) := by
  decide +kernel

/-- The formals of the functions that go through lists, so that each of them has its own in this order. -/
def listFormals : List String := ["n", "f", "z", "x", "l", "cs"]

theorem nodup_listFormals : listFormals.Nodup := by
  decide

theorem not_mem_names_startUp {name : String} (h : name ∈ listFormals) :
    Bytes.of name ∉ Bindings.names startUp := by
  have hall : ∀ name ∈ listFormals, Bytes.of name ∉ Bindings.names startUp := by decide +kernel
  exact hall name h

def frame (formals : List String) (args : List Value) : Frame :=
  (formals.map Bytes.of).zip args

variable {formals leading : List String} {args : List Value}

theorem not_mem_mark {formals : List String} (h : formals.Sublist listFormals) : "&" ∉ formals :=
  fun hmark => absurd (h.subset hmark) (by decide)

theorem exists_of_mem_frame {entry : Bytes × Value} (h : entry ∈ frame formals args) :
    ∃ formal ∈ formals, Bytes.of formal = entry.1 :=
  List.mem_map.mp (List.of_mem_zip h).1

theorem frame_append {more : List String} {rest : List Value} (h : args.length = formals.length) :
    frame (formals ++ more) (args ++ rest) = frame formals args ++ frame more rest := by
  rw [frame, List.map_append, List.zip_append ((List.length_map Bytes.of).trans h.symm)]
  rfl

theorem nodup_names_frame (hnodup : formals.Nodup) (hlength : args.length = formals.length) :
    (Bindings.names (frame formals args)).Nodup := by
  have hnames : Bindings.names (frame formals args) = formals.map Bytes.of :=
    List.map_fst_zip (Nat.le_of_eq ((List.length_map Bytes.of).trans hlength.symm))
  rw [hnames, List.Nodup, List.pairwise_map]
  exact hnodup.imp fun hne heq => hne (Bytes.of_inj.mp heq)

/-- Formals that are all different are bound in the order in which they are given. -/
theorem putAll_frame (hnodup : formals.Nodup) (hlength : args.length = formals.length) :
    Bindings.putAll (frame formals args) [] = frame formals args :=
  Bindings.putAll_of_nodup (b := []) (nodup_names_frame hnodup hlength)

theorem symbolName_ne_mark (hmark : "&" ∉ formals) :
    ∀ formal ∈ formals.map symbol, formal.symbolName ≠ variadicMark := by
  intro formal hformal heq
  obtain ⟨name, hname, rfl⟩ := List.mem_map.mp hformal
  obtain rfl : name = "&" := Bytes.of_inj.mp heq
  exact hmark hname

theorem leading_map_symbol (hmark : "&" ∉ leading) (rest : List String) :
    Bound.leading ((leading ++ "&" :: rest).map symbol) = leading.map symbol := by
  rw [List.map_append, List.map_cons, Bound.leading, List.takeWhile_append_of_pos]
  · simp [symbol, Value.symbolName, variadicMark]
  · intro formal hformal
    exact decide_eq_true (symbolName_ne_mark hmark formal hformal)

theorem withLeading_map_symbol (hmark : "&" ∉ leading) (rest : List String) (more : List Value)
    (hlength : args.length = leading.length) :
    Bound.withLeading ((leading ++ "&" :: rest).map symbol) (args ++ more) [] =
      Bindings.putAll (frame leading args) [] := by
  have hnames : (leading.map symbol).map Value.symbolName = leading.map Bytes.of := List.map_map
  have hcount : (leading.map Bytes.of).length = args.length := (List.length_map Bytes.of).trans hlength.symm
  rw [Bound.withLeading, leading_map_symbol hmark, List.length_map, ← hlength, List.take_left, List.map_append,
    List.map_append, hnames, ← List.append_nil args, List.zip_append (by rw [hcount]), List.zip_nil_right]
  simp [frame]

end Prelude

namespace Scope

open Prelude

variable {files : Files} {caches : ParseCache → Prop} {scope : Scope}

theorem get?_enter (scope : Scope) (frame : Frame) (name : Bytes) :
    (scope.enter frame).get? name = (Bindings.get? name frame).or (scope.get? name) := by
  simp only [get?, enter, getIn?]
  cases Bindings.get? name frame with
  | none => rfl
  | some v => rfl

theorem get?_enter_frame {formals : List String} {args : List Value} (hnodup : formals.Nodup)
    (hlength : args.length = formals.length) :
    ∀ entry ∈ frame formals args, (scope.enter (frame formals args)).get? entry.1 = some entry.2 := by
  intro entry hentry
  rw [get?_enter, Bindings.get?_of_mem (nodup_names_frame hnodup hlength) hentry, Option.some_or]

/-- A function without `&` is called with as many arguments as it has formals. -/
theorem calls_function {formals : List String} {body args : List Value} {r : Value} (hnodup : formals.Nodup)
    (hmark : "&" ∉ formals) (hlength : args.length = formals.length)
    (hbody : (scope.enter (frame formals args)).Yields files caches (.sexpr body) r) :
    scope.Calls files caches (function formals body) args r := by
  refine calls_closure ?_ hbody
  have hmarks := symbolName_ne_mark hmark
  have hleading : Bound.leading (formals.map symbol) = formals.map symbol := Bound.leading_eq_self hmarks
  rw [Bound.ofCall, Value.cells, Bound.bind_of_as_many [] hmarks (by rw [List.length_map, hlength]),
    Bound.withLeading, hleading, List.length_map, ← hlength, List.take_length, List.map_map]
  exact congrArg Bound.saturated (putAll_frame hnodup hlength)

/-- The formal behind `&` is bound to the arguments for which there are no other formals. -/
theorem calls_variadic {leading : List String} {last : String} {body first rest : List Value} {r : Value}
    (hnodup : (leading ++ [last]).Nodup) (hmark : "&" ∉ leading) (hlength : first.length = leading.length)
    (hbody : (scope.enter (frame (leading ++ [last]) (first ++ [.qexpr rest]))).Yields files caches (.sexpr body) r) :
    scope.Calls files caches (function (leading ++ ["&", last]) body) (first ++ rest) r := by
  refine calls_closure ?_ hbody
  have hleading := leading_map_symbol hmark [last]
  have hcount : (Bound.leading ((leading ++ ["&", last]).map symbol)).length = first.length := by
    rw [hleading, List.length_map, hlength]
  have hsplit : (leading ++ ["&", last]).map symbol =
      Bound.leading ((leading ++ ["&", last]).map symbol) ++ [symbol "&", symbol last] := by
    rw [hleading, List.map_append]
    rfl
  have hframe : Bindings.putAll (frame (leading ++ [last]) (first ++ [.qexpr rest])) [] =
      Bindings.put (Bytes.of last) (.qexpr rest) (Bindings.putAll (frame leading first) []) := by
    rw [frame_append hlength, Bindings.putAll_append]
    rfl
  rw [Bound.ofCall, Value.cells, Bound.bind_of_rest [] hsplit (by rw [hcount]; simp), hcount, List.drop_left,
    withLeading_map_symbol hmark [last] rest hlength, ← putAll_frame hnodup (by simp [hlength]), hframe]
  rfl

/-! ## Names of the start -/

/-- The names of the start mean in a scope what they mean at the start. -/
def Standard (scope : Scope) : Prop :=
  ∀ entry ∈ startUp, scope.get? entry.1 = some entry.2

namespace Standard

theorem enter (h : scope.Standard) {formals : List String} (hformals : formals.Sublist listFormals)
    (args : List Value) : (scope.enter (frame formals args)).Standard := by
  intro entry hentry
  have hnone : Bindings.get? entry.1 (frame formals args) = none := by
    rw [← Option.not_isSome_iff_eq_none, Bindings.isSome_get?_iff]
    intro hname
    obtain ⟨bound, hbound, hsame⟩ := List.mem_map.mp hname
    obtain ⟨formal, hformal, hof⟩ := exists_of_mem_frame hbound
    refine not_mem_names_startUp (hformals.subset hformal) ?_
    rw [hof, hsame]
    exact List.mem_map_of_mem hentry
  rw [get?_enter, hnone, Option.none_or]
  exact h entry hentry

/-- The body of a function is evaluated one frame further in, where the formals are bound to the arguments. -/
theorem calls_function (h : scope.Standard) {formals : List String} {body args : List Value} {r : Value}
    (hformals : formals.Sublist listFormals) (hlength : args.length = formals.length)
    (hbody : ∀ inside : Scope, inside.Standard →
      (∀ entry ∈ frame formals args, inside.get? entry.1 = some entry.2) →
        inside.Yields files caches (.sexpr body) r) :
    scope.Calls files caches (function formals body) args r := by
  have hnodup := nodup_listFormals.sublist hformals
  exact Scope.calls_function hnodup (not_mem_mark hformals) hlength
    (hbody _ (h.enter hformals args) (get?_enter_frame hnodup hlength))

theorem calls_variadic (h : scope.Standard) (leading : List String) {last : String} (first : List Value)
    {body rest : List Value} {r : Value} (hformals : (leading ++ [last]).Sublist listFormals)
    (hlength : first.length = leading.length)
    (hbody : ∀ inside : Scope, inside.Standard →
      (∀ entry ∈ frame (leading ++ [last]) (first ++ [.qexpr rest]), inside.get? entry.1 = some entry.2) →
        inside.Yields files caches (.sexpr body) r) :
    scope.Calls files caches (function (leading ++ ["&", last]) body) (first ++ rest) r := by
  have hnodup := nodup_listFormals.sublist hformals
  have hcount : (first ++ [Value.qexpr rest]).length = (leading ++ [last]).length := by
    rw [List.length_append, List.length_append, hlength]
    rfl
  have hmark : "&" ∉ leading := not_mem_mark ((List.sublist_append_left leading [last]).trans hformals)
  exact Scope.calls_variadic hnodup hmark hlength (hbody _ (h.enter hformals _) (get?_enter_frame hnodup hcount))

/-! ## What names of the start yield -/

theorem yields_builtin (h : scope.Standard) (b : Builtin) :
    scope.Yields files caches (.symbol b.name) (.builtin b) := by
  refine yields_symbol (h (b.name, .builtin b) (List.mem_append_left _ ?_))
  rw [builtins_eq]
  exact List.mem_map.mpr ⟨(b.name, b), List.mem_append_left _ (List.mem_map_of_mem b.mem_all), rfl⟩

theorem get?_meaning (h : scope.Standard) {name : String} {v : Value} (hmeaning : (name, v) ∈ meanings) :
    scope.get? (Bytes.of name) = some v :=
  h _ (List.mem_append_right _ (List.mem_map_of_mem hmeaning))

theorem yields_meaning (h : scope.Standard) {name : String} {v : Value} (hmeaning : (name, v) ∈ meanings) :
    scope.Yields files caches (symbol name) v :=
  yields_symbol (h.get?_meaning hmeaning)

end Standard

end Scope

theorem Session.BindsStart.standard {root : Frame} (h : Session.BindsStart root) : Scope.Standard ⟨[], root⟩ :=
  Session.bindsStart_iff.mp h

end BraceLisp
