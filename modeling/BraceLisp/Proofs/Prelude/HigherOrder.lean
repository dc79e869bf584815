import BraceLisp.Proofs.Prelude.Lists

/-!
# Functions that apply functions to lists

`map`, `filter` and `foldl` compute what their names say, of any function that does its part: wherever it is called
below frames that bind only the formals of these three, it has to return a value that is no error and to leave nothing
else behind. They are recursive, and each call of theirs is a frame deeper than the one before; what is shown of them
is therefore shown of every scope whose frames bind only those formals, by induction on the list.
-/

namespace BraceLisp

open Prelude

namespace Prelude

def higherFormals : List String := ["f", "z", "l"]

theorem higherFormals_sublist : higherFormals.Sublist listFormals := by
  decide

end Prelude

/-! ## Scopes above an outermost environment -/

namespace Scope

/-- The frames of a scope bind no names but `f`, `z` and `l`, and lie above a given outermost environment. -/
structure Above (root : Frame) (scope : Scope) : Prop where
  root_eq : scope.root = root
  binds_formals : ∀ frame ∈ scope.inner, ∀ entry ∈ frame, ∃ formal ∈ higherFormals, Bytes.of formal = entry.1

theorem above_root (root : Frame) : Above root ⟨[], root⟩ :=
  ⟨rfl, fun _ hframe => nomatch hframe⟩

namespace Above

variable {files : Files} {caches : ParseCache → Prop} {root : Frame} {scope : Scope} (h : scope.Above root)

include h

theorem enter {formals : List String} (hformals : formals.Sublist higherFormals) (args : List Value) :
    (scope.enter (frame formals args)).Above root := by
  refine ⟨h.root_eq, List.forall_mem_cons.mpr ⟨fun entry hentry => ?_, h.binds_formals⟩⟩
  obtain ⟨formal, hformal, hname⟩ := exists_of_mem_frame hentry
  exact ⟨formal, hformals.subset hformal, hname⟩

/-- The frames hide no name of the start. -/
theorem standard (hroot : Session.BindsStart root) : scope.Standard := by
  intro entry hentry
  have hnone : getIn? entry.1 scope.inner = none := by
    refine Option.eq_none_iff_forall_ne_some.mpr fun v hv => ?_
    obtain ⟨frame, hframe, hbound⟩ := exists_mem_of_getIn? hv
    obtain ⟨formal, hformal, hname⟩ := h.binds_formals frame hframe _ hbound
    refine not_mem_names_startUp (higherFormals_sublist.subset hformal) ?_
    exact List.mem_map.mpr ⟨entry, hentry, hname.symm⟩
  rw [get?, hnone, h.root_eq]
  exact Session.bindsStart_iff.mp hroot entry hentry

/-- The body of a function is evaluated one frame further in, where the formals are bound to the arguments. -/
theorem calls_function (hroot : Session.BindsStart root) {formals : List String} {body args : List Value} {r : Value}
    (hformals : formals.Sublist higherFormals) (hlength : args.length = formals.length)
    (hbody : ∀ inside : Scope, inside.Above root → inside.Standard →
      (∀ entry ∈ frame formals args, inside.get? entry.1 = some entry.2) →
        inside.Yields files caches (.sexpr body) r) :
    scope.Calls files caches (function formals body) args r := by
  have hlist := hformals.trans higherFormals_sublist
  have hnodup := nodup_listFormals.sublist hlist
  have habove := h.enter hformals args
  exact Scope.calls_function hnodup (not_mem_mark hlist) hlength
    (hbody _ habove (habove.standard hroot) (get?_enter_frame hnodup hlength))

end Above

end Scope

namespace Prelude

variable (files : Files) (caches : ParseCache → Prop) (root : Frame)

/--
Wherever a function is called below frames that bind only `f`, `z` and `l`, it returns a value that is no error, and
leaves nothing else behind.
-/
structure Answers (function : Value) (args : List Value) (r : Value) : Prop where
  noError : r.isError = false
  calls : ∀ scope : Scope, scope.Above root → scope.Calls files caches function args r

end Prelude

theorem answers_operation {files : Files} {caches : ParseCache → Prop} {root : Frame} {op : Operation}
    {args : List Value} {r : Value} (h : op.compute args = .ok r) (hr : r.isError = false) :
    Answers files caches root (.builtin (.operation op)) args r :=
  ⟨hr, fun _ _ => Scope.calls_operation h⟩

theorem flatMap_eq_filter (p : Value → Bool) (xs : List Value) :
    (xs.flatMap fun x => if p x then [x] else []) = xs.filter p := by
  induction xs with
  | nil => rfl
  | cons x xs ih =>
      rw [List.flatMap_cons, List.filter_cons, ih]
      cases p x with
      | true => rfl
      | false => rfl

namespace Scope

variable {files : Files} {caches : ParseCache → Prop} {root : Frame} {scope : Scope} {g : Value} {xs : List Value}
  (hroot : Session.BindsStart root)

include hroot

/-! ## Items one by one -/

/-- The code for an item is evaluated once for each, a frame deeper every time. -/
theorem calls_joining {name : String} {piece : Value} {lists : Value → List Value} (hg : g.isError = false)
    (hmeaning : (name, joining name piece) ∈ meanings)
    (hpiece : ∀ x ∈ xs, ∀ rest, ∀ inside : Scope, inside.Above root → inside.get? (Bytes.of "f") = some g →
      inside.get? (Bytes.of "l") = some (.qexpr (x :: rest)) → inside.Yields files caches piece (.qexpr (lists x)))
    (h : scope.Above root) :
    scope.Calls files caches (joining name piece) [g, .qexpr xs] (.qexpr (xs.flatMap lists)) := by
  induction xs generalizing scope with
  | nil =>
      refine h.calls_function hroot (by decide) rfl fun inside habove hinside hbound => ?_
      exact hinside.yields_if_nil (hbound _ (.tail _ (.head _))) (yields_singleton hinside.yields_nil)
  | cons x xs ih =>
      obtain ⟨hx, hxs⟩ := List.forall_mem_cons.mp hpiece
      refine h.calls_function hroot (by decide) rfl fun inside habove hinside hbound => ?_
      have hf : inside.get? (Bytes.of "f") = some g := hbound _ (.head _)
      have hl : inside.get? (Bytes.of "l") = some (.qexpr (x :: xs)) := hbound _ (.tail _ (.head _))
      have htail : inside.Yields files caches (apply "tail" [symbol "l"]) (.qexpr xs) :=
        hinside.yields_tail (yields_symbol hl)
      have hrest : inside.Yields files caches (apply name [symbol "f", apply "tail" [symbol "l"]])
          (.qexpr (xs.flatMap lists)) :=
        hinside.yields_apply _ hmeaning (.cons (yields_symbol hf) hg (.cons htail rfl .nil)) (ih hxs habove)
      rw [List.flatMap_cons]
      exact hinside.yields_if_cons hl (hinside.yields_join (hx xs inside habove hf hl) hrest)

theorem Above.yields_ofFirst {x r : Value} (h : scope.Above root) (hf : scope.get? (Bytes.of "f") = some g)
    (hl : scope.get? (Bytes.of "l") = some (.qexpr (x :: xs))) (hg : g.isError = false) (hx : x.isSettled)
    (hr : Answers files caches root g [x] r) : scope.Yields files caches ofFirst r := by
  have hfirst : scope.Yields files caches (apply "fst" [symbol "l"]) x :=
    (h.standard hroot).yields_fst (yields_symbol hl) (Value.isNormal_of_isSettled hx)
  exact yields_call (.cons (yields_symbol hf) hg (.cons hfirst (Value.isError_of_isSettled hx) .nil))
    (hr.calls scope h)

theorem calls_map {G : Value → Value} (hg : g.isError = false) (hxs : ∀ x ∈ xs, x.isSettled)
    (hG : ∀ x ∈ xs, Answers files caches root g [x] (G x)) (h : scope.Above root) :
    scope.Calls files caches map [g, .qexpr xs] (.qexpr (xs.map G)) := by
  rw [List.map_eq_flatMap]
  refine calls_joining hroot hg (by decide) (fun x hx rest inside habove hf hl => ?_) h
  have hfirst := habove.yields_ofFirst hroot hf hl hg (hxs x hx) (hG x hx)
  exact (habove.standard hroot).yields_list hfirst (hG x hx).noError

theorem calls_filter {G : Value → Value} (hg : g.isError = false) (hxs : ∀ x ∈ xs, x.isSettled)
    (hG : ∀ x ∈ xs, Answers files caches root g [x] (G x)) (hnumber : ∀ x ∈ xs, ∃ n, G x = .number n)
    (h : scope.Above root) :
    scope.Calls files caches filter [g, .qexpr xs] (.qexpr (xs.filter fun x => G x ≠ .number 0)) := by
  rw [← flatMap_eq_filter]
  refine calls_joining hroot hg (by decide) (fun x hx rest inside habove hf hl => ?_) h
  obtain ⟨n, hn⟩ := hnumber x hx
  have hinside := habove.standard hroot
  have hfirst : inside.Yields files caches ofFirst (.number n) :=
    hn ▸ habove.yields_ofFirst hroot hf hl hg (hxs x hx) (hG x hx)
  refine hinside.yields_branch hfirst ?_
  by_cases hzero : n = 0
  · rw [if_pos hzero, if_neg (by simp [hn, hzero])]
    exact yields_singleton hinside.yields_nil
  · rw [if_neg hzero, if_pos (by simp [hn, hzero])]
    exact hinside.yields_head (yields_symbol hl)

/-! ## Items one after the other -/

theorem calls_foldl_nil {z : Value} (h : scope.Above root) :
    scope.Calls files caches foldl [g, z, .qexpr []] z := by
  refine h.calls_function hroot (by decide) rfl fun inside habove hinside hbound => ?_
  have hz : inside.get? (Bytes.of "z") = some z := hbound _ (.tail _ (.head _))
  have hl : inside.get? (Bytes.of "l") = some (.qexpr []) := hbound _ (.tail _ (.tail _ (.head _)))
  exact hinside.yields_if_nil hl (yields_singleton (yields_symbol hz))

/-- What a function makes of what it has made so far and the first item of a list. -/
theorem Above.yields_next {z x r : Value} (h : scope.Above root)
    (hbound : ∀ entry ∈ frame ["f", "z", "l"] [g, z, .qexpr (x :: xs)], scope.get? entry.1 = some entry.2)
    (hg : g.isError = false) (hz : z.isError = false) (hx : x.isSettled)
    (hcall : scope.Calls files caches g [z, x] r) :
    scope.Yields files caches (apply "f" [symbol "z", apply "fst" [symbol "l"]]) r := by
  have hl : scope.get? (Bytes.of "l") = some (.qexpr (x :: xs)) := hbound _ (.tail _ (.tail _ (.head _)))
  have hfirst : scope.Yields files caches (apply "fst" [symbol "l"]) x :=
    (h.standard hroot).yields_fst (yields_symbol hl) (Value.isNormal_of_isSettled hx)
  refine yields_call (.cons (yields_symbol (hbound _ (.head _))) hg ?_) hcall
  exact .cons (yields_symbol (hbound _ (.tail _ (.head _)))) hz (.cons hfirst (Value.isError_of_isSettled hx) .nil)

theorem calls_foldl_cons {z x a r : Value} (h : scope.Above root) (hg : g.isError = false) (hz : z.isError = false)
    (hx : x.isSettled) (ha : Answers files caches root g [z, x] a)
    (hrest : ∀ inside : Scope, inside.Above root → inside.Calls files caches foldl [g, a, .qexpr xs] r) :
    scope.Calls files caches foldl [g, z, .qexpr (x :: xs)] r := by
  refine h.calls_function hroot (by decide) rfl fun inside habove hinside hbound => ?_
  have hf : inside.get? (Bytes.of "f") = some g := hbound _ (.head _)
  have hl : inside.get? (Bytes.of "l") = some (.qexpr (x :: xs)) := hbound _ (.tail _ (.tail _ (.head _)))
  have hnext : inside.Yields files caches (apply "f" [symbol "z", apply "fst" [symbol "l"]]) a :=
    habove.yields_next hroot hbound hg hz hx (ha.calls inside habove)
  have htail : inside.Yields files caches (apply "tail" [symbol "l"]) (.qexpr xs) :=
    hinside.yields_tail (yields_symbol hl)
  refine hinside.yields_if_cons hl (hinside.yields_apply foldl (by decide) ?_ (hrest inside habove))
  exact .cons (yields_symbol hf) hg (.cons hnext ha.noError (.cons htail rfl .nil))

/-- An error ends the fold, and is its result. -/
theorem calls_foldl_cons_of_error {z x e : Value} (h : scope.Above root) (hg : g.isError = false)
    (hz : z.isError = false) (hx : x.isSettled) (he : e.isError = true)
    (hcall : ∀ inside : Scope, inside.Above root → inside.Calls files caches g [z, x] e) :
    scope.Calls files caches foldl [g, z, .qexpr (x :: xs)] e := by
  refine h.calls_function hroot (by decide) rfl fun inside habove hinside hbound => ?_
  have hf : inside.get? (Bytes.of "f") = some g := hbound _ (.head _)
  have hl : inside.get? (Bytes.of "l") = some (.qexpr (x :: xs)) := hbound _ (.tail _ (.tail _ (.head _)))
  have hnext : inside.Yields files caches (apply "f" [symbol "z", apply "fst" [symbol "l"]]) e :=
    habove.yields_next hroot hbound hg hz hx (hcall inside habove)
  have hbefore : inside.YieldsEach files caches [symbol "foldl", symbol "f"] [foldl, g] :=
    .cons (hinside.yields_meaning (by decide)) rfl (.cons (yields_symbol hf) hg .nil)
  exact hinside.yields_if_cons hl (yields_error hbefore hnext he [apply "tail" [symbol "l"]])

theorem calls_foldl {G : Value → Value → Value} {z : Value} (hg : g.isError = false) (hz : z.isError = false)
    (hxs : ∀ x ∈ xs, x.isSettled)
    (hG : ∀ before x after, xs = before ++ x :: after →
      Answers files caches root g [before.foldl G z, x] (G (before.foldl G z) x))
    (h : scope.Above root) : scope.Calls files caches foldl [g, z, .qexpr xs] (xs.foldl G z) := by
  induction xs generalizing z scope with
  | nil => exact calls_foldl_nil hroot h
  | cons x xs ih =>
      obtain ⟨hx, hxs⟩ := List.forall_mem_cons.mp hxs
      have ha : Answers files caches root g [z, x] (G z x) := hG [] x xs rfl
      refine calls_foldl_cons hroot h hg hz hx ha fun inside habove => ih ha.noError hxs ?_ habove
      intro before y after hsplit
      exact hG (x :: before) y after (congrArg (List.cons x) hsplit)

end Scope

/-! ## Expressions -/

open Scope in
/--
Expressions that apply `map`, `filter` and `foldl` to a function and a list of values that are their own results.
Where the function returns `G` of its arguments, wherever it is called below frames that bind only formals of these
three, `map` yields what `G` makes of each item, `filter` the items of which it makes a number other than zero, and
`foldl` what it makes of the items one after the other, from the left.
-/
theorem higher_order_functions (files : Files) (caches : ParseCache → Prop) {root : Frame}
    (hroot : Session.BindsStart root) {g : Value} (hg : g.isFunction) (G : List Value → Value) {xs : List Value}
    (hxs : ∀ x ∈ xs, x.isSettled) :
    ((∀ x ∈ xs, Answers files caches root g [x] (G [x])) →
      Yields files caches ⟨[], root⟩ (apply "map" [g, .qexpr xs]) (.qexpr (xs.map fun x => G [x])) ∧
        ((∀ x ∈ xs, ∃ n, G [x] = .number n) →
          Yields files caches ⟨[], root⟩ (apply "filter" [g, .qexpr xs])
            (.qexpr (xs.filter fun x => G [x] ≠ .number 0)))) ∧
    ∀ z : Value, z.isSettled →
      (∀ before x after, xs = before ++ x :: after →
        Answers files caches root g [before.foldl (fun a x => G [a, x]) z, x]
          (G [before.foldl (fun a x => G [a, x]) z, x])) →
      Yields files caches ⟨[], root⟩ (apply "foldl" [g, z, .qexpr xs]) (xs.foldl (fun a x => G [a, x]) z) := by
  have habove := above_root root
  have hstandard := hroot.standard
  have hsettled := Value.isSettled_of_isFunction hg
  have hnoError := Value.isError_of_isSettled hsettled
  have hlist : ∀ v ∈ [g, .qexpr xs], v.isSettled :=
    List.forall_mem_cons.mpr ⟨hsettled, List.forall_mem_singleton.mpr rfl⟩
  refine ⟨fun hG => ⟨?_, fun hnumber => ?_⟩, fun z hz hG => ?_⟩
  · exact hstandard.yields_apply map (by decide) (yieldsEach_self hlist) (calls_map hroot hnoError hxs hG habove)
  · exact hstandard.yields_apply filter (by decide) (yieldsEach_self hlist)
      (calls_filter hroot hnoError hxs hG hnumber habove)
  · have hargs : ∀ v ∈ [g, z, .qexpr xs], v.isSettled :=
      List.forall_mem_cons.mpr ⟨hsettled, List.forall_mem_cons.mpr ⟨hz, List.forall_mem_singleton.mpr rfl⟩⟩
    exact hstandard.yields_apply foldl (by decide) (yieldsEach_self hargs)
      (calls_foldl hroot hnoError (Value.isError_of_isSettled hz) hxs hG habove)

open Scope in
/-- Subtraction negates the items where it is given one at a time, and takes them away one after the other. -/
theorem higher_order_functions_of_subtraction :
    Session.BindsStart startUp ∧
    Yields (fun _ => .missing) (fun _ => True) ⟨[], startUp⟩
      (apply "map" [.builtin (.operation (.arith .sub)), .qexpr [.number 3, .number 0]])
      (.qexpr [.number (-3), .number 0]) ∧
    Yields (fun _ => .missing) (fun _ => True) ⟨[], startUp⟩
      (apply "filter" [.builtin (.operation (.arith .sub)), .qexpr [.number 3, .number 0]]) (.qexpr [.number 3]) ∧
    Yields (fun _ => .missing) (fun _ => True) ⟨[], startUp⟩
      (apply "foldl" [.builtin (.operation (.arith .sub)), .number 10, .qexpr [.number 3, .number 0]])
      (.number 7) := by
  have hitems : ∀ x ∈ [Value.number 3, .number 0], x.isSettled := by decide
  have hstart := Session.bindsStart_startUp
  have hall := higher_order_functions (fun _ => .missing) (fun _ => True) hstart
    (g := .builtin (.operation (.arith .sub))) rfl
    (fun args => (Operation.compute (.arith .sub) args).toOption.getD (.sexpr [])) hitems
  obtain ⟨hmap, hfilter⟩ := hall.1 (List.forall_mem_cons.mpr ⟨answers_operation rfl rfl,
    List.forall_mem_singleton.mpr (answers_operation rfl rfl)⟩)
  have hfoldl := hall.2 (.number 10) rfl
  refine ⟨hstart, hmap, hfilter ?_, hfoldl ?_⟩
  · exact List.forall_mem_cons.mpr ⟨⟨-3, rfl⟩, List.forall_mem_singleton.mpr ⟨0, rfl⟩⟩
  · intro before x after hsplit
    cases before with
    | nil =>
        cases hsplit
        exact answers_operation rfl rfl
    | cons first before =>
        cases before with
        | nil =>
            cases hsplit
            exact answers_operation rfl rfl
        | cons second before => simp at hsplit

end BraceLisp
