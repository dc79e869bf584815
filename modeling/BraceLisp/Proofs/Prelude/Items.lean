import BraceLisp.Proofs.Prelude.Counting
import BraceLisp.Proofs.Session.NormalForms

/-!
# Items of lists

`nth` and `last` return an item of a list by evaluating it once more, deep inside the frames of their calls, and `elem`
evaluates every item that it compares. This does no harm to values that are their own results, and evaluation returns
no others: so `do`, which returns the last of its arguments, returns what the last of its expressions came to.

What the expressions of a `do` leave behind is there when it looks for the last of their values. They may bind what
they like, as long as the names of the start mean afterwards what they meant before.
-/

namespace BraceLisp

open Prelude

namespace Prelude

theorem nth_eq_counting : nth = counting "nth" [symbol "fst", symbol "l"] := rfl

def pastItems (n : Int64) (l : List Value) : Fault :=
  if n.toInt = l.length then noCells .head else pastEnd n l

/-- What comes of the item at the end of a list, as far as the length of the list is a number of the language. -/
def atEnd (l : List Value) (x : Value) : Value :=
  if Number.Fits l.length then x else (outOfRange .add).toValue

end Prelude

namespace Scope

variable {files : Files} {caches : ParseCache → Prop} {scope : Scope}

/-! ## Items by number -/

section Number

variable {n : Int64} {l xs : List Value} {x : Value}

theorem Standard.yields_fst_nil (h : scope.Standard) {l : Value} (hl : scope.Yields files caches l (.qexpr [])) :
    scope.Yields files caches (apply "fst" [l]) (noCells .head).toValue := by
  refine h.yields_apply fst (by decide) (.cons hl rfl .nil) ?_
  refine h.calls_function (by decide) rfl fun inside hinside hbound => ?_
  have hinner : inside.get? (Bytes.of "l") = some (.qexpr []) := hbound _ (.head _)
  exact yields_error (.cons (hinside.yields_builtin .eval) rfl .nil)
    (hinside.yields_noCells .head (.inl rfl) (yields_symbol hinner)) rfl []

theorem calls_nth {k : Nat} (hx : l[k]? = some x) (hnormal : x.isNormal) (hn : n.toInt = k) (h : scope.Standard) :
    scope.Calls files caches nth [.number n, .qexpr l] x := by
  obtain ⟨hk, rfl⟩ := List.getElem?_eq_some_iff.mp hx
  rw [nth_eq_counting]
  refine calls_counting (by decide) (Nat.le_of_lt hk) hn (fun inside hinside hl => ?_) h
  rw [List.drop_eq_getElem_cons hk] at hl
  exact hinside.yields_fst (yields_symbol hl) hnormal

/-- One number past the last item it is the rest of the list that has no first item. -/
theorem calls_nth_pastItems (hpast : n.toInt < 0 ∨ l.length ≤ n.toInt) (h : scope.Standard) :
    scope.Calls files caches nth [.number n, .qexpr l] (pastItems n l).toValue := by
  rw [nth_eq_counting, pastItems]
  split
  next hlength =>
      refine calls_counting (by decide) (Nat.le_refl l.length) hlength (fun inside hinside hl => ?_) h
      rw [List.drop_length] at hl
      exact hinside.yields_fst_nil (yields_symbol hl)
  next hlength => exact calls_counting_pastEnd (by decide) h (by omega)

theorem Standard.calls_last (h : scope.Standard) (hx : x.isNormal) :
    scope.Calls files caches last [.qexpr (xs ++ [x])] (atEnd (xs ++ [x]) x) := by
  refine h.calls_function (by decide) rfl fun inside hinside hbound => ?_
  have hl : inside.Yields files caches (symbol "l") (.qexpr (xs ++ [x])) := yields_symbol (hbound _ (.head _))
  have hlen : inside.Yields files caches (apply "len" [symbol "l"]) (lengthOf (xs ++ [x])) :=
    hinside.yields_apply len (by decide) (.cons hl rfl .nil) (calls_len _ hinside)
  have hlength : ((xs ++ [x]).length : Int) = xs.length + 1 := by
    rw [List.length_append, List.length_singleton, Int.natCast_succ]
  rw [atEnd]
  split
  next hfits =>
      obtain ⟨k, hk⟩ := Number.exists_toInt_eq hfits
      have hbefore : Number.Fits xs.length := by
        simp only [Number.Fits, Number.least, Number.greatest, hlength] at hfits ⊢
        omega
      obtain ⟨m, hm⟩ := Number.exists_toInt_eq hbefore
      rw [lengthOf_of_toInt_eq hk] at hlen
      have hindex : inside.Yields files caches (apply "-" [apply "len" [symbol "l"], .number 1]) (.number m) := by
        refine hinside.yields_exact .sub (by decide) hlen (yields_self rfl) ?_
        change m.toInt = k.toInt - 1
        omega
      exact hinside.yields_apply nth (by decide) (.cons hindex rfl (.cons hl rfl .nil))
        (calls_nth List.getElem?_concat_length hx hm hinside)
  next hfits =>
      rw [lengthOf_of_not_fits hfits] at hlen
      have hindex : inside.Yields files caches (apply "-" [apply "len" [symbol "l"], .number 1])
          (outOfRange .add).toValue :=
        yields_error (.cons (hinside.yields_builtin (.operation (.arith .sub))) rfl .nil) hlen rfl [.number 1]
      have hnth : inside.Yields files caches (symbol "nth") nth := hinside.yields_meaning (by decide)
      exact yields_error (.cons hnth rfl .nil) hindex rfl [symbol "l"]

end Number

/-! ## Items that are equal to a value -/

theorem calls_elem {x : Value} (hx : x.isSettled) {xs : List Value} (hxs : ∀ y ∈ xs, y.isSettled)
    (h : scope.Standard) : scope.Calls files caches elem [x, .qexpr xs] (.ofBool (xs.any fun y => x.equal y)) := by
  have hnoError := Value.isError_of_isSettled hx
  induction xs generalizing scope with
  | nil =>
      refine h.calls_function (by decide) rfl fun inside hinside hbound => ?_
      have hfalse : inside.Yields files caches (symbol "false") (.number 0) := hinside.yields_meaning (by decide)
      exact hinside.yields_if_nil (hbound _ (.tail _ (.head _))) (yields_singleton hfalse)
  | cons y ys ih =>
      obtain ⟨hy, hys⟩ := List.forall_mem_cons.mp hxs
      refine h.calls_function (by decide) rfl fun inside hinside hbound => ?_
      have hxYields : inside.Yields files caches (symbol "x") x := yields_symbol (hbound _ (.head _))
      have hl : inside.get? (Bytes.of "l") = some (.qexpr (y :: ys)) := hbound _ (.tail _ (.head _))
      have hfirst : inside.Yields files caches (apply "fst" [symbol "l"]) y :=
        hinside.yields_fst (yields_symbol hl) (Value.isNormal_of_isSettled hy)
      have hequal : inside.Yields files caches (apply "==" [symbol "x", apply "fst" [symbol "l"]])
          (.ofBool (x.equal y)) :=
        hinside.yields_equal hxYields hfirst hnoError (Value.isError_of_isSettled hy)
      refine hinside.yields_if_cons hl (hinside.yields_branch hequal ?_)
      rw [List.any_cons]
      cases x.equal y with
      | true =>
          have htrue : inside.Yields files caches (symbol "true") (.number 1) := hinside.yields_meaning (by decide)
          exact yields_singleton htrue
      | false =>
          have htail : inside.Yields files caches (apply "tail" [symbol "l"]) (.qexpr ys) :=
            hinside.yields_tail (yields_symbol hl)
          exact hinside.yields_apply elem (by decide) (.cons hxYields hnoError (.cons htail rfl .nil))
            (ih hys hinside)

/-! ## Expressions in sequence -/

theorem Standard.calls_inSequence (h : scope.Standard) {x : Value} (hx : x.isNormal) (xs : List Value) :
    scope.Calls files caches inSequence (xs ++ [x]) (atEnd (xs ++ [x]) x) := by
  refine h.calls_variadic [] [] (by decide) rfl fun inside hinside hbound => ?_
  have hl : inside.get? (Bytes.of "l") = some (.qexpr (xs ++ [x])) := hbound _ (.head _)
  have hlast : inside.Yields files caches (apply "last" [symbol "l"]) (atEnd (xs ++ [x]) x) :=
    hinside.yields_apply last (by decide) (.cons (yields_symbol hl) rfl .nil) (hinside.calls_last hx)
  obtain ⟨y, ys, hcons⟩ := List.exists_cons_of_ne_nil (List.append_ne_nil_of_right_ne_nil xs (List.cons_ne_nil x []))
  rw [hcons] at hl
  exact hinside.yields_if_cons hl hlast

end Scope

/-- The expressions of a `do` are evaluated one after another, and the call leaves things as they have left them. -/
theorem eval_inSequence {files : Files} {depth : Nat} {s t : State} {es rs : List Value} {r : Value}
    (hs : s.scope.Standard) (ht : t.scope.Standard)
    (heach : evalEach (eval files depth) es s = some (rs ++ [r], t)) (hrs : ∀ v ∈ rs ++ [r], v.isError = false)
    (hr : r.isNormal) : ∃ depth', eval files depth' (apply "do" es) s = some (atEnd (rs ++ [r]) r, t) := by
  have hdo : eval files (depth + 1) (symbol "do") s = some (inSequence, s) :=
    eval_symbol (hs.get?_meaning (by decide)) files depth
  have hcells : evalEach (eval files (depth + 1)) (symbol "do" :: es) s = some (inSequence :: (rs ++ [r]), t) := by
    refine EvalM.bind_eq_some_iff.mpr ⟨inSequence, s, hdo, ?_⟩
    exact EvalM.bind_eq_some_iff.mpr ⟨rs ++ [r], t, evalEach_below (eval_below_succ files depth) es _ _ heach, rfl⟩
  have hcall : t.scope.Calls files (· = t.cache) inSequence (rs ++ [r]) (atEnd (rs ++ [r]) r) :=
    ht.calls_inSequence hr rs
  obtain ⟨arg, args, hcons⟩ :=
    List.exists_cons_of_ne_nil (List.append_ne_nil_of_right_ne_nil rs (List.cons_ne_nil r []))
  rw [hcons] at hcells hcall hrs ⊢
  exact eval_sexpr_of_calls hcells (List.forall_mem_cons.mpr ⟨rfl, hrs⟩) hcall

/-- Names that are not bound at the start can be bound as one likes. -/
theorem Session.BindsStart.put {root : Frame} (h : Session.BindsStart root) {name : Bytes}
    (hname : name ∉ Bindings.names startUp) (v : Value) : Session.BindsStart (Bindings.put name v root) := by
  refine Session.bindsStart_iff.mpr fun entry hentry => ?_
  have hne : name ≠ entry.1 := fun heq => hname (heq ▸ List.mem_map_of_mem hentry)
  rw [Bindings.get?_put_of_ne hne]
  exact Session.bindsStart_iff.mp h entry hentry

namespace Prelude

theorem bindable_startUp : ∀ entry ∈ startUp, entry.2.Bindable := by
  obtain ⟨s, hs, hglobals⟩ := Option.map_eq_some_iff.mp globals_start
  rw [← hglobals]
  exact fun entry hentry => ((Session.Reachable.start hs).sound Value.lasting_true entry hentry).bindable

end Prelude

open Scope in
/--
`nth` returns the item with a number, and comes to an error for every other number; `last` returns the last item, and
`elem` says whether an item is equal to a value. A `do` evaluates its expressions one after another, once each, and
returns what the last of them came to, if none came to an error; what they have bound, printed and parsed is there
afterwards. What an expression comes to is its own result wherever names are bound to nothing else, as in every session.
-/
theorem items_and_sequences (files : Files) (caches : ParseCache → Prop) {root : Frame}
    (hroot : Session.BindsStart root) :
    (∀ (l : List Value) (n : Int64),
      (∀ (k : Nat) (x : Value), l[k]? = some x → x.isNormal → n.toInt = k →
        Yields files caches ⟨[], root⟩ (counted "nth" n l) x) ∧
      (n.toInt < 0 ∨ l.length ≤ n.toInt →
        Yields files caches ⟨[], root⟩ (counted "nth" n l) (pastItems n l).toValue)) ∧
    (∀ (xs : List Value) (x : Value), x.isNormal →
      Yields files caches ⟨[], root⟩ (apply "last" [.qexpr (xs ++ [x])]) (atEnd (xs ++ [x]) x)) ∧
    (∀ (x : Value) (xs : List Value), x.isSettled → (∀ y ∈ xs, y.isSettled) →
      Yields files caches ⟨[], root⟩ (apply "elem" [x, .qexpr xs]) (.ofBool (xs.any fun y => x.equal y))) ∧
    ∀ (s after : Session) (depth : Nat) (es rs : List Value) (r : Value), s.globals = root →
      s.evalForms files depth es = some (rs ++ [r], after) → (∀ v ∈ rs ++ [r], v.isError = false) →
      Session.BindsStart after.globals →
        (r.isNormal → ∃ depth', s.eval files depth' (apply "do" es) = some (atEnd (rs ++ [r]) r, after)) ∧
        ((∀ entry ∈ root, entry.2.Bindable) → (∀ e ∈ es, e.Every Value.OwnSettled) → r.isNormal) := by
  have h := hroot.standard
  have hnth {l : List Value} {n : Int64} {r : Value}
      (hcall : Calls files caches ⟨[], root⟩ nth [.number n, .qexpr l] r) :
      Yields files caches ⟨[], root⟩ (counted "nth" n l) r :=
    h.yields_apply nth (by decide) (.cons (yields_self rfl) rfl (.cons (yields_self rfl) rfl .nil)) hcall
  refine ⟨fun l n => ⟨fun k x hx hnormal hn => ?_, fun hpast => ?_⟩, fun xs x hx => ?_, fun x xs hx hxs => ?_, ?_⟩
  · exact hnth (calls_nth hx hnormal hn h)
  · exact hnth (calls_nth_pastItems hpast h)
  · exact h.yields_apply last (by decide) (.cons (yields_self rfl) rfl .nil) (h.calls_last hx)
  · have hself : Yields files caches ⟨[], root⟩ x x := yields_self (Value.isNormal_of_isSettled hx)
    exact h.yields_apply elem (by decide)
      (.cons hself (Value.isError_of_isSettled hx) (.cons (yields_self rfl) rfl .nil)) (calls_elem hx hxs h)
  · rintro s after depth es rs r rfl hforms hrs hafter
    refine ⟨fun hr => ?_, fun hbindable hes => ?_⟩
    · obtain ⟨t, heach, rfl⟩ := Session.run_eq_some_iff.mp hforms
      have hscope : t.scope = ⟨[], t.scope.root⟩ := scope_of_evalEach (s := s.state) rfl heach
      have ht : t.scope.Standard := by
        rw [hscope]
        exact hafter.standard
      obtain ⟨depth', hdo⟩ := eval_inSequence (s := s.state) h ht heach hrs hr
      exact ⟨depth', Session.run_eq_some_iff.mpr ⟨t, hdo, rfl⟩⟩
    · exact (Session.evalForms_normal hbindable hes hforms r (List.mem_append_right rs (List.mem_singleton_self r))).1

/-- Two expressions, of which the first binds a name that the second needs. -/
def Prelude.bindAndUse : List Value :=
  [apply "=" [.qexpr [symbol "k"], .number 5], apply "+" [symbol "k", .number 1]]

theorem Prelude.ownSettled_bindAndUse : ∀ e ∈ bindAndUse, e.Every Value.OwnSettled := by
  have hsymbol (name : String) : (symbol name).Sound fun _ => True := Value.lasting_true.sound_atom rfl rfl rfl
  have hnumber (n : Int64) : (Value.number n).Sound fun _ => True := Value.lasting_true.sound_atom rfl rfl rfl
  have happly (name : String) (v : Value) (n : Int64) (hv : v.Sound fun _ => True) :
      (apply name [v, .number n]).Every Value.OwnSettled := by
    refine (Value.lasting_true.sound_sexpr ?_).ownSettled
    refine List.forall_mem_cons.mpr ⟨hsymbol name, ?_⟩
    exact List.forall_mem_cons.mpr ⟨hv, List.forall_mem_singleton.mpr (hnumber n)⟩
  refine List.forall_mem_cons.mpr ⟨happly "=" _ 5 ?_, List.forall_mem_singleton.mpr (happly "+" _ 1 (hsymbol "k"))⟩
  exact Value.lasting_true.sound_qexpr (List.forall_mem_singleton.mpr (hsymbol "k"))

open Scope in
/-- The last of three items, an item that is missing, and a name that is bound on the way. -/
theorem items_and_sequences_of_numbers :
    Session.BindsStart startUp ∧
    Yields (fun _ => .missing) (fun _ => True) ⟨[], startUp⟩
      (counted "nth" 2 [.number 4, .string [], .qexpr [symbol "x"]]) (.qexpr [symbol "x"]) ∧
    Yields (fun _ => .missing) (fun _ => True) ⟨[], startUp⟩
      (counted "nth" 3 [.number 4, .string [], .qexpr [symbol "x"]]) (noCells .head).toValue ∧
    Yields (fun _ => .missing) (fun _ => True) ⟨[], startUp⟩
      (apply "last" [.qexpr [.number 4, .number 5]]) (.number 5) ∧
    Yields (fun _ => .missing) (fun _ => True) ⟨[], startUp⟩
      (apply "elem" [.string [], .qexpr [.number 4, .string []]]) (.number 1) ∧
    ∃ depth after, Session.eval (fun _ => .missing) depth ⟨startUp, .empty, .empty⟩ (apply "do" bindAndUse) =
        some (.number 6, after) ∧
      Bindings.get? (Bytes.of "k") after.globals = some (.number 5) := by
  obtain ⟨hnth, hlast, helem, hdo⟩ :=
    items_and_sequences (fun _ => .missing) (fun _ => True) Session.bindsStart_startUp
  refine ⟨Session.bindsStart_startUp, ?_, ?_, ?_, ?_, ?_⟩
  · exact (hnth [.number 4, .string [], .qexpr [symbol "x"]] 2).1 2 _ rfl rfl rfl
  · exact (hnth [.number 4, .string [], .qexpr [symbol "x"]] 3).2 (.inr (by decide))
  · exact hlast [.number 4] (.number 5) rfl
  · exact helem (.string []) [.number 4, .string []] rfl (by decide)
  · have hrun : ((Session.mk startUp .empty .empty).evalForms (fun _ => .missing) 8 bindAndUse).map
        (fun p => (p.1, p.2.globals)) =
          some ([.sexpr []] ++ [.number 6], Bindings.put (Bytes.of "k") (.number 5) startUp) := by
      decide +kernel
    obtain ⟨⟨values, after⟩, hforms, hpair⟩ := Option.map_eq_some_iff.mp hrun
    obtain ⟨rfl, hglobals⟩ := Prod.mk.inj hpair
    have hafter : Session.BindsStart after.globals := by
      rw [hglobals]
      exact Session.bindsStart_startUp.put (by decide +kernel) _
    obtain ⟨hreturns, hnormal⟩ := hdo ⟨startUp, .empty, .empty⟩ after 8 bindAndUse [.sexpr []] (.number 6) rfl
      hforms (by decide) hafter
    obtain ⟨depth, hresult⟩ := hreturns (hnormal bindable_startUp ownSettled_bindAndUse)
    refine ⟨depth, after, hresult, ?_⟩
    rw [hglobals, Bindings.get?_put_self]

end BraceLisp
