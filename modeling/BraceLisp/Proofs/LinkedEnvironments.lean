import BraceLisp.Environment.Store
import BraceLisp.Proofs.Environment

/-!
# What linked environments keep

When something has happened in the scope of an environment, the frames of the scope are put back into the
environments that they were made from. Links stay as they are. An environment that is not on the way from the
innermost to the outermost one is not affected, and those that are have the frames that the scope has for them.
-/

namespace BraceLisp

namespace Store

variable {store : Store} {ref e : Nat}

/-! ## Putting frames back -/

theorem outer?_setFrame (store : Store) (r : Nat) (frame : Frame) (e : Nat) :
    (store.setFrame r frame).outer? e = store.outer? e := by
  simp only [outer?, setFrame, List.getElem?_modify, Option.map_eq_map]
  cases store.environments[e]? with
  | none => rfl
  | some environment => by_cases h : r = e <;> simp [h]

theorem outer?_setFrames (store : Store) (entries : List (Nat × Frame)) (e : Nat) :
    (store.setFrames entries).outer? e = store.outer? e := by
  induction entries generalizing store with
  | nil => rfl
  | cons entry rest ih =>
      obtain ⟨r, frame⟩ := entry
      exact (ih (store.setFrame r frame)).trans (outer?_setFrame store r frame e)

theorem length_environments_setFrames (store : Store) (entries : List (Nat × Frame)) :
    (store.setFrames entries).environments.length = store.environments.length := by
  induction entries generalizing store with
  | nil => rfl
  | cons entry rest ih =>
      obtain ⟨r, frame⟩ := entry
      exact (ih (store.setFrame r frame)).trans (List.length_modify ..)

theorem frame_setFrame (store : Store) (r : Nat) (frame : Frame) (e : Nat) :
    (store.setFrame r frame).frame e = store.frame e ∨ r = e ∧ (store.setFrame r frame).frame e = frame := by
  simp only [Store.frame, setFrame, List.getElem?_modify, Option.map_eq_map]
  cases store.environments[e]? with
  | none => exact .inl rfl
  | some environment =>
      by_cases h : r = e
      · exact .inr ⟨h, by simp [h]⟩
      · exact .inl (by simp [h])

/-- What is true of the bindings of an environment, and of all that it is given, is true of those it has then. -/
theorem frame_setFrames {p : Frame → Prop} {entries : List (Nat × Frame)} (hframe : p (store.frame e))
    (hentries : ∀ frame, (e, frame) ∈ entries → p frame) : p ((store.setFrames entries).frame e) := by
  induction entries generalizing store with
  | nil => exact hframe
  | cons entry rest ih =>
      obtain ⟨r, frame⟩ := entry
      refine ih ?_ fun frame hrest => hentries frame (List.mem_cons_of_mem _ hrest)
      rcases frame_setFrame store r frame e with hsame | ⟨rfl, hgiven⟩
      · rw [hsame]
        exact hframe
      · rw [hgiven]
        exact hentries frame List.mem_cons_self

/-! ## Chains -/

/-- The chain of an environment begins with it. -/
theorem chain_eq_nil_or_cons (store : Store) (ref : Nat) :
    store.chain ref = [] ∨ ∃ rest, store.chain ref = ref :: rest := by
  unfold chain
  cases store.environments.length with
  | zero => exact .inl rfl
  | succ limit =>
      right
      cases houter : store.outer? ref with
      | none =>
          rw [chainFrom, houter, List.eraseDups_cons]
          exact ⟨_, rfl⟩
      | some outer =>
          rw [chainFrom, houter, List.eraseDups_cons]
          exact ⟨_, rfl⟩

theorem chain_eq_nil_or_concat (store : Store) (ref : Nat) :
    store.chain ref = [] ∨ store.chain ref = (store.chain ref).dropLast ++ [store.root ref] := by
  rcases List.eq_nil_or_concat (store.chain ref) with hnil | ⟨inner, last, hconcat⟩
  · exact .inl hnil
  · right
    rw [root, hconcat, List.concat_eq_append, List.dropLast_concat, List.getLastD_concat]

theorem chain_congr {after : Store} (hlinks : ∀ e, after.outer? e = store.outer? e)
    (hlength : after.environments.length = store.environments.length) (ref : Nat) :
    after.chain ref = store.chain ref := by
  have hfrom (limit ref : Nat) : after.chainFrom limit ref = store.chainFrom limit ref := by
    induction limit generalizing ref with
    | zero => rfl
    | succ limit ih => simp only [chainFrom, hlinks, ih]
  rw [chain, chain, hlength, hfrom]

theorem get?_congr {after : Store} {name : Bytes} (hchain : ∀ ref, after.chain ref = store.chain ref)
    (hframes : ∀ e, Bindings.get? name (after.frame e) = Bindings.get? name (store.frame e)) (ref : Nat) :
    after.get? ref name = store.get? ref name := by
  have hin (refs : List Nat) : after.getIn? name refs = store.getIn? name refs := by
    induction refs with
    | nil => rfl
    | cons ref rest ih => simp only [getIn?, hframes, ih]
  rw [Store.get?, Store.get?, hchain, hin]

/-! ## Frames of a scope that are put back -/

theorem inner_scope (store : Store) (ref : Nat) :
    (store.scope ref).inner = (store.chain ref).dropLast.map store.frame := by
  rw [Store.scope, ← List.map_dropLast]

theorem root_scope (h : store.chain ref ≠ []) : (store.scope ref).root = store.frame (store.root ref) := by
  rcases store.chain_eq_nil_or_concat ref with hnil | hconcat
  · exact absurd hnil h
  · rw [Store.scope, hconcat, List.map_append, List.map_singleton, List.getLastD_concat]

theorem dropLast_chain_eq_nil_or_cons (store : Store) (ref : Nat) :
    (store.chain ref).dropLast = [] ∨ ∃ rest, (store.chain ref).dropLast = ref :: rest := by
  rcases store.chain_eq_nil_or_cons ref with hnil | ⟨rest, hcons⟩
  · exact .inl (by rw [hnil, List.dropLast_nil])
  · rw [hcons]
    cases rest with
    | nil => exact .inl rfl
    | cons outer rest => exact .inr ⟨(outer :: rest).dropLast, rfl⟩

theorem eq_of_mem_zip_map {refs : List Nat} {frame : Frame} (h : (e, frame) ∈ refs.zip (refs.map store.frame)) :
    frame = store.frame e := by
  have hzip := List.zip_map' (l := refs) (f := id) (g := store.frame)
  rw [List.map_id] at hzip
  rw [hzip] at h
  obtain ⟨r, -, hr⟩ := List.mem_map.mp h
  obtain ⟨rfl, rfl⟩ := Prod.mk.inj hr
  rfl

/-- What an environment is given when the frames of a scope are put back. -/
theorem mem_zip_chain {scope : Scope} (hlength : scope.inner.length = (store.scope ref).inner.length)
    {frame : Frame} (h : (e, frame) ∈ (store.chain ref).zip (scope.inner ++ [scope.root])) :
    (e, frame) ∈ (store.chain ref).dropLast.zip scope.inner ∨
      store.chain ref ≠ [] ∧ e = store.root ref ∧ frame = scope.root := by
  rcases store.chain_eq_nil_or_concat ref with hnil | hconcat
  · rw [hnil] at h
    cases h
  · have hinner : (store.chain ref).dropLast.length = scope.inner.length := by
      rw [hlength, inner_scope, List.length_map]
    rw [hconcat, List.zip_append hinner] at h
    rcases List.mem_append.mp h with hin | hout
    · exact .inl hin
    · obtain ⟨rfl, rfl⟩ := Prod.mk.inj (List.mem_singleton.mp hout)
      exact .inr ⟨by rw [hconcat]; exact List.concat_ne_nil _ _, rfl, rfl⟩

/-! ## Growth -/

/--
What may happen to linked environments while a value is evaluated in one of them: names may be bound in that
environment and in the outermost one around it, behind those there are. Nothing else changes, and no link does.
-/
structure Grown (store : Store) (ref : Nat) (after : Store) : Prop where
  links : ∀ e, after.outer? e = store.outer? e
  others : ∀ e, e ≠ ref → e ≠ store.root ref → after.frame e = store.frame e
  innermost : Bindings.names (store.frame ref) <+: Bindings.names (after.frame ref)
  outermost : Bindings.names (store.frame (store.root ref)) <+: Bindings.names (after.frame (store.root ref))

/--
What may happen to linked environments while a closure is called from one of them: names may be bound in the
outermost environment, behind those there are. Nothing else changes, and no link does.
-/
structure Spared (store : Store) (ref : Nat) (after : Store) : Prop where
  links : ∀ e, after.outer? e = store.outer? e
  others : ∀ e, e ≠ store.root ref → after.frame e = store.frame e
  outermost : Bindings.names (store.frame (store.root ref)) <+: Bindings.names (after.frame (store.root ref))

/-- An inner environment is given the bindings it had, unless it is the innermost one, whose bindings may grow. -/
theorem mem_zip_of_grows {scope : Scope} (hgrows : (store.scope ref).Grows scope) {frame : Frame}
    (h : (e, frame) ∈ (store.chain ref).dropLast.zip scope.inner) :
    (e = ref ∨ frame = store.frame e) ∧ Bindings.Grows (store.frame e) frame := by
  obtain ⟨hlength, hbetween, hinnermost, -⟩ := hgrows
  rcases store.dropLast_chain_eq_nil_or_cons ref with hnil | ⟨rest, hcons⟩
  · rw [hnil] at h
    cases h
  · rw [inner_scope, hcons] at hlength hbetween hinnermost
    rw [hcons] at h
    cases hinner : scope.inner with
    | nil =>
        rw [hinner] at hlength
        cases hlength
    | cons first others =>
        rw [hinner] at h hbetween hinnermost
        rcases List.mem_cons.mp h with hfirst | hrest
        · obtain ⟨rfl, rfl⟩ := Prod.mk.inj hfirst
          exact ⟨.inl rfl, hinnermost⟩
        · obtain rfl : others = rest.map store.frame := hbetween
          obtain rfl := eq_of_mem_zip_map hrest
          exact ⟨.inr rfl, .refl _⟩

theorem grows_frame_update {scope : Scope} (hgrows : (store.scope ref).Grows scope) (e : Nat) :
    Bindings.Grows (store.frame e) ((store.update ref scope).frame e) := by
  refine frame_setFrames (.refl _) fun frame hframe => ?_
  rcases mem_zip_chain hgrows.length_inner hframe with hin | ⟨hchain, rfl, rfl⟩
  · exact (mem_zip_of_grows hgrows hin).2
  · rw [← root_scope hchain]
    exact hgrows.root

/-- Growth of a scope is growth of the environments it was made from. -/
theorem grown_update {scope : Scope} (hgrows : (store.scope ref).Grows scope) :
    store.Grown ref (store.update ref scope) where
  links e := outer?_setFrames store _ e
  others e hinnermost houtermost := by
    refine frame_setFrames (p := fun frame => frame = store.frame e) rfl fun frame hframe => ?_
    rcases mem_zip_chain hgrows.length_inner hframe with hin | ⟨-, hroot, -⟩
    · exact (mem_zip_of_grows hgrows hin).1.resolve_left hinnermost
    · exact absurd hroot houtermost
  innermost := (grows_frame_update hgrows ref).names_isPrefix
  outermost := (grows_frame_update hgrows (store.root ref)).names_isPrefix

theorem frame_update_of_spared {p : Frame → Prop} {scope : Scope} (hspared : (store.scope ref).Spared scope)
    (hframe : p (store.frame e)) (hroot : store.chain ref ≠ [] → e = store.root ref → p scope.root) :
    p ((store.update ref scope).frame e) := by
  refine frame_setFrames hframe fun frame hmem => ?_
  rcases mem_zip_chain hspared.grows.length_inner hmem with hin | ⟨hchain, he, rfl⟩
  · rw [hspared.inner, inner_scope] at hin
    obtain rfl := eq_of_mem_zip_map hin
    exact hframe
  · exact hroot hchain he

/-- If the inner frames of a scope are spared, so are the inner environments it was made from. -/
theorem spared_update {scope : Scope} (hspared : (store.scope ref).Spared scope) :
    store.Spared ref (store.update ref scope) where
  links e := outer?_setFrames store _ e
  others e houtermost :=
    frame_update_of_spared (p := fun frame => frame = store.frame e) hspared rfl fun _ he => absurd he houtermost
  outermost := (grows_frame_update hspared.grows (store.root ref)).names_isPrefix

/-- A name that keeps its value in the outermost frame of a scope keeps its value everywhere. -/
theorem get?_update_of_spared {scope : Scope} (hspared : (store.scope ref).Spared scope) {name : Bytes}
    (hname : Bindings.get? name scope.root = Bindings.get? name (store.scope ref).root) (e : Nat) :
    (store.update ref scope).get? e name = store.get? e name := by
  refine get?_congr (chain_congr (outer?_setFrames store _) (length_environments_setFrames store _)) ?_ e
  intro e
  refine frame_update_of_spared (p := fun frame => Bindings.get? name frame = _) hspared rfl fun hchain he => ?_
  rw [hname, root_scope hchain, he]

end Store

end BraceLisp
