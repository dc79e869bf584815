import BraceLisp.Environment.Change
import BraceLisp.Proofs.LinkedEnvironments
import Mathlib.Data.List.Perm.Subperm

/-!
# Chains that come to an end

Where no environment encloses itself, the links from every environment lead to an outermost one. Such a chain has no
environment twice, so there are at most as many in it as there are at all, and the walk that is limited to that
number has the whole of it.
-/

namespace BraceLisp

namespace Store

variable {store after : Store} {e o r : Nat} {refs : List Nat}

/-! ## Links -/

/-- An environment encloses another, with any number of environments between them. -/
inductive Within (store : Store) : Nat → Nat → Prop where
  | outer {e o : Nat} (outer : store.outer? e = some o) : Within store e o
  | further {e m o : Nat} (outer : store.outer? e = some m) (within : Within store m o) : Within store e o

def Acyclic (store : Store) : Prop := ∀ e, ¬ store.Within e e

/-- All environments from one outwards up to an outermost one. -/
inductive Chain (store : Store) : Nat → List Nat → Prop where
  | outermost {e : Nat} (outer : store.outer? e = none) : Chain store e [e]
  | link {e o : Nat} {refs : List Nat} (outer : store.outer? e = some o) (chain : Chain store o refs) :
      Chain store e (e :: refs)

namespace Chain

theorem head (h : store.Chain e refs) : ∃ rest, refs = e :: rest := by
  cases h with
  | outermost => exact ⟨[], rfl⟩
  | link => exact ⟨_, rfl⟩

theorem unique {refs' : List Nat} (h : store.Chain e refs) (h' : store.Chain e refs') : refs = refs' := by
  induction h generalizing refs' with
  | outermost outer =>
      cases h' with
      | outermost => rfl
      | link outer' => cases outer.symm.trans outer'
  | link outer chain ih =>
      cases h' with
      | outermost outer' => cases outer.symm.trans outer'
      | link outer' chain' =>
          obtain rfl := Option.some.inj (outer.symm.trans outer')
          rw [ih chain']

/-- The chain of an environment on a chain is the rest of the chain. -/
theorem exists_isSuffix (h : store.Chain e refs) (hr : r ∈ refs) : ∃ rest, store.Chain r rest ∧ rest <:+ refs := by
  induction h with
  | outermost outer =>
      obtain rfl := List.mem_singleton.mp hr
      exact ⟨_, .outermost outer, List.suffix_rfl⟩
  | link outer chain ih =>
      rcases List.mem_cons.mp hr with rfl | hr
      · exact ⟨_, .link outer chain, List.suffix_rfl⟩
      · obtain ⟨rest, hrest, hsuffix⟩ := ih hr
        exact ⟨rest, hrest, hsuffix.trans (List.suffix_cons _ _)⟩

/-- A chain that ends has no environment twice. -/
theorem nodup (h : store.Chain e refs) : refs.Nodup := by
  induction h with
  | outermost => exact List.nodup_cons.mpr ⟨List.not_mem_nil, List.nodup_nil⟩
  | @link e o refs outer chain ih =>
      refine List.nodup_cons.mpr ⟨fun hmem => ?_, ih⟩
      obtain ⟨rest, hrest, hsuffix⟩ := chain.exists_isSuffix hmem
      obtain rfl := hrest.unique (.link outer chain)
      exact absurd hsuffix.length_le (Nat.not_succ_le_self _)

/-- A chain depends on the links of its environments alone. -/
theorem congr (h : store.Chain e refs) (hlinks : ∀ r ∈ refs, after.outer? r = store.outer? r) :
    after.Chain e refs := by
  induction h with
  | outermost outer => exact .outermost ((hlinks _ List.mem_cons_self).trans outer)
  | link outer chain ih =>
      obtain ⟨hfirst, hrest⟩ := List.forall_mem_cons.mp hlinks
      exact .link (hfirst.trans outer) (ih hrest)

end Chain

/-! ## Environments that are linked as they should be -/

/-- Links lead to environments that there are, and every chain ends. -/
structure WellLinked (store : Store) : Prop where
  outer_lt : ∀ e o, store.outer? e = some o → o < store.environments.length
  exists_chain : ∀ e, ∃ refs, store.Chain e refs

theorem WellLinked.mem_lt (h : store.WellLinked) (hchain : store.Chain e refs) (hr : r ∈ refs) :
    r = e ∨ r < store.environments.length := by
  induction hchain with
  | outermost => exact .inl (List.mem_singleton.mp hr)
  | link outer chain ih =>
      rcases List.mem_cons.mp hr with rfl | hr
      · exact .inl rfl
      · rcases ih hr with rfl | hlt
        · exact .inr (h.outer_lt _ _ outer)
        · exact .inr hlt

/-- A chain is not longer than the number of environments. -/
theorem WellLinked.length_le (h : store.WellLinked) (hchain : store.Chain e refs)
    (he : e < store.environments.length) : refs.length ≤ store.environments.length := by
  have hsubset : refs ⊆ List.range store.environments.length := fun r hr =>
    List.mem_range.mpr ((h.mem_lt hchain hr).elim (fun hre => hre ▸ he) id)
  have hlength := (List.subperm_of_subset hchain.nodup hsubset).length_le
  rwa [List.length_range] at hlength

theorem Chain.chainFrom_eq (h : store.Chain e refs) {limit : Nat} (hlimit : refs.length ≤ limit) :
    store.chainFrom limit e = refs := by
  induction h generalizing limit with
  | outermost outer =>
      obtain ⟨limit, rfl⟩ := Nat.exists_eq_add_one_of_ne_zero (Nat.ne_of_gt hlimit)
      rw [chainFrom, outer]
  | link outer chain ih =>
      obtain ⟨limit, rfl⟩ := Nat.exists_eq_add_one_of_ne_zero (Nat.ne_of_gt (Nat.zero_lt_of_lt hlimit))
      rw [chainFrom, outer]
      exact congrArg _ (ih (Nat.le_of_succ_le_succ hlimit))

theorem eraseDups_of_nodup (h : refs.Nodup) : refs.eraseDups = refs := by
  induction refs with
  | nil => rfl
  | cons r rest ih =>
      obtain ⟨hr, hrest⟩ := List.nodup_cons.mp h
      have hfilter : rest.filter (fun x => !x == r) = rest := by
        refine List.filter_eq_self.mpr fun x hx => ?_
        have hne : x ≠ r := fun hxr => hr (hxr ▸ hx)
        simpa using hne
      rw [List.eraseDups_cons, hfilter, ih hrest]

/-- The limited walk has the whole of a chain. -/
theorem WellLinked.chain_eq (h : store.WellLinked) (hchain : store.Chain e refs)
    (he : e < store.environments.length) : store.chain e = refs := by
  rw [chain, hchain.chainFrom_eq (h.length_le hchain he), eraseDups_of_nodup hchain.nodup]

theorem WellLinked.chain_chain (h : store.WellLinked) (he : e < store.environments.length) :
    store.Chain e (store.chain e) := by
  obtain ⟨refs, hrefs⟩ := h.exists_chain e
  rwa [h.chain_eq hrefs he]

theorem WellLinked.self_mem_chain (h : store.WellLinked) (he : e < store.environments.length) :
    e ∈ store.chain e := by
  obtain ⟨rest, hrest⟩ := (h.chain_chain he).head
  rw [hrest]
  exact List.mem_cons_self

theorem WellLinked.mem_chain_lt (h : store.WellLinked) (he : e < store.environments.length)
    (hr : r ∈ store.chain e) : r < store.environments.length :=
  (h.mem_lt (h.chain_chain he) hr).elim (fun hre => hre ▸ he) id

/-- The chain of an environment ends with the outermost environment around it. -/
theorem WellLinked.getLast?_chain (h : store.WellLinked) (he : e < store.environments.length) :
    (store.chain e).getLast? = some (store.root e) := by
  obtain ⟨rest, hrest⟩ := (h.chain_chain he).head
  rw [root, hrest, List.getLastD_cons, List.getLast?_cons, List.getLastD_eq_getLast?]

theorem WellLinked.root_mem_chain (h : store.WellLinked) (he : e < store.environments.length) :
    store.root e ∈ store.chain e :=
  List.mem_of_getLast? (h.getLast?_chain he)

theorem WellLinked.root_lt (h : store.WellLinked) (he : e < store.environments.length) :
    store.root e < store.environments.length :=
  h.mem_chain_lt he (h.root_mem_chain he)

/-! ## What changes do to links -/

theorem outer?_put (store : Store) (ref : Nat) (name : Bytes) (v : Value) (e : Nat) :
    (store.put ref name v).outer? e = store.outer? e :=
  outer?_setFrame store ref _ e

/-- What is added to a list has the place behind all others, which keep theirs. -/
theorem getElem?_added {α : Type} (entries : List α) (added : α) (i : Nat) :
    (entries ++ [added])[i]? = if i = entries.length then some added else entries[i]? := by
  rcases Nat.lt_trichotomy i entries.length with hlt | rfl | hgt
  · rw [if_neg (Nat.ne_of_lt hlt), List.getElem?_append_left hlt]
  · rw [if_pos rfl, List.getElem?_concat_length]
  · have hnone : (entries ++ [added])[i]? = none := by
      rw [List.getElem?_eq_none_iff, List.length_append]
      exact hgt
    rw [if_neg (Nat.ne_of_gt hgt), hnone, List.getElem?_eq_none (Nat.le_of_lt hgt)]

/-- An environment that has been added has its link, and all others keep theirs. -/
theorem outer?_append (store : Store) (added : Environment) (e : Nat) :
    (Store.mk (store.environments ++ [added])).outer? e =
      if e = store.environments.length then added.outer else store.outer? e := by
  rw [outer?, getElem?_added]
  split
  · rfl
  · rfl

theorem outer?_link (store : Store) (ref : Nat) (outer : Option Nat) (e : Nat) :
    (store.link ref outer).outer? e =
      if e = ref ∧ e < store.environments.length then outer else store.outer? e := by
  simp only [outer?, Store.link, List.getElem?_modify, Option.map_eq_map]
  cases he : store.environments[e]? with
  | none =>
      have hlength := List.getElem?_eq_none_iff.mp he
      rw [if_neg fun hand => absurd hand.2 (Nat.not_lt.mpr hlength)]
      rfl
  | some environment =>
      obtain ⟨hlt, -⟩ := List.getElem?_eq_some_iff.mp he
      by_cases href : e = ref
      · simp [href.symm, hlt]
      · simp [href, Ne.symm href]

theorem wellLinked_empty : (Store.mk []).WellLinked where
  outer_lt _ _ h := nomatch h
  exists_chain e := ⟨[e], .outermost rfl⟩

/-- Where links stay as they are, so do chains. -/
theorem WellLinked.of_links (h : store.WellLinked) (hlinks : ∀ e, after.outer? e = store.outer? e)
    (hlength : after.environments.length = store.environments.length) : after.WellLinked where
  outer_lt e o ho := hlength ▸ h.outer_lt e o (hlinks e ▸ ho)
  exists_chain e := by
    obtain ⟨refs, hrefs⟩ := h.exists_chain e
    exact ⟨refs, hrefs.congr fun r _ => hlinks r⟩

/-- An environment can be added that is enclosed by none, or by one that there was already. -/
theorem WellLinked.append (h : store.WellLinked) {added : Environment}
    (hadded : ∀ o, added.outer = some o → o < store.environments.length) :
    (Store.mk (store.environments ++ [added])).WellLinked := by
  have hchain {e : Nat} {refs : List Nat} (hrefs : store.Chain e refs) (he : e ≠ store.environments.length) :
      (Store.mk (store.environments ++ [added])).Chain e refs := by
    refine hrefs.congr fun r hr => ?_
    have hne : r ≠ store.environments.length := by
      rcases h.mem_lt hrefs hr with rfl | hlt
      · exact he
      · exact Nat.ne_of_lt hlt
    rw [outer?_append, if_neg hne]
  constructor
  · intro e o ho
    rw [List.length_append]
    rw [outer?_append] at ho
    split at ho
    · exact Nat.lt_succ_of_lt (hadded o ho)
    · exact Nat.lt_succ_of_lt (h.outer_lt e o ho)
  · intro e
    by_cases he : e = store.environments.length
    · cases houter : added.outer with
      | none => exact ⟨[e], .outermost (by rw [outer?_append, if_pos he, houter])⟩
      | some o =>
          obtain ⟨refs, hrefs⟩ := h.exists_chain o
          have ho := hchain hrefs (Nat.ne_of_lt (hadded o houter))
          exact ⟨e :: refs, .link (by rw [outer?_append, if_pos he, houter]) ho⟩
    · obtain ⟨refs, hrefs⟩ := h.exists_chain e
      exact ⟨refs, hchain hrefs he⟩

/-- A chain that had an environment leads there still when that environment is linked to another. -/
theorem Chain.eq_or_within_link (h : store.Chain e refs) (hr : r ∈ refs) (outer : Option Nat) :
    e = r ∨ (store.link r outer).Within e r := by
  induction h with
  | outermost => exact .inl (List.mem_singleton.mp hr).symm
  | @link e o refs houter chain ih =>
      by_cases her : e = r
      · exact .inl her
      · have hkept : (store.link r outer).outer? e = some o := by
          rw [outer?_link, if_neg fun hand => her hand.1, houter]
        rcases ih ((List.mem_cons.mp hr).resolve_left (Ne.symm her)) with rfl | hwithin
        · exact .inr (.outer hkept)
        · exact .inr (.further hkept hwithin)

/-- A link that leaves no environment enclosing itself leaves every chain with an end. -/
theorem WellLinked.link (h : store.WellLinked) {outer : Option Nat} (hr : r < store.environments.length)
    (hlt : ∀ o, outer = some o → o < store.environments.length) (hacyclic : (store.link r outer).Acyclic) :
    (store.link r outer).WellLinked := by
  have hlinked : (store.link r outer).outer? r = outer := by rw [outer?_link, if_pos ⟨rfl, hr⟩]
  have hothers {e : Nat} (he : e ≠ r) : (store.link r outer).outer? e = store.outer? e := by
    rw [outer?_link, if_neg fun hand => he hand.1]
  have hfrom : ∃ refs, (store.link r outer).Chain r refs := by
    cases outer with
    | none => exact ⟨[r], .outermost hlinked⟩
    | some o =>
        obtain ⟨refs, hrefs⟩ := h.exists_chain o
        have haway : r ∉ refs := fun hmem => by
          rcases hrefs.eq_or_within_link hmem (some o) with rfl | hwithin
          · exact hacyclic _ (.outer hlinked)
          · exact hacyclic _ (.further hlinked hwithin)
        exact ⟨r :: refs, .link hlinked (hrefs.congr fun x hx => hothers fun hxr => haway (hxr ▸ hx))⟩
  constructor
  · intro e o ho
    rw [Store.link, List.length_modify]
    by_cases he : e = r
    · rw [he, hlinked] at ho
      exact hlt o ho
    · rw [hothers he] at ho
      exact h.outer_lt e o ho
  · intro e
    obtain ⟨refs, hrefs⟩ := h.exists_chain e
    induction hrefs with
    | @outermost e outer =>
        by_cases he : e = r
        · exact he ▸ hfrom
        · exact ⟨[e], .outermost ((hothers he).trans outer)⟩
    | @link e o refs outer chain ih =>
        by_cases he : e = r
        · exact he ▸ hfrom
        · obtain ⟨refs', hrefs'⟩ := ih
          exact ⟨e :: refs', .link ((hothers he).trans outer) hrefs'⟩

/-! ## Changes that may be made -/

/-- A change is to environments that there are, and leaves no environment enclosing itself. -/
def Change.Legal (store : Store) : Change → Prop
  | .new => True
  | .put ref _ _ | .define ref _ _ | .copy ref | .delete ref => ref < store.environments.length
  | .link ref outer =>
      ref < store.environments.length ∧ (∀ o, outer = some o → o < store.environments.length) ∧
        (store.link ref outer).Acyclic

def AllLegal : List Change → Store → Prop
  | [], _ => True
  | change :: rest, store => change.Legal store ∧ AllLegal rest (change.apply store)

/-- Links that lead only to environments made earlier make no environment enclose itself. -/
theorem acyclic_of_outer_lt (h : ∀ e o, store.outer? e = some o → o < e) : store.Acyclic := by
  have hlt {e o : Nat} (hwithin : store.Within e o) : o < e := by
    induction hwithin with
    | outer outer => exact h _ _ outer
    | further outer within ih => exact Nat.lt_trans ih (h _ _ outer)
  exact fun e hself => Nat.lt_irrefl e (hlt hself)

theorem WellLinked.apply (h : store.WellLinked) {change : Change} (hlegal : change.Legal store) :
    (change.apply store).WellLinked := by
  cases change with
  | new => exact h.append fun o ho => nomatch ho
  | put ref name v => exact h.of_links (outer?_put store ref name v) (List.length_modify ..)
  | define ref name v => exact h.of_links (outer?_put store _ name v) (List.length_modify ..)
  | copy ref => exact h.append fun o ho => h.outer_lt ref o ho
  | delete ref => exact h.of_links (outer?_setFrame store ref []) (List.length_modify ..)
  | link ref outer => exact h.link hlegal.1 hlegal.2.1 hlegal.2.2

theorem Change.length_le (store : Store) (change : Change) :
    store.environments.length ≤ (change.apply store).environments.length := by
  cases change with
  | new | copy ref => exact (List.prefix_append store.environments _).length_le
  | put | define | delete | link => exact Nat.le_of_eq (List.length_modify ..).symm

theorem Change.outer?_apply {change : Change} (hlink : ∀ ref outer, change ≠ .link ref outer)
    (he : e < store.environments.length) : (change.apply store).outer? e = store.outer? e := by
  cases change with
  | new | copy ref => exact (outer?_append store _ e).trans (if_neg (Nat.ne_of_lt he))
  | put | define => exact outer?_put ..
  | delete => exact outer?_setFrame ..
  | link ref outer => exact absurd rfl (hlink ref outer)

/-- Changes other than links leave the chains of the environments there are as they are. -/
theorem WellLinked.chain_apply (h : store.WellLinked) {change : Change} (hlegal : change.Legal store)
    (hlink : ∀ ref outer, change ≠ .link ref outer) (he : e < store.environments.length) :
    (change.apply store).chain e = store.chain e := by
  have hchain : (change.apply store).Chain e (store.chain e) :=
    (h.chain_chain he).congr fun r hr => Change.outer?_apply hlink (h.mem_chain_lt he hr)
  exact (h.apply hlegal).chain_eq hchain (Nat.lt_of_lt_of_le he (change.length_le store))

/-- Neither a copy nor what has been copied is on the chain of the other. -/
theorem WellLinked.not_mem_chain_copy (h : store.WellLinked) (he : e < store.environments.length) :
    e ∉ ((Change.copy e).apply store).chain store.environments.length ∧
      store.environments.length ∉ ((Change.copy e).apply store).chain e := by
  have hlegal : (Change.copy e).Legal store := he
  have hlink : ∀ ref outer, Change.copy e ≠ .link ref outer := nofun
  constructor
  · have hlt : store.environments.length < ((Change.copy e).apply store).environments.length := by
      change _ < (store.environments ++ [_]).length
      rw [List.length_append]
      exact Nat.lt_succ_self _
    have houter : ((Change.copy e).apply store).outer? store.environments.length = store.outer? e :=
      (outer?_append store _ _).trans (if_pos rfl)
    intro hmem
    cases hlinks : store.outer? e with
    | none =>
        rw [(h.apply hlegal).chain_eq (.outermost (houter.trans hlinks)) hlt, List.mem_singleton] at hmem
        exact Nat.ne_of_lt he hmem
    | some o =>
        have ho := h.outer_lt e o hlinks
        have hrest : ((Change.copy e).apply store).Chain o (store.chain o) := by
          rw [← h.chain_apply hlegal hlink ho]
          exact (h.apply hlegal).chain_chain (Nat.lt_of_lt_of_le ho (Change.length_le store _))
        rw [(h.apply hlegal).chain_eq (.link (houter.trans hlinks) hrest) hlt] at hmem
        have hchain : store.Chain e (e :: store.chain o) := .link hlinks (h.chain_chain ho)
        rcases List.mem_cons.mp hmem with hself | hmem
        · exact Nat.ne_of_lt he hself
        · exact (List.nodup_cons.mp hchain.nodup).1 hmem
  · rw [h.chain_apply hlegal hlink he]
    exact fun hmem => Nat.lt_irrefl _ (h.mem_chain_lt he hmem)

end Store

end BraceLisp
