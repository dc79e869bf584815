import BraceLisp.Positional.Environments
import BraceLisp.Proofs.Environment.Puts
import BraceLisp.Proofs.Positional.Slots

/-!
# Chains of ordered maps

Linked environments with their bindings in slots show what the same environments have as lists of pairs. No change
breaks down, slots stay in step with names, and every walk along the links comes to an end, as long as no link makes
an environment enclose itself.
-/

namespace BraceLisp.Positional

open Store (Change Puts)

/-! ## Slots -/

namespace Slots

variable {s t : Slots} {frame : Frame}

/--
No name has two slots, there are as many names as values and as positions, and the table has the position of each
name.
-/
structure InStep (s : Slots) : Prop where
  nodup : s.names.Nodup
  length_vals : s.vals.length = s.names.length
  length_index : s.index.length = s.names.length
  position : ∀ name i, Bindings.get? name s.index = some i ↔ s.names[i]? = some name

/-- The slots show a frame that binds no name twice, and no name is in the table that is not in a slot. -/
structure Mirrors (s : Slots) (frame : Frame) : Prop extends Shows s frame where
  nodup : s.names.Nodup
  table : Bindings.names s.index = s.names

theorem mirrors_empty : empty.Mirrors [] where
  toShows := shows_empty
  nodup := List.nodup_nil
  table := rfl

/-- A name that is bound has its position in the table. -/
theorem table_put {name : Bytes} {v : Value} (h : Bindings.names s.index = s.names) (hput : s.put name v = .ok t) :
    Bindings.names t.index = t.names := by
  rw [put] at hput
  cases hslot : Bindings.get? name s.index with
  | some i =>
      rw [hslot] at hput
      dsimp only at hput
      cases hcell : cell s.vals i with
      | error b =>
          rw [hcell] at hput
          cases hput
      | ok w =>
          rw [hcell] at hput
          obtain rfl := Except.ok.inj hput
          exact h
  | none =>
      rw [hslot] at hput
      obtain rfl := Except.ok.inj hput
      have hnew : name ∉ Bindings.names s.index := by
        rw [← Bindings.isSome_get?_iff, hslot]
        exact Bool.false_ne_true
      rw [Bindings.names_put_of_not_mem hnew, h]

theorem Mirrors.put_eq (h : s.Mirrors frame) (name : Bytes) (v : Value) :
    ∃ t, s.put name v = .ok t ∧ t.Mirrors (Bindings.put name v frame) := by
  obtain ⟨t, hput, hshows⟩ := h.toShows.put_eq name v
  have hnodup : (Bindings.names frame).Nodup := by
    rw [Bindings.names, ← h.names]
    exact h.nodup
  refine ⟨t, hput, hshows, ?_, table_put h.table hput⟩
  rw [hshows.names]
  exact Bindings.nodup_names_put hnodup name v

theorem findIdx?_eq_some_iff {names : List Bytes} (h : names.Nodup) {name : Bytes} {i : Nat} :
    names.findIdx? (· == name) = some i ↔ names[i]? = some name := by
  rw [List.findIdx?_eq_some_iff_getElem]
  constructor
  · rintro ⟨hi, hname, -⟩
    rw [List.getElem?_eq_getElem hi, beq_iff_eq.mp hname]
  · intro hname
    obtain ⟨hi, rfl⟩ := List.getElem?_eq_some_iff.mp hname
    refine ⟨hi, beq_self_eq_true _, fun j hj hsame => ?_⟩
    have heq : names[j]? = names[i]? := by
      rw [List.getElem?_eq_getElem hi, List.getElem?_eq_getElem (Nat.lt_trans hj hi), beq_iff_eq.mp hsame]
    exact Nat.ne_of_lt hj ((List.getElem?_inj (Nat.lt_trans hj hi) h).mp heq)

theorem Mirrors.inStep (h : s.Mirrors frame) : s.InStep where
  nodup := h.nodup
  length_vals := by rw [h.vals, h.names, List.length_map, List.length_map]
  length_index := by rw [← h.table, Bindings.names, List.length_map]
  position name i := by rw [h.index, findIdx?_eq_some_iff h.nodup]

end Slots

/-! ## Walks along the links -/

/-- Each environment has its bindings in slots, and is linked to the one that encloses it. -/
structure Mirrors (es : List LinkedSlots) (store : Store) : Prop where
  length : es.length = store.environments.length
  slots : ∀ (ref : Nat) (e : LinkedSlots), es[ref]? = some e → e.slots.Mirrors (store.frame ref)
  outer : ∀ (ref : Nat) (e : LinkedSlots), es[ref]? = some e → e.outer = store.outer? ref

variable {es after : List LinkedSlots} {store : Store} {puts : Puts} {ref : Nat} {refs : List Nat}

theorem Mirrors.exists_entry (h : Mirrors es store) (hlt : ref < store.environments.length) :
    ∃ e, es[ref]? = some e ∧ entry es ref = .ok e := by
  have hlt' : ref < es.length := h.length ▸ hlt
  exact ⟨es[ref], List.getElem?_eq_getElem hlt', entry_of_lt hlt'⟩

theorem Mirrors.outermost_eq (h : Mirrors es store) (hchain : store.Chain ref refs)
    (hlt : ∀ r ∈ refs, r < store.environments.length) {limit : Nat} (hlimit : refs.length ≤ limit) :
    outermost es limit ref = (refs.getLast?).map Except.ok := by
  induction hchain generalizing limit with
  | @outermost ref outer =>
      obtain ⟨limit, rfl⟩ := Nat.exists_eq_add_one_of_ne_zero (Nat.ne_of_gt hlimit)
      obtain ⟨e, he, hentry⟩ := h.exists_entry (hlt ref List.mem_cons_self)
      rw [outermost, hentry]
      simp only [h.outer ref e he, outer]
      rfl
  | @link ref o refs outer chain ih =>
      obtain ⟨limit, rfl⟩ := Nat.exists_eq_add_one_of_ne_zero (Nat.ne_of_gt (Nat.zero_lt_of_lt hlimit))
      obtain ⟨hfirst, hrest⟩ := List.forall_mem_cons.mp hlt
      obtain ⟨e, he, hentry⟩ := h.exists_entry hfirst
      obtain ⟨rest, rfl⟩ := chain.head
      rw [outermost, hentry]
      simp only [h.outer ref e he, outer]
      rw [ih hrest (Nat.le_of_succ_le_succ hlimit), List.getLast?_cons_cons]

theorem Mirrors.lookUp_eq (h : Mirrors es store) (name : Bytes) (hchain : store.Chain ref refs)
    (hlt : ∀ r ∈ refs, r < store.environments.length) {limit : Nat} (hlimit : refs.length ≤ limit) :
    lookUp es name limit ref = some (.ok (store.getIn? name refs)) := by
  induction hchain generalizing limit with
  | @outermost ref outer =>
      obtain ⟨limit, rfl⟩ := Nat.exists_eq_add_one_of_ne_zero (Nat.ne_of_gt hlimit)
      obtain ⟨e, he, hentry⟩ := h.exists_entry (hlt ref List.mem_cons_self)
      rw [lookUp, hentry]
      simp only [bind, Except.bind, (h.slots ref e he).get?_eq, h.outer ref e he, outer]
      rw [Store.getIn?]
      cases Bindings.get? name (store.frame ref) with
      | some v => rfl
      | none => rfl
  | @link ref o refs outer chain ih =>
      obtain ⟨limit, rfl⟩ := Nat.exists_eq_add_one_of_ne_zero (Nat.ne_of_gt (Nat.zero_lt_of_lt hlimit))
      obtain ⟨hfirst, hrest⟩ := List.forall_mem_cons.mp hlt
      obtain ⟨e, he, hentry⟩ := h.exists_entry hfirst
      rw [lookUp, hentry]
      simp only [bind, Except.bind, (h.slots ref e he).get?_eq, h.outer ref e he, outer]
      rw [Store.getIn?]
      cases Bindings.get? name (store.frame ref) with
      | some v => rfl
      | none => exact ih hrest (Nat.le_of_succ_le_succ hlimit)

/-- The walk to the outermost environment ends there. -/
theorem Mirrors.outermost_root (h : Mirrors es store) (hlinked : store.WellLinked)
    (hlt : ref < store.environments.length) : outermost es es.length ref = some (.ok (store.root ref)) := by
  have hchain := hlinked.chain_chain hlt
  rw [h.outermost_eq hchain (fun r hr => hlinked.mem_chain_lt hlt hr) (h.length ▸ hlinked.length_le hchain hlt),
    hlinked.getLast?_chain hlt]
  rfl

/-- The walk to the nearest environment that has a name ends there, or behind the outermost one. -/
theorem Mirrors.lookUp_get? (h : Mirrors es store) (hlinked : store.WellLinked)
    (hlt : ref < store.environments.length) (name : Bytes) :
    lookUp es name es.length ref = some (.ok (store.get? ref name)) := by
  have hchain := hlinked.chain_chain hlt
  exact h.lookUp_eq name hchain (fun r hr => hlinked.mem_chain_lt hlt hr) (h.length ▸ hlinked.length_le hchain hlt)

/-! ## Changes -/

theorem mirrors_empty : Mirrors [] ⟨[]⟩ where
  length := rfl
  slots _ _ h := nomatch h
  outer _ _ h := nomatch h

theorem eq_or_getElem?_of_set {e x : LinkedSlots} {r : Nat} (h : (es.set ref e)[r]? = some x) :
    r = ref ∧ x = e ∨ r ≠ ref ∧ es[r]? = some x := by
  rw [List.getElem?_set] at h
  by_cases hr : ref = r
  · rw [if_pos hr] at h
    split at h
    · exact .inl ⟨hr.symm, (Option.some.inj h).symm⟩
    · cases h
  · rw [if_neg hr] at h
    exact .inr ⟨Ne.symm hr, h⟩

theorem eq_or_getElem?_of_concat {e x : LinkedSlots} {r : Nat} (h : (es ++ [e])[r]? = some x) :
    r = es.length ∧ x = e ∨ r ≠ es.length ∧ es[r]? = some x := by
  rw [Store.getElem?_added] at h
  split at h
  · rename_i hr
    exact .inl ⟨hr, (Option.some.inj h).symm⟩
  · rename_i hr
    exact .inr ⟨hr, h⟩

/-- An environment that is changed where it stands leaves the others as they are. -/
theorem Mirrors.set (h : Mirrors es store) {changed : Store} {e : LinkedSlots}
    (hlength : changed.environments.length = store.environments.length)
    (hslots : e.slots.Mirrors (changed.frame ref)) (houter : e.outer = changed.outer? ref)
    (hframes : ∀ r, r ≠ ref → changed.frame r = store.frame r)
    (houters : ∀ r, r ≠ ref → changed.outer? r = store.outer? r) : Mirrors (es.set ref e) changed where
  length := by rw [List.length_set, h.length, hlength]
  slots r x hx := by
    rcases eq_or_getElem?_of_set hx with ⟨rfl, rfl⟩ | ⟨hr, hx⟩
    · exact hslots
    · rw [hframes r hr]
      exact h.slots r x hx
  outer r x hx := by
    rcases eq_or_getElem?_of_set hx with ⟨rfl, rfl⟩ | ⟨hr, hx⟩
    · exact houter
    · rw [houters r hr]
      exact h.outer r x hx

/-- An environment that is added has the place behind all others. -/
theorem Mirrors.append (h : Mirrors es store) {e : LinkedSlots} {added : Environment}
    (hslots : e.slots.Mirrors added.frame) (houter : e.outer = added.outer) :
    Mirrors (es ++ [e]) ⟨store.environments ++ [added]⟩ where
  length := by rw [List.length_append, List.length_append, h.length, List.length_singleton, List.length_singleton]
  slots r x hx := by
    rw [Store.frame_append, ← h.length]
    rcases eq_or_getElem?_of_concat hx with ⟨rfl, rfl⟩ | ⟨hr, hx⟩
    · rw [if_pos rfl]
      exact hslots
    · rw [if_neg hr]
      exact h.slots r x hx
  outer r x hx := by
    rw [Store.outer?_append, ← h.length]
    rcases eq_or_getElem?_of_concat hx with ⟨rfl, rfl⟩ | ⟨hr, hx⟩
    · rw [if_pos rfl]
      exact houter
    · rw [if_neg hr]
      exact h.outer r x hx

theorem Mirrors.putAt_eq (h : Mirrors es store) (hlt : ref < store.environments.length) (name : Bytes) (v : Value) :
    ∃ e slots, es[ref]? = some e ∧ putAt es ref name v = .ok (es.set ref { e with slots }) ∧
      Mirrors (es.set ref { e with slots }) (store.put ref name v) := by
  obtain ⟨e, he, hentry⟩ := h.exists_entry hlt
  obtain ⟨slots, hput, hslots⟩ := (h.slots ref e he).put_eq name v
  refine ⟨e, slots, he, ?_, h.set (List.length_modify ..) ?_ ?_ ?_ ?_⟩
  · rw [putAt, modifyAt, hentry]
    simp only [bind, Except.bind, hput]
    rfl
  · rw [Store.put, Store.frame_setFrame_of_lt hlt, if_pos rfl]
    exact hslots
  · rw [Store.outer?_put]
    exact h.outer ref e he
  · intro r hr
    rw [Store.put, Store.frame_setFrame_of_lt hlt, if_neg hr]
  · intro r _
    rw [Store.outer?_put]

theorem Mirrors.delete_eq (h : Mirrors es store) (hlt : ref < store.environments.length) :
    ∃ e, es[ref]? = some e ∧ carryOut es (.delete ref) = some (.ok (es.set ref { e with slots := .empty })) ∧
      Mirrors (es.set ref { e with slots := .empty }) (store.delete ref) := by
  obtain ⟨e, he, hentry⟩ := h.exists_entry hlt
  refine ⟨e, he, ?_, h.set (List.length_modify ..) ?_ ?_ ?_ ?_⟩
  · rw [carryOut, modifyAt, hentry]
    rfl
  · rw [Store.delete, Store.frame_setFrame_of_lt hlt, if_pos rfl]
    exact Slots.mirrors_empty
  · rw [Store.delete, Store.outer?_setFrame]
    exact h.outer ref e he
  · intro r hr
    rw [Store.delete, Store.frame_setFrame_of_lt hlt, if_neg hr]
  · intro r _
    rw [Store.delete, Store.outer?_setFrame]

theorem Mirrors.link_eq (h : Mirrors es store) (hlt : ref < store.environments.length) (outer : Option Nat) :
    ∃ e, es[ref]? = some e ∧ carryOut es (.link ref outer) = some (.ok (es.set ref { e with outer })) ∧
      Mirrors (es.set ref { e with outer }) (store.link ref outer) := by
  obtain ⟨e, he, hentry⟩ := h.exists_entry hlt
  refine ⟨e, he, ?_, h.set (List.length_modify ..) ?_ ?_ ?_ ?_⟩
  · rw [carryOut, modifyAt, hentry]
    rfl
  · rw [Store.frame_link]
    exact h.slots ref e he
  · rw [Store.outer?_link, if_pos ⟨rfl, hlt⟩]
  · intro r _
    exact Store.frame_link store ref outer r
  · intro r hr
    rw [Store.outer?_link, if_neg fun hand => hr hand.1]

/--
What a change does and does not do. An environment stays as it is unless it is the one that has other bindings
afterwards, or is given another link. A link changes no bindings, a copy is what has been copied, and an environment
that has been emptied keeps its link.
-/
structure Effect (es : List LinkedSlots) (store : Store) (change : Change) (after : List LinkedSlots) : Prop where
  others : ∀ (ref : Nat) (e : LinkedSlots), es[ref]? = some e → change.target? store ≠ some ref →
    (∀ outer, change ≠ .link ref outer) → after[ref]? = some e
  linked : ∀ ref outer, change = .link ref outer → ∃ e, es[ref]? = some e ∧ after[ref]? = some { e with outer }
  copied : ∀ ref, change = .copy ref → after[es.length]? = es[ref]?
  deleted : ∀ ref, change = .delete ref → ∃ e, es[ref]? = some e ∧ after[ref]? = some { e with slots := .empty }

theorem getElem?_append_of_some {e : LinkedSlots} (added : LinkedSlots) (h : es[ref]? = some e) :
    (es ++ [added])[ref]? = some e := by
  obtain ⟨hlt, -⟩ := List.getElem?_eq_some_iff.mp h
  rw [List.getElem?_append_left hlt, h]

theorem getElem?_set_of_some {e : LinkedSlots} (changed : LinkedSlots) (h : es[ref]? = some e) :
    (es.set ref changed)[ref]? = some changed := by
  obtain ⟨hlt, -⟩ := List.getElem?_eq_some_iff.mp h
  rw [List.getElem?_set_self hlt]

/-- Binding a name in an environment changes no other. -/
theorem effect_putAt {change : Change} (htarget : change.target? store = some ref)
    (hlink : ∀ r outer, change ≠ .link r outer) (hcopy : ∀ r, change ≠ .copy r) (hdelete : ∀ r, change ≠ .delete r)
    (changed : LinkedSlots) : Effect es store change (es.set ref changed) where
  others r e he hother _ := by
    have hr : ref ≠ r := fun hr => hother (htarget.trans (congrArg some hr))
    rw [List.getElem?_set_ne hr, he]
  linked r outer heq := absurd heq (hlink r outer)
  copied r heq := absurd heq (hcopy r)
  deleted r heq := absurd heq (hdelete r)

/-- A legal change does not break down, and does what it should and nothing else. -/
theorem Mirrors.carryOut_eq (h : Mirrors es store) (hlinked : store.WellLinked) {change : Change}
    (hlegal : change.Legal store) :
    ∃ after, carryOut es change = some (.ok after) ∧ Mirrors after (change.apply store) ∧
      Effect es store change after := by
  cases change with
  | new =>
      refine ⟨_, rfl, h.append Slots.mirrors_empty rfl, ?_⟩
      constructor
      · intro r e he _ _
        exact getElem?_append_of_some _ he
      all_goals nofun
  | put ref name v =>
      obtain ⟨e, slots, -, hput, hmirrors⟩ := h.putAt_eq hlegal name v
      refine ⟨_, congrArg some hput, hmirrors, effect_putAt rfl ?_ ?_ ?_ _⟩ <;> nofun
  | define ref name v =>
      obtain ⟨e, slots, -, hput, hmirrors⟩ := h.putAt_eq (hlinked.root_lt hlegal) name v
      refine ⟨_, ?_, hmirrors, effect_putAt rfl ?_ ?_ ?_ _⟩
      · rw [carryOut, h.outermost_root hlinked hlegal]
        exact congrArg some hput
      all_goals nofun
  | copy ref =>
      obtain ⟨e, he, hentry⟩ := h.exists_entry hlegal
      refine ⟨es ++ [e], ?_, h.append (h.slots ref e he) (h.outer ref e he), ?_⟩
      · rw [carryOut, hentry]
        rfl
      · constructor
        · intro r x hx _ _
          exact getElem?_append_of_some _ hx
        · nofun
        · rintro r ⟨⟩
          rw [List.getElem?_concat_length, he]
        · nofun
  | delete ref =>
      obtain ⟨e, he, hdelete, hmirrors⟩ := h.delete_eq hlegal
      refine ⟨_, hdelete, hmirrors, ?_⟩
      constructor
      · intro r x hx hother _
        have hr : ref ≠ r := fun hr => hother (congrArg some hr)
        rw [List.getElem?_set_ne hr, hx]
      · nofun
      · nofun
      · rintro r ⟨⟩
        exact ⟨e, he, getElem?_set_of_some _ he⟩
  | link ref outer =>
      obtain ⟨e, he, hlink, hmirrors⟩ := h.link_eq hlegal.1 outer
      refine ⟨_, hlink, hmirrors, ?_⟩
      constructor
      · intro r x hx _ hother
        have hr : ref ≠ r := fun hr => hother outer (hr ▸ rfl)
        rw [List.getElem?_set_ne hr, hx]
      · rintro r o ⟨⟩
        exact ⟨e, he, getElem?_set_of_some _ he⟩
      · nofun
      · nofun

/-- Legal changes, one after another, do not break down. -/
theorem Mirrors.carryOutAll_eq (h : Mirrors es store) (hlinked : store.WellLinked) (hholds : store.Holds puts)
    {changes : List Change} (hlegal : Store.AllLegal changes store) :
    ∃ after, carryOutAll changes es = some (.ok after) ∧ Mirrors after (Store.applyAll changes store) ∧
      (Store.applyAll changes store).WellLinked ∧
      (Store.applyAll changes store).Holds (Store.recordAll changes store puts) := by
  induction changes generalizing es store puts with
  | nil => exact ⟨es, rfl, h, hlinked, hholds⟩
  | cons change rest ih =>
      obtain ⟨hfirst, hrest⟩ := hlegal
      obtain ⟨middle, hmiddle, hmirrors, -⟩ := h.carryOut_eq hlinked hfirst
      obtain ⟨after, hafter, hall⟩ := ih hmirrors (hlinked.apply hfirst) (hholds.apply hlinked hfirst) hrest
      refine ⟨after, ?_, hall⟩
      rw [carryOutAll, hmiddle]
      exact hafter

/-! ## Environments that do not enclose each other -/

/-- What is done through an environment is done to no other, unless a name is bound in the outermost one around it. -/
theorem target?_ne_or_defined (store : Store) {change : Change} {a b : Nat} (hthrough : change.through? = some a)
    (hb : b ≠ a) :
    change.target? store ≠ some b ∨ b = store.root a ∧ ∃ name v, change = .define a name v := by
  cases change with
  | put ref | delete ref =>
      obtain rfl := Option.some.inj hthrough
      exact .inl fun htarget => hb (Option.some.inj htarget).symm
  | define ref name v =>
      obtain rfl := Option.some.inj hthrough
      by_cases hroot : b = store.root ref
      · exact .inr ⟨hroot, name, v, rfl⟩
      · exact .inl fun htarget => hroot (Option.some.inj htarget).symm
  | new | copy | link => exact .inl nofun

theorem ne_link_of_through {change : Change} {a b : Nat} (hthrough : change.through? = some a) (hb : b ≠ a) :
    ∀ outer, change ≠ .link b outer := by
  rintro outer rfl
  exact hb (Option.some.inj hthrough)

theorem Effect.eq_or_defined {change : Change} (h : Effect es store change after) {a b : Nat}
    (hthrough : change.through? = some a) (hb : b ≠ a) {e : LinkedSlots} (he : es[b]? = some e) :
    after[b]? = some e ∨ b = store.root a ∧ ∃ name v, change = .define a name v := by
  rcases target?_ne_or_defined store hthrough hb with hother | hdefined
  · exact .inl (h.others b e he hother (ne_link_of_through hthrough hb))
  · exact .inr hdefined

def Spares (ref : Nat) : List Change → Store → Prop
  | [], _ => True
  | change :: rest, store =>
      (change.target? store ≠ some ref ∧ ∀ outer, change ≠ .link ref outer) ∧ Spares ref rest (change.apply store)

/-- An environment that is spared stays as it is. -/
theorem Mirrors.getElem?_of_spares (h : Mirrors es store) (hlinked : store.WellLinked) {changes : List Change}
    (hlegal : Store.AllLegal changes store) (hspares : Spares ref changes store) {e : LinkedSlots}
    (he : es[ref]? = some e) (hafter : carryOutAll changes es = some (.ok after)) : after[ref]? = some e := by
  induction changes generalizing es store with
  | nil =>
      obtain rfl := Except.ok.inj (Option.some.inj hafter)
      exact he
  | cons change rest ih =>
      obtain ⟨hfirst, hrest⟩ := hlegal
      obtain ⟨⟨hother, hlink⟩, hspares⟩ := hspares
      obtain ⟨middle, hmiddle, hmirrors, heffect⟩ := h.carryOut_eq hlinked hfirst
      rw [carryOutAll, hmiddle] at hafter
      exact ih hmirrors (hlinked.apply hfirst) hrest hspares (heffect.others ref e he hother hlink) hafter

/-- As long as links stay as they are, what is done through an environment spares those that are not on its chain. -/
theorem spares_of_no_link (hlinked : store.WellLinked) {changes : List Change}
    (hlegal : Store.AllLegal changes store) {a b : Nat} (hthrough : ∀ change ∈ changes, change.through? = some a)
    (ha : a < store.environments.length) (hb : b ∉ store.chain a) (hlink : ∀ r outer, .link r outer ∉ changes) :
    Spares b changes store := by
  induction changes generalizing store with
  | nil => trivial
  | cons change rest ih =>
      obtain ⟨hfirst, hrest⟩ := hlegal
      obtain ⟨hthrough, hthroughs⟩ := List.forall_mem_cons.mp hthrough
      have hne : b ≠ a := by
        rintro rfl
        exact hb (hlinked.self_mem_chain ha)
      have hother : change.target? store ≠ some b := by
        rcases target?_ne_or_defined store hthrough hne with hother | ⟨hroot, -⟩
        · exact hother
        · exact absurd (hroot ▸ hlinked.root_mem_chain ha) hb
      have hnolink : ∀ r outer, change ≠ .link r outer := fun r outer heq => hlink r outer (heq ▸ List.mem_cons_self)
      have hnolinks : ∀ r outer, .link r outer ∉ rest := fun r outer hmem =>
        hlink r outer (List.mem_cons_of_mem _ hmem)
      have hb' : b ∉ (change.apply store).chain a := by rwa [hlinked.chain_apply hfirst hnolink ha]
      have ha' := Nat.lt_of_lt_of_le ha (change.length_le store)
      exact ⟨⟨hother, hnolink b⟩, ih (hlinked.apply hfirst) hrest hthroughs ha' hb' hnolinks⟩

/-- As long as nothing is defined, what is done through an environment spares all others. -/
theorem spares_of_no_define {changes : List Change} {a b : Nat}
    (hthrough : ∀ change ∈ changes, change.through? = some a) (hb : b ≠ a)
    (hdefine : ∀ r name v, .define r name v ∉ changes) : Spares b changes store := by
  induction changes generalizing store with
  | nil => trivial
  | cons change rest ih =>
      obtain ⟨hthrough, hthroughs⟩ := List.forall_mem_cons.mp hthrough
      have hother : change.target? store ≠ some b := by
        rcases target?_ne_or_defined store hthrough hb with hother | ⟨-, name, v, rfl⟩
        · exact hother
        · exact absurd List.mem_cons_self (hdefine a name v)
      have hnodefines : ∀ r name v, .define r name v ∉ rest := fun r name v hmem =>
        hdefine r name v (List.mem_cons_of_mem _ hmem)
      exact ⟨⟨hother, ne_link_of_through hthrough hb⟩, ih hthroughs hnodefines⟩

/-! ## Chains of ordered maps -/

/--
Linked environments by what has been put into each of them since it was made or last emptied, or into what it is a
copy of. Names stand in the order in which they came first. The links from every environment end at its outermost
one, and the value of a name is what was put under it last in the nearest environment on the way that has the name.
-/
structure OrderedMaps (es : List LinkedSlots) (store : Store) (puts : Puts) : Prop where
  length : es.length = store.environments.length
  inStep : ∀ (ref : Nat) (e : LinkedSlots), es[ref]? = some e → e.slots.InStep
  names : ∀ (ref : Nat) (e : LinkedSlots), es[ref]? = some e →
    e.slots.names = Bindings.firstNames (puts ref) ∧ e.slots.names = Bindings.names (store.frame ref)
  outer : ∀ (ref : Nat) (e : LinkedSlots), es[ref]? = some e → e.outer = store.outer? ref
  chain : ∀ ref, ref < es.length → store.Chain ref (store.chain ref)
  outermost : ∀ ref, ref < es.length →
    outermost es es.length ref = some (.ok (store.root ref)) ∧ (store.chain ref).getLast? = some (store.root ref)
  lookUp : ∀ ref, ref < es.length → ∀ name,
    lookUp es name es.length ref = some (.ok (store.get? ref name)) ∧
      store.get? ref name = (store.chain ref).findSome? fun e => Bindings.lastPut? name (puts e)

theorem getIn?_eq_findSome? (hholds : store.Holds puts) (name : Bytes) (refs : List Nat) :
    store.getIn? name refs = refs.findSome? fun e => Bindings.lastPut? name (puts e) := by
  induction refs with
  | nil => rfl
  | cons ref rest ih =>
      rw [Store.getIn?, List.findSome?_cons, hholds ref, Bindings.get?_putAll_nil, ih]
      cases Bindings.lastPut? name (puts ref) <;> rfl

theorem Mirrors.orderedMaps (h : Mirrors es store) (hlinked : store.WellLinked) (hholds : store.Holds puts) :
    OrderedMaps es store puts where
  length := h.length
  inStep ref e he := (h.slots ref e he).inStep
  names ref e he := by
    have hnames := (h.slots ref e he).names
    refine ⟨?_, hnames⟩
    rw [hnames, ← Bindings.names_putAll_nil, ← hholds ref]
    rfl
  outer := h.outer
  chain ref href := hlinked.chain_chain (h.length ▸ href)
  outermost ref href :=
    ⟨h.outermost_root hlinked (h.length ▸ href), hlinked.getLast?_chain (h.length ▸ href)⟩
  lookUp ref href name :=
    ⟨h.lookUp_get? hlinked (h.length ▸ href) name, getIn?_eq_findSome? hholds name _⟩

/--
Whatever is done to linked environments, one change after another, they are chains of ordered maps, as long as no
link makes an environment enclose itself. Every change can be carried out. What is done through an environment
affects no other, except that a name can be defined in the outermost one around it. And nothing that is done through a
copy affects what was copied, nor the other way around: not even a definition as long as links stay as they are, and
not even a link as long as nothing is defined.
-/
theorem environments_are_ordered_maps {changes : List Change} (hlegal : Store.AllLegal changes ⟨[]⟩) :
    ∃ es, carryOutAll changes [] = some (.ok es) ∧
      OrderedMaps es (Store.applyAll changes ⟨[]⟩) (Store.recordAll changes ⟨[]⟩ fun _ => []) ∧
      (∀ change : Change, change.Legal (Store.applyAll changes ⟨[]⟩) →
        ∃ after, carryOut es change = some (.ok after) ∧ Effect es (Store.applyAll changes ⟨[]⟩) change after ∧
          ∀ (a b : Nat) (e : LinkedSlots), change.through? = some a → b ≠ a → es[b]? = some e →
            after[b]? = some e ∨
              b = (Store.applyAll changes ⟨[]⟩).root a ∧ ∃ name v, change = .define a name v) ∧
      ∀ ref later, Store.AllLegal (.copy ref :: later) (Store.applyAll changes ⟨[]⟩) →
        ((∀ r outer, .link r outer ∉ later) ∨ ∀ r name v, .define r name v ∉ later) →
        ∃ e final, es[ref]? = some e ∧ carryOutAll (.copy ref :: later) es = some (.ok final) ∧
          ((∀ change ∈ later, change.through? = some es.length) → final[ref]? = some e) ∧
          ((∀ change ∈ later, change.through? = some ref) → final[es.length]? = some e) := by
  have hnothing : (Store.mk []).Holds fun _ => [] := fun _ => rfl
  obtain ⟨es, hes, hmirrors, hlinked, hholds⟩ :=
    mirrors_empty.carryOutAll_eq Store.wellLinked_empty hnothing hlegal
  refine ⟨es, hes, hmirrors.orderedMaps hlinked hholds, ?_, ?_⟩
  · intro change hchange
    obtain ⟨after, hafter, -, heffect⟩ := hmirrors.carryOut_eq hlinked hchange
    exact ⟨after, hafter, heffect, fun a b e hthrough hb he => heffect.eq_or_defined hthrough hb he⟩
  · intro ref later hlater hkinds
    obtain ⟨hcopy, hrest⟩ := hlater
    obtain ⟨e, he, -⟩ := hmirrors.exists_entry hcopy
    obtain ⟨after, hafter, hcopied, heffect⟩ := hmirrors.carryOut_eq hlinked hcopy
    have hlinked' := hlinked.apply hcopy
    obtain ⟨final, hfinal, -⟩ := hcopied.carryOutAll_eq hlinked' (hholds.apply hlinked hcopy) hrest
    obtain ⟨horiginal, hcopy'⟩ := hlinked.not_mem_chain_copy hcopy
    rw [← hmirrors.length] at horiginal hcopy'
    have hlength : ((Change.copy ref).apply (Store.applyAll changes ⟨[]⟩)).environments.length = es.length + 1 := by
      rw [hmirrors.length]
      exact List.length_append
    have hlt : ref < es.length := hmirrors.length ▸ hcopy
    have hspares {a b : Nat} (hthrough : ∀ change ∈ later, change.through? = some a) (ha : a < es.length + 1)
        (hb : b ∉ ((Change.copy ref).apply (Store.applyAll changes ⟨[]⟩)).chain a) (hne : b ≠ a) :
        Spares b later ((Change.copy ref).apply (Store.applyAll changes ⟨[]⟩)) := by
      rcases hkinds with hlink | hdefine
      · exact spares_of_no_link hlinked' hrest hthrough (hlength ▸ ha) hb hlink
      · exact spares_of_no_define hthrough hne hdefine
    have hkept := heffect.others ref e he nofun nofun
    have hadded := (heffect.copied ref rfl).trans he
    refine ⟨e, final, he, ?_, fun hthrough => ?_, fun hthrough => ?_⟩
    · rw [carryOutAll, hafter]
      exact hfinal
    · have horiginals := hspares hthrough (Nat.lt_succ_self _) horiginal (Nat.ne_of_lt hlt)
      exact hcopied.getElem?_of_spares hlinked' hrest horiginals hkept hfinal
    · have hcopies := hspares hthrough (Nat.lt_succ_of_lt hlt) hcopy' (Nat.ne_of_gt hlt)
      exact hcopied.getElem?_of_spares hlinked' hrest hcopies hadded hfinal

/-- An environment is copied and then emptied, and the copy and the environment that encloses both are bound anew. -/
theorem ordered_maps_of_copied_environment :
    ∃ es e, carryOutAll [.new, .new, .link 1 (some 0), .put 1 (Bytes.of "x") (.number 1),
        .put 1 (Bytes.of "y") (.number 2), .copy 1, .put 2 (Bytes.of "x") (.number 3),
        .define 2 (Bytes.of "y") (.number 4), .delete 1] [] = some (.ok es) ∧
      es[2]? = some e ∧ e.slots.InStep ∧ e.slots.names = [Bytes.of "x", Bytes.of "y"] ∧
      lookUp es (Bytes.of "x") es.length 2 = some (.ok (some (.number 3))) ∧
      lookUp es (Bytes.of "y") es.length 1 = some (.ok (some (.number 4))) ∧
      lookUp es (Bytes.of "x") es.length 1 = some (.ok none) := by
  have hacyclic : ((Store.mk [⟨[], none⟩, ⟨[], none⟩]).link 1 (some 0)).Acyclic := by
    refine Store.acyclic_of_outer_lt fun e o h => ?_
    match e with
    | 0 => cases h
    | 1 =>
        obtain rfl := Option.some.inj h
        exact Nat.zero_lt_one
    | e + 2 => cases h
  have hlt : 1 < 2 := Nat.lt_add_one 1
  have hlegal : Store.AllLegal [.new, .new, .link 1 (some 0), .put 1 (Bytes.of "x") (.number 1),
      .put 1 (Bytes.of "y") (.number 2), .copy 1, .put 2 (Bytes.of "x") (.number 3),
      .define 2 (Bytes.of "y") (.number 4), .delete 1] ⟨[]⟩ :=
    ⟨trivial, trivial, ⟨hlt, fun o ho => Option.some.inj ho ▸ Nat.zero_lt_two, hacyclic⟩, hlt, hlt, hlt,
      Nat.lt_add_one 2, Nat.lt_add_one 2, Nat.lt_succ_of_lt hlt, trivial⟩
  obtain ⟨es, hes, hmaps, -⟩ := environments_are_ordered_maps hlegal
  have hlength : es.length = 3 := hmaps.length
  have h2 : 2 < es.length := hlength ▸ Nat.lt_add_one 2
  have h1 : 1 < es.length := Nat.lt_trans hlt h2
  have he := List.getElem?_eq_getElem h2
  refine ⟨es, es[2], hes, he, hmaps.inStep 2 _ he, ?_, ?_, ?_, ?_⟩
  · rw [(hmaps.names 2 _ he).1]
    decide
  · rw [(hmaps.lookUp 2 h2 _).1]
    rfl
  · rw [(hmaps.lookUp 1 h1 _).1]
    rfl
  · rw [(hmaps.lookUp 1 h1 _).1]
    rfl

end BraceLisp.Positional
