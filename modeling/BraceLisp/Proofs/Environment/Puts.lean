import BraceLisp.Proofs.Environment.Chains
import Mathlib.Data.List.Induction

/-!
# What has been put into an environment

The bindings of an environment by what has been put into it: the names stand in the order in which they came first,
and each has what was put under it last.
-/

namespace BraceLisp

namespace Bindings

variable {α : Type}

/-- The names that something has been put under, in the order in which each came first. -/
def firstNames (puts : List (Bytes × α)) : List Bytes := (puts.map Prod.fst).eraseDups

def lastPut? (name : Bytes) (puts : List (Bytes × α)) : Option α :=
  (puts.reverse.find? fun entry => entry.1 == name).map Prod.snd

theorem putAll_concat (puts : List (Bytes × α)) (name : Bytes) (v : α) (b : Bindings α) :
    putAll (puts ++ [(name, v)]) b = put name v (putAll puts b) := by
  rw [putAll_append]
  rfl

/-- The names stand in the order in which they came first. -/
theorem names_putAll_nil (puts : List (Bytes × α)) : names (putAll puts []) = firstNames puts := by
  have hall : (names puts).filter (fun name => name ∉ names ([] : Bindings α)) = names puts :=
    List.filter_eq_self.mpr fun name _ => decide_eq_true List.not_mem_nil
  rw [names_putAll, hall]
  rfl

/-- Each name has what was put under it last. -/
theorem get?_putAll_nil (name : Bytes) (puts : List (Bytes × α)) : get? name (putAll puts []) = lastPut? name puts := by
  induction puts using List.reverseRecOn with
  | nil => rfl
  | append_singleton puts entry ih =>
      obtain ⟨n, v⟩ := entry
      rw [putAll_concat, lastPut?, List.reverse_concat, List.find?_cons]
      by_cases hn : n = name
      · rw [hn, get?_put_self, beq_self_eq_true]
        rfl
      · rw [get?_put_of_ne hn, beq_false_of_ne hn, ih]
        rfl

end Bindings

namespace Store

variable {store : Store} {puts : Puts} {e : Nat}

/-! ## What changes do to bindings -/

theorem frame_setFrame_of_lt {ref : Nat} (h : ref < store.environments.length) (frame : Frame) (e : Nat) :
    (store.setFrame ref frame).frame e = if e = ref then frame else store.frame e := by
  simp only [Store.frame, setFrame, List.getElem?_modify, Option.map_eq_map, Option.map_map]
  by_cases he : e = ref
  · simp [he, List.getElem?_eq_getElem h]
  · simp [he, Ne.symm he, Function.comp_def]

theorem frame_append (store : Store) (added : Environment) (e : Nat) :
    (Store.mk (store.environments ++ [added])).frame e =
      if e = store.environments.length then added.frame else store.frame e := by
  rw [frame, getElem?_added]
  split
  · rfl
  · rfl

theorem frame_link (store : Store) (ref : Nat) (outer : Option Nat) (e : Nat) :
    (store.link ref outer).frame e = store.frame e := by
  simp only [frame, Store.link, List.getElem?_modify, Option.map_eq_map, Option.map_map]
  by_cases he : ref = e
  · simp [he, Function.comp_def]
  · simp [he, Function.comp_def]

/-- The bindings of every environment are those that have been put into it. -/
def Holds (store : Store) (puts : Puts) : Prop := ∀ e, store.frame e = Bindings.putAll (puts e) []

theorem Holds.put (h : store.Holds puts) {ref : Nat} (hlt : ref < store.environments.length) (name : Bytes)
    (v : Value) : (store.put ref name v).Holds fun e => if e = ref then puts e ++ [(name, v)] else puts e := by
  intro e
  dsimp only
  rw [Store.put, frame_setFrame_of_lt hlt]
  split
  · rename_i he
    rw [Bindings.putAll_concat, he, h ref]
  · exact h e

/-- Bindings stay what has been put into each environment. -/
theorem Holds.apply (h : store.Holds puts) (hlinked : store.WellLinked) {change : Change}
    (hlegal : change.Legal store) : (change.apply store).Holds (change.record store puts) := by
  cases change with
  | new =>
      intro e
      refine (frame_append store _ e).trans ?_
      split
      · rename_i he
        have hempty : store.frame e = [] := by
          rw [frame, he, List.getElem?_eq_none (Nat.le_refl _)]
          rfl
        exact hempty.symm.trans (h e)
      · exact h e
  | put ref name v => exact h.put hlegal name v
  | define ref name v => exact h.put (hlinked.root_lt hlegal) name v
  | copy ref =>
      intro e
      refine (frame_append store _ e).trans ?_
      dsimp only [Change.record]
      split
      · exact h ref
      · exact h e
  | delete ref =>
      intro e
      refine (frame_setFrame_of_lt hlegal [] e).trans ?_
      dsimp only [Change.record]
      split
      · rfl
      · exact h e
  | link ref outer => exact fun e => (frame_link store ref outer e).trans (h e)

end Store

end BraceLisp
