import BraceLisp.Files.ParseCache

/-!
# Keeping what was used recently

What is assumed of a cache is that an entry is found under its key as long as it is kept, that the use of an entry puts
it in front of all others, and that a new entry comes in front as well, for which the one that has gone unused the
longest has to go if there is no room. It follows that keys stay different, that there are never more entries than the
cache can keep, and that nothing is kept but what was put there. The trees of parsed files are kept in such a cache.
-/

namespace BraceLisp

/-- The entries of a cache come in the order of their last use, the most recent one first. -/
structure KeepsRecent {Cache Key Entry : Type} [DecidableEq Key] (key : Entry → Key) (entries : Cache → List Entry)
    (find? : Cache → Key → Option Entry) (touch add : Cache → Entry → Cache) (capacity : Nat) : Prop where
  finds (cache : Cache) (wanted : Key) : find? cache wanted = (entries cache).find? fun entry => key entry == wanted
  uses {cache : Cache} {entry : Entry} (found : find? cache (key entry) = some entry) :
    entries (touch cache entry) = entry :: (entries cache).filter fun other => key other != key entry
  adds {cache : Cache} {entry : Entry} (missing : find? cache (key entry) = none) :
    entries (add cache entry) = entry :: (entries cache).take (capacity - 1)

namespace KeepsRecent

variable {Cache Key Entry : Type} [DecidableEq Key] {key : Entry → Key} {entries : Cache → List Entry}
  {find? : Cache → Key → Option Entry} {touch add : Cache → Entry → Cache} {capacity : Nat} {cache : Cache}
  {entry kept : Entry}

section

variable (h : KeepsRecent key entries find? touch add capacity)
include h

theorem mem_of_find? {wanted : Key} (hfind : find? cache wanted = some entry) :
    entry ∈ entries cache ∧ key entry = wanted := by
  rw [h.finds] at hfind
  have hkey := List.find?_some hfind
  exact ⟨List.mem_of_find?_eq_some hfind, by simpa using hkey⟩

theorem key_ne_of_find?_eq_none (hfind : find? cache (key entry) = none) (hkept : kept ∈ entries cache) :
    key kept ≠ key entry := by
  rw [h.finds] at hfind
  have hne := List.find?_eq_none.mp hfind kept hkept
  simpa using hne

/-! ## The use of an entry -/

theorem mem_of_mem_touch (hfind : find? cache (key entry) = some entry) (hkept : kept ∈ entries (touch cache entry)) :
    kept ∈ entries cache := by
  rw [h.uses hfind] at hkept
  rcases List.mem_cons.mp hkept with rfl | hkept
  · exact (h.mem_of_find? hfind).1
  · exact (List.mem_filter.mp hkept).1

theorem nodup_touch (hfind : find? cache (key entry) = some entry) (hnodup : ((entries cache).map key).Nodup) :
    ((entries (touch cache entry)).map key).Nodup := by
  rw [h.uses hfind, List.map_cons, List.nodup_cons]
  constructor
  · intro hmem
    obtain ⟨other, hother, hkey⟩ := List.mem_map.mp hmem
    have hne := (List.mem_filter.mp hother).2
    simp [hkey] at hne
  · exact hnodup.sublist (List.filter_sublist.map _)

theorem length_touch_le (hfind : find? cache (key entry) = some entry) :
    (entries (touch cache entry)).length ≤ (entries cache).length := by
  have hfewer : ((entries cache).filter fun other => key other != key entry).length < (entries cache).length := by
    rw [List.length_filter_lt_length_iff_exists]
    exact ⟨entry, (h.mem_of_find? hfind).1, by simp⟩
  rw [h.uses hfind]
  exact Nat.succ_le_of_lt hfewer

/-! ## A new entry -/

theorem mem_of_mem_add (hfind : find? cache (key entry) = none) (hkept : kept ∈ entries (add cache entry)) :
    kept = entry ∨ kept ∈ entries cache := by
  rw [h.adds hfind] at hkept
  exact (List.mem_cons.mp hkept).imp_right List.mem_of_mem_take

theorem nodup_add (hfind : find? cache (key entry) = none) (hnodup : ((entries cache).map key).Nodup) :
    ((entries (add cache entry)).map key).Nodup := by
  rw [h.adds hfind, List.map_cons, List.nodup_cons]
  constructor
  · intro hmem
    obtain ⟨other, hother, hkey⟩ := List.mem_map.mp hmem
    exact h.key_ne_of_find?_eq_none hfind (List.mem_of_mem_take hother) hkey
  · exact hnodup.sublist ((List.take_sublist _ _).map _)

theorem length_add_le (hfind : find? cache (key entry) = none) (hpositive : 0 < capacity) :
    (entries (add cache entry)).length ≤ capacity := by
  rw [h.adds hfind, List.length_cons]
  have hothers := List.length_take_le (capacity - 1) (entries cache)
  omega

end

end KeepsRecent

/-- The trees of parsed files are kept in the order of their last use. -/
theorem ParseCache.keepsRecent :
    KeepsRecent ParsedFile.key entries find? touch add capacity where
  finds cache wanted := rfl
  uses found := rfl
  adds := by
    intro cache entry hmissing
    have hothers : cache.entries.filter (fun other => other.key != entry.key) = cache.entries := by
      rw [List.filter_eq_self]
      intro other hother
      have hne := List.find?_eq_none.mp hmissing other hother
      simpa using hne
    rw [add, hothers]
    rfl

end BraceLisp
