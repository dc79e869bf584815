import BraceLisp.Environment.Scope

/-!
# What environments keep

Two things are said about every way of changing bindings and scopes: which values can be bound afterwards, and
which names have to be there still. Binding names can only add values that were given, and can only add names
behind those that are there already. A frame that is hung below a scope and taken away again leaves the
frames of that scope as they were.
-/

namespace BraceLisp

namespace Bindings

variable {α : Type}

/-! ## Which values are bound -/

theorem mem_of_get? {name : Bytes} {v : α} {b : Bindings α} (h : get? name b = some v) : (name, v) ∈ b := by
  induction b with
  | nil => cases h
  | cons entry rest ih =>
      obtain ⟨n, w⟩ := entry
      by_cases hn : n = name
      · obtain rfl : w = v := by simpa [get?, hn] using h
        exact hn ▸ List.mem_cons_self
      · exact List.mem_cons_of_mem _ (ih (by simpa [get?, hn] using h))

theorem mem_put {name : Bytes} {v : α} {b : Bindings α} {entry : Bytes × α} (h : entry ∈ put name v b) :
    entry ∈ b ∨ entry = (name, v) := by
  induction b with
  | nil => exact .inr (List.mem_singleton.mp h)
  | cons first rest ih =>
      obtain ⟨n, w⟩ := first
      by_cases hn : n = name
      · subst hn
        simp only [put, if_true, List.mem_cons] at h
        rcases h with rfl | h
        · exact .inr rfl
        · exact .inl (List.mem_cons_of_mem _ h)
      · simp only [put, hn, if_false, List.mem_cons] at h
        rcases h with rfl | h
        · exact .inl List.mem_cons_self
        · rcases ih h with h | h
          · exact .inl (List.mem_cons_of_mem _ h)
          · exact .inr h

/-- After names have been bound there are the old bindings and the new ones. -/
theorem mem_putAll {bindings b : Bindings α} {entry : Bytes × α} (h : entry ∈ putAll bindings b) :
    entry ∈ b ∨ entry ∈ bindings := by
  induction bindings generalizing b with
  | nil => exact .inl h
  | cons first rest ih =>
      rcases ih h with h | h
      · rcases mem_put h with h | rfl
        · exact .inl h
        · exact .inr List.mem_cons_self
      · exact .inr (List.mem_cons_of_mem _ h)

/-- Where no name is bound twice, a name has the value that it is listed with. -/
theorem get?_of_mem {b : Bindings α} (h : (names b).Nodup) {name : Bytes} {v : α} (hmem : (name, v) ∈ b) :
    get? name b = some v := by
  induction b with
  | nil => cases hmem
  | cons entry rest ih =>
      obtain ⟨hnew, hrest⟩ := List.nodup_cons.mp h
      rcases List.mem_cons.mp hmem with rfl | hmem
      · simp only [get?, if_true]
      · have hname : entry.1 ≠ name := fun hname => hnew (hname ▸ List.mem_map_of_mem hmem)
        simp only [get?, hname, if_false, ih hrest hmem]

theorem put_of_not_mem {name : Bytes} {b : Bindings α} (h : name ∉ names b) (v : α) :
    put name v b = b ++ [(name, v)] := by
  induction b with
  | nil => rfl
  | cons entry rest ih =>
      obtain ⟨n, w⟩ := entry
      obtain ⟨hname, hrest⟩ := not_or.mp (mt List.mem_cons.mpr h)
      simp only [put, Ne.symm hname, if_false, ih hrest, List.cons_append]

/-- Names that are all different are bound one behind the other. -/
theorem putAll_of_nodup {bindings b : Bindings α} (h : (names (b ++ bindings)).Nodup) :
    putAll bindings b = b ++ bindings := by
  induction bindings generalizing b with
  | nil => exact (List.append_nil b).symm
  | cons entry rest ih =>
      obtain ⟨name, v⟩ := entry
      have hname : name ∉ names b := by
        intro hmem
        rw [names, List.map_append, List.map_cons] at h
        exact (List.nodup_append.mp h).2.2 name hmem name List.mem_cons_self rfl
      have hrest : names ((b ++ [(name, v)]) ++ rest) = names (b ++ (name, v) :: rest) := by
        rw [List.append_assoc, List.singleton_append]
      rw [putAll, put_of_not_mem hname, ih (hrest ▸ h), List.append_assoc, List.singleton_append]

/-! ## Growth -/

theorem putAll_append (first second b : Bindings α) : putAll (first ++ second) b = putAll second (putAll first b) := by
  induction first generalizing b with
  | nil => rfl
  | cons entry rest ih => exact ih _

/-- The bindings after some names have been bound. -/
def Grows (b after : Bindings α) : Prop :=
  ∃ bindings, after = putAll bindings b

theorem Grows.refl (b : Bindings α) : Grows b b := ⟨[], rfl⟩

theorem Grows.trans {b middle after : Bindings α} (first : Grows b middle) (second : Grows middle after) :
    Grows b after := by
  obtain ⟨early, rfl⟩ := first
  obtain ⟨late, rfl⟩ := second
  exact ⟨early ++ late, (putAll_append early late b).symm⟩

/-- Binding a name keeps the names there are, in their places. -/
theorem names_isPrefix_put (name : Bytes) (v : α) (b : Bindings α) : names b <+: names (put name v b) := by
  by_cases h : name ∈ names b
  · exact ⟨[], by rw [List.append_nil, names_put_of_mem h]⟩
  · exact ⟨[name], (names_put_of_not_mem h v).symm⟩

/-- Bindings that grow keep the names they have, in their places. -/
theorem Grows.names_isPrefix {b after : Bindings α} (h : Grows b after) : names b <+: names after := by
  obtain ⟨bindings, rfl⟩ := h
  induction bindings generalizing b with
  | nil => exact List.prefix_rfl
  | cons first rest ih => exact (names_isPrefix_put first.1 first.2 b).trans ih

/-- Bindings that grow bind no name twice. -/
theorem Grows.nodup_names {b after : Bindings α} (h : Grows b after) (hb : (names b).Nodup) : (names after).Nodup := by
  obtain ⟨bindings, rfl⟩ := h
  induction bindings generalizing b with
  | nil => exact hb
  | cons first rest ih => exact ih (nodup_names_put hb first.1 first.2)

/-- New names come behind the old ones, in the order in which they are first given. -/
theorem names_putAll (bindings b : Bindings α) :
    names (putAll bindings b) = names b ++ ((names bindings).filter fun name => name ∉ names b).eraseDups := by
  induction bindings generalizing b with
  | nil => exact (List.append_nil _).symm
  | cons entry rest ih =>
      obtain ⟨name, v⟩ := entry
      have hnames : names ((name, v) :: rest) = name :: names rest := rfl
      rw [putAll, ih, hnames]
      by_cases hold : name ∈ names b
      · rw [names_put_of_mem hold, List.filter_cons_of_neg (by simpa using hold)]
      · -- a name that is new here is an old one for the bindings behind it
        have hnew : (names rest).filter (fun other => other ∉ names b ++ [name]) =
            (names rest).filter fun other => !other == name && decide (other ∉ names b) := by
          refine List.filter_congr fun other _ => ?_
          rw [Bool.eq_iff_iff]
          simp [and_comm]
        rw [names_put_of_not_mem hold, hnew, List.filter_cons_of_pos (by simpa using hold), List.eraseDups_cons,
          List.filter_filter, List.append_assoc, List.singleton_append]

theorem mem_names_putAll {bindings b : Bindings α} {entry : Bytes × α} (h : entry ∈ bindings) :
    entry.1 ∈ names (putAll bindings b) := by
  induction bindings generalizing b with
  | nil => cases h
  | cons first rest ih =>
      rcases List.mem_cons.mp h with rfl | h
      · have hbound : entry.1 ∈ names (put entry.1 entry.2 b) := by
          rw [← isSome_get?_iff, get?_put_self]
          rfl
        exact (Grows.names_isPrefix ⟨rest, rfl⟩).subset hbound
      · exact ih h

theorem get?_putAll_of_ne {bindings b : Bindings α} {name : Bytes} (h : ∀ entry ∈ bindings, entry.1 ≠ name) :
    get? name (putAll bindings b) = get? name b := by
  induction bindings generalizing b with
  | nil => rfl
  | cons first rest ih =>
      obtain ⟨hfirst, hrest⟩ := List.forall_mem_cons.mp h
      exact (ih hrest).trans (get?_put_of_ne hfirst first.2 b)

end Bindings

namespace Scope

/-! ## Which values a scope binds -/

def frames (scope : Scope) : List Frame := scope.inner ++ [scope.root]

/-- Every value that is bound in a frame of the scope has a property. -/
def Binds (p : Value → Prop) (scope : Scope) : Prop :=
  ∀ frame ∈ scope.frames, ∀ entry ∈ frame, p entry.2

theorem binds_iff {p : Value → Prop} {scope : Scope} :
    scope.Binds p ↔
      (∀ frame ∈ scope.inner, ∀ entry ∈ frame, p entry.2) ∧ ∀ entry ∈ scope.root, p entry.2 := by
  simp only [Binds, frames, List.forall_mem_append, List.forall_mem_singleton]

variable {p : Value → Prop} {scope : Scope}

/-- The value of a name in some frames is bound in one of them. -/
theorem exists_mem_of_getIn? {name : Bytes} {v : Value} {frames : List Frame}
    (h : getIn? name frames = some v) : ∃ frame ∈ frames, (name, v) ∈ frame := by
  induction frames with
  | nil => cases h
  | cons frame rest ih =>
      cases hframe : Bindings.get? name frame with
      | some w =>
          obtain rfl : w = v := by simpa [getIn?, hframe] using h
          exact ⟨frame, List.mem_cons_self, Bindings.mem_of_get? hframe⟩
      | none =>
          obtain ⟨other, hmem, hentry⟩ := ih (by simpa [getIn?, hframe] using h)
          exact ⟨other, List.mem_cons_of_mem _ hmem, hentry⟩

theorem Binds.get? (h : scope.Binds p) {name : Bytes} {v : Value} (hv : scope.get? name = some v) : p v := by
  rw [binds_iff] at h
  cases hinner : getIn? name scope.inner with
  | some w =>
      obtain rfl : w = v := by simpa [Scope.get?, hinner] using hv
      obtain ⟨frame, hframe, hentry⟩ := exists_mem_of_getIn? hinner
      exact h.1 frame hframe _ hentry
  | none =>
      have hroot : Bindings.get? name scope.root = some v := by simpa [Scope.get?, hinner] using hv
      exact h.2 _ (Bindings.mem_of_get? hroot)

theorem Binds.define (h : scope.Binds p) {bindings : List (Bytes × Value)}
    (hnew : ∀ entry ∈ bindings, p entry.2) : (scope.define bindings).Binds p := by
  rw [binds_iff] at h ⊢
  refine ⟨h.1, fun entry hentry => ?_⟩
  rcases Bindings.mem_putAll hentry with hold | hadded
  · exact h.2 entry hold
  · exact hnew entry hadded

theorem Binds.assign (h : scope.Binds p) {bindings : List (Bytes × Value)}
    (hnew : ∀ entry ∈ bindings, p entry.2) : (scope.assign bindings).Binds p := by
  obtain ⟨inner, root⟩ := scope
  cases inner with
  | nil => exact h.define hnew
  | cons frame rest =>
      simp only [binds_iff, Scope.assign, List.forall_mem_cons] at h ⊢
      refine ⟨⟨fun entry hentry => ?_, h.1.2⟩, h.2⟩
      rcases Bindings.mem_putAll hentry with hold | hadded
      · exact h.1.1 entry hold
      · exact hnew entry hadded

theorem Binds.enter (h : scope.Binds p) {frame : Frame} (hframe : ∀ entry ∈ frame, p entry.2) :
    (scope.enter frame).Binds p := by
  simp only [binds_iff, Scope.enter, List.forall_mem_cons] at h ⊢
  exact ⟨⟨hframe, h.1⟩, h.2⟩

theorem Binds.leave (h : scope.Binds p) : scope.leave.2.Binds p := by
  obtain ⟨inner, root⟩ := scope
  cases inner with
  | nil => exact h
  | cons frame rest =>
      simp only [binds_iff, Scope.leave, List.forall_mem_cons] at h ⊢
      exact ⟨h.1.2, h.2⟩

/-! ## Which frames stay as they are -/

/--
What may happen to a scope while a value is evaluated in it: names may be bound in the innermost and in the
outermost environment; no environment between them changes, and none comes or goes.
-/
structure Grows (scope after : Scope) : Prop where
  length_inner : after.inner.length = scope.inner.length
  between : after.inner.tail = scope.inner.tail
  innermost : Bindings.Grows (scope.inner.headD []) (after.inner.headD [])
  root : Bindings.Grows scope.root after.root

/--
What may happen to the scope of a call: no inner frame changes at all, and names may be bound in the outermost
environment.
-/
structure Spared (scope after : Scope) : Prop where
  inner : after.inner = scope.inner
  root : Bindings.Grows scope.root after.root

theorem Spared.refl (scope : Scope) : scope.Spared scope :=
  ⟨rfl, .refl _⟩

theorem Spared.grows {after : Scope} (h : scope.Spared after) : scope.Grows after := by
  refine ⟨?_, ?_, ?_, h.root⟩
  · rw [h.inner]
  · rw [h.inner]
  · rw [h.inner]
    exact .refl _

theorem Grows.refl (scope : Scope) : scope.Grows scope :=
  (Spared.refl scope).grows

theorem Grows.trans {middle after : Scope} (first : scope.Grows middle) (second : middle.Grows after) :
    scope.Grows after :=
  ⟨second.length_inner.trans first.length_inner, second.between.trans first.between,
    first.innermost.trans second.innermost, first.root.trans second.root⟩

theorem spared_define (scope : Scope) (bindings : List (Bytes × Value)) : scope.Spared (scope.define bindings) :=
  ⟨rfl, bindings, rfl⟩

theorem grows_assign (scope : Scope) (bindings : List (Bytes × Value)) : scope.Grows (scope.assign bindings) := by
  obtain ⟨inner, root⟩ := scope
  cases inner with
  | nil => exact (spared_define ⟨[], root⟩ bindings).grows
  | cons frame rest => exact ⟨rfl, rfl, ⟨bindings, rfl⟩, .refl _⟩

/-- What happens below a frame that was hung there spares the scope above it. -/
theorem Grows.leave {frame : Frame} {below : Scope} (h : (scope.enter frame).Grows below) :
    scope.Spared below.leave.2 := by
  obtain ⟨inner, root⟩ := below
  cases inner with
  | nil => cases h.length_inner
  | cons first rest => exact ⟨h.between, h.root⟩

theorem root_leave (scope : Scope) : scope.leave.2.root = scope.root := by
  obtain ⟨inner, root⟩ := scope
  cases inner with
  | nil => rfl
  | cons frame rest => rfl

end Scope

end BraceLisp
