import BraceLisp.Files.Parser
import BraceLisp.Proofs.Files.ParseCache

/-!
# The cache cannot be noticed

A parser that keeps trees gives what a parser without any would give, as long as whatever has one status at a path
has one content. What carries this through a course of actions is that every tree in the cache is that of a content
which has been seen at its path with its status: whatever is recognised later must then have the same content.
-/

namespace BraceLisp

open Source

theorem Sighting.Consistent.of_append {seen more : List Sighting} (h : Consistent (seen ++ more)) : Consistent seen :=
  fun a ha b hb => h a (List.mem_append_left _ ha) b (List.mem_append_left _ hb)

namespace FileView

variable {view : FileView} {path : Bytes}

theorem path_of_key {directory : FileStatus} {key : FileKey} (h : view.key directory path = .ok key) :
    key.path = path := by
  cases view with
  | directory => exact (congrArg FileKey.path (Except.ok.inj h)).symm
  | file content modified => exact (congrArg FileKey.path (Except.ok.inj h)).symm
  | _ => cases h

/-- A file is recognised by its size and the time of its last change, and can be read. -/
theorem key_of_contents (directory : FileStatus) {content : Bytes} {modified : Int}
    (h : view.contents path = .ok (content, modified)) :
    view.key directory path = .ok ⟨path, content.length, modified⟩ ∧ view.read path = .ok content := by
  cases view with
  | file content' modified' =>
      obtain ⟨rfl, rfl⟩ := Prod.mk.inj (Except.ok.inj h)
      exact ⟨rfl, rfl⟩
  | _ => cases h

end FileView

namespace ParseCache

variable {files : Files} {directory : FileStatus} {path : Bytes} {cache : ParseCache} {entry : ParsedFile}

/-! ## What a cache promises -/

/-- Each tree in a cache has a key of its own, and there are no more than the cache can keep. -/
structure Tidy (cache : ParseCache) : Prop where
  nodup : (cache.entries.map ParsedFile.key).Nodup
  length : cache.entries.length ≤ capacity

theorem tidy_empty : empty.Tidy := by
  constructor
  · exact List.nodup_nil
  · exact Nat.zero_le _

theorem Tidy.touch (h : cache.Tidy) (hfind : cache.find? entry.key = some entry) : (cache.touch entry).Tidy := by
  constructor
  · exact keepsRecent.nodup_touch hfind h.nodup
  · exact Nat.le_trans (keepsRecent.length_touch_le hfind) h.length

theorem Tidy.add (h : cache.Tidy) (hfind : cache.find? entry.key = none) : (cache.add entry).Tidy := by
  constructor
  · exact keepsRecent.nodup_add hfind h.nodup
  · exact keepsRecent.length_add_le hfind (by decide)

/-! ## One use of the parser -/

/-- The parser fails and leaves the cache alone, or finds a tree, or makes one of what it reads. -/
theorem parseInSteps_cases (files : Files) (directory : FileStatus) (path : Bytes) (cache : ParseCache) :
    (∃ e, cache.parseInSteps files directory path = (.error e, cache)) ∨
    (∃ key entry, (files path).key directory path = .ok key ∧ cache.find? key = some entry ∧ entry.key = key ∧
      cache.parseInSteps files directory path = (.ok entry, cache.touch entry)) ∨
    ∃ key content root, (files path).key directory path = .ok key ∧ cache.find? key = none ∧
      (files path).read path = .ok content ∧ Root.parse path (Utf8.decode content) = .ok root ∧
      cache.parseInSteps files directory path =
        (.ok ⟨key, cache.parsed, root⟩, cache.add ⟨key, cache.parsed, root⟩) := by
  unfold parseInSteps
  cases hkey : (files path).key directory path with
  | error reason => exact .inl ⟨_, rfl⟩
  | ok key =>
      dsimp only
      cases hfind : cache.find? key with
      | some entry => exact .inr (.inl ⟨key, entry, rfl, hfind, (keepsRecent.mem_of_find? hfind).2, rfl⟩)
      | none =>
          dsimp only
          cases hread : (files path).read path with
          | error reason => exact .inl ⟨_, rfl⟩
          | ok content =>
              dsimp only
              cases hroot : Root.parse path (Utf8.decode content) with
              | error e => exact .inl ⟨_, rfl⟩
              | ok root => exact .inr (.inr ⟨key, content, root, rfl, hfind, rfl, hroot, rfl⟩)

theorem Tidy.parseInSteps (h : cache.Tidy) (files : Files) (directory : FileStatus) (path : Bytes) :
    (cache.parseInSteps files directory path).2.Tidy := by
  rcases parseInSteps_cases files directory path cache with
    ⟨e, hparse⟩ | ⟨_, entry, -, hfind, rfl, hparse⟩ | ⟨key, content, root, -, hfind, -, -, hparse⟩
  · rwa [hparse]
  · rw [hparse]
    exact h.touch hfind
  · rw [hparse]
    exact h.add hfind

theorem parseInSteps_of_error {e : ParseError} (h : (cache.parseInSteps files directory path).1 = .error e) :
    (cache.parseInSteps files directory path).2 = cache := by
  rcases parseInSteps_cases files directory path cache with
    ⟨e, hparse⟩ | ⟨key, entry, -, -, -, hparse⟩ | ⟨key, content, root, -, -, -, -, hparse⟩
  · rw [hparse]
  · rw [hparse] at h
    cases h
  · rw [hparse] at h
    cases h

/-- If only what can be read is found in the cache, it makes no difference that a directory is looked for there too. -/
theorem parseInSteps_eq_parseFile
    (h : ∀ key entry, (files path).key directory path = .ok key → cache.find? key = some entry →
      ∃ content, (files path).read path = .ok content) :
    cache.parseInSteps files directory path = cache.parseFile files path := by
  unfold parseInSteps ParseCache.parseFile
  cases hview : files path with
  | directory =>
      rw [hview] at h
      cases hfind : cache.find? ⟨path, directory.size, directory.modified⟩ with
      | some entry =>
          obtain ⟨content, hread⟩ := h _ entry rfl hfind
          cases hread
      | none =>
          simp only [FileView.key, hfind]
          rfl
  | _ => rfl

/-! ## What the cache has seen -/

/-- Every tree in the cache is that of a content which has been seen under its key. -/
def Recalls (seen : List Sighting) (cache : ParseCache) : Prop :=
  ∀ entry ∈ cache.entries, ∃ content, ⟨entry.key, some content⟩ ∈ seen ∧
    Root.parse entry.key.path (Utf8.decode content) = .ok entry.root

def Witnessed (seen : List Sighting) (files : Files) (directory : FileStatus) (path : Bytes) : Prop :=
  ∀ key, (files path).key directory path = .ok key → ⟨key, ((files path).read path).toOption⟩ ∈ seen

variable {seen : List Sighting}

theorem recalls_empty (seen : List Sighting) : empty.Recalls seen :=
  List.forall_mem_nil _

theorem Recalls.append (h : cache.Recalls seen) (more : List Sighting) : cache.Recalls (seen ++ more) := by
  intro entry hentry
  obtain ⟨content, hmem, hroot⟩ := h entry hentry
  exact ⟨content, List.mem_append_left _ hmem, hroot⟩

/-- The cache goes on to recall what has been seen. -/
theorem Recalls.parseInSteps (h : cache.Recalls seen) (hseen : Witnessed seen files directory path) :
    (cache.parseInSteps files directory path).2.Recalls seen := by
  rcases parseInSteps_cases files directory path cache with
    ⟨e, hparse⟩ | ⟨_, entry, -, hfind, rfl, hparse⟩ | ⟨key, content, root, hkey, hfind, hread, hroot, hparse⟩
  · rwa [hparse]
  · rw [hparse]
    exact fun kept hkept => h kept (keepsRecent.mem_of_mem_touch hfind hkept)
  · rw [hparse]
    intro kept hkept
    rcases keepsRecent.mem_of_mem_add hfind hkept with rfl | hkept
    · have hmem := hseen key hkey
      rw [hread] at hmem
      refine ⟨content, hmem, ?_⟩
      rwa [FileView.path_of_key hkey]
    · exact h kept hkept

/-- What the parser finds is the tree of what it would read, if what it has seen is consistent. -/
theorem Recalls.exists_read (h : cache.Recalls seen) (hseen : Witnessed seen files directory path)
    (hconsistent : Sighting.Consistent seen) {key : FileKey} (hkey : (files path).key directory path = .ok key)
    (hfind : cache.find? key = some entry) :
    ∃ content, (files path).read path = .ok content ∧ Root.parse path (Utf8.decode content) = .ok entry.root := by
  obtain ⟨hentry, rfl⟩ := keepsRecent.mem_of_find? hfind
  obtain ⟨content, hmem, hroot⟩ := h entry hentry
  have hcontent : some content = ((files path).read path).toOption := hconsistent _ hmem _ (hseen _ hkey) rfl
  rw [FileView.path_of_key hkey] at hroot
  cases hread : (files path).read path with
  | error reason =>
      rw [hread] at hcontent
      cases hcontent
  | ok read =>
      rw [hread] at hcontent
      obtain rfl : content = read := Option.some.inj hcontent
      exact ⟨content, rfl, hroot⟩

end ParseCache

/-! ## Courses of actions -/

namespace FileParser

open ParseCache

variable {parser : FileParser} {seen : List Sighting}

theorem sightings_append (parser : FileParser) (before after : List FileAction) :
    parser.sightings (before ++ after) = parser.sightings before ++ (parser.run before).sightings after := by
  induction before generalizing parser with
  | nil => rfl
  | cons action before ih =>
      rw [List.cons_append, sightings, sightings, ih, List.append_assoc]
      rfl

theorem tidy_run (h : parser.cache.Tidy) (actions : List FileAction) : (parser.run actions).cache.Tidy := by
  induction actions generalizing parser with
  | nil => exact h
  | cons action actions ih =>
      cases action with
      | write path content modified => exact @ih (parser.step (.write path content modified)) h
      | makeDirectory path => exact @ih (parser.step (.makeDirectory path)) h
      | remove path => exact @ih (parser.step (.remove path)) h
      | parse path directory => exact @ih (parser.step (.parse path directory)) (h.parseInSteps _ directory path)

theorem witnessed_parse (parser : FileParser) (seen : List Sighting) (path : Bytes) (directory : FileStatus) :
    Witnessed (seen ++ (parser.sighting? (.parse path directory)).toList) parser.disk.view directory path := by
  intro key hkey
  refine List.mem_append_right _ ?_
  simp only [sighting?, hkey]
  exact List.mem_singleton.mpr rfl

/-- What is at a path that has not been seen before is consistent with all that has been seen. -/
theorem consistent_parse_of_new (parser : FileParser) {path : Bytes} (h : Sighting.Consistent seen)
    (hnew : ∀ a ∈ seen, a.key.path ≠ path) (directory : FileStatus) :
    Sighting.Consistent (seen ++ (parser.sighting? (.parse path directory)).toList) := by
  cases hkey : (parser.disk.view path).key directory path with
  | error reason =>
      simp only [sighting?, hkey, Option.toList_none, List.append_nil]
      exact h
  | ok key =>
      have hpath : key.path = path := FileView.path_of_key hkey
      simp only [sighting?, hkey, Option.toList_some]
      intro a ha b hb hsame
      rcases List.mem_append.mp ha with ha | ha
      · rcases List.mem_append.mp hb with hb | hb
        · exact h a ha b hb hsame
        · obtain rfl := List.mem_singleton.mp hb
          exact absurd ((congrArg FileKey.path hsame).trans hpath) (hnew a ha)
      · obtain rfl := List.mem_singleton.mp ha
        rcases List.mem_append.mp hb with hb | hb
        · exact absurd ((congrArg FileKey.path hsame).symm.trans hpath) (hnew b hb)
        · obtain rfl := List.mem_singleton.mp hb
          rfl

theorem recalls_step (h : parser.cache.Recalls seen) (action : FileAction) :
    (parser.step action).cache.Recalls (seen ++ (parser.sighting? action).toList) := by
  have hmore := h.append (parser.sighting? action).toList
  cases action with
  | write path content modified => exact hmore
  | makeDirectory path => exact hmore
  | remove path => exact hmore
  | parse path directory => exact hmore.parseInSteps (parser.witnessed_parse seen path directory)

theorem recalls_run (h : parser.cache.Recalls seen) (actions : List FileAction) :
    (parser.run actions).cache.Recalls (seen ++ parser.sightings actions) := by
  induction actions generalizing parser seen with
  | nil => exact h.append []
  | cons action actions ih =>
      rw [sightings, ← List.append_assoc]
      exact ih (recalls_step h action)

/-- After a course of actions the cache is faithful to the files, if whatever is there is consistent with what was. -/
theorem faithful_run (disk : Disk Bytes) (actions : List FileAction) (directory : Bytes → FileStatus)
    (hconsistent :
      ∀ path, Sighting.Consistent ((unused disk).sightings (actions ++ [.parse path (directory path)]))) :
    ((unused disk).run actions).cache.Faithful ((unused disk).run actions).disk.view := by
  intro entry hentry content modified hcontents hsize hmodified
  have hrecalls : ((unused disk).run actions).cache.Recalls ([] ++ (unused disk).sightings actions) :=
    recalls_run (recalls_empty []) actions
  obtain ⟨before, hseen, hroot⟩ := hrecalls entry hentry
  -- what is there now would be seen under the key of the entry
  obtain ⟨hkey, hread⟩ := FileView.key_of_contents (directory entry.key.path) hcontents
  have hnow := ((unused disk).run actions).witnessed_parse ((unused disk).sightings actions) entry.key.path
    (directory entry.key.path) _ hkey
  have hsame := hconsistent entry.key.path
  rw [sightings_append, sightings, sightings, List.append_nil] at hsame
  have hkeys : entry.key = ⟨entry.key.path, content.length, modified⟩ := by
    rw [← hsize, ← hmodified]
  have hcontents := hsame _ (List.mem_append_left _ hseen) _ hnow hkeys
  rw [hread] at hcontents
  obtain rfl := Option.some.inj hcontents
  exact hroot

/--
The cache cannot be noticed. In every course of actions, from any files and with a parser that has not been used, in
which whatever is recognised as the same has the same content: parsing a path gives the tree, or the error, that
parsing without a cache gives there and then, and nothing changes in the cache when it gives an error. At no time have
two trees in the cache the same key, and there are never more than the cache can keep.
-/
theorem cache_transparent (disk : Disk Bytes) (actions : List FileAction)
    (hconsistent : Sighting.Consistent ((unused disk).sightings actions)) :
    (∀ before path directory after, actions = before ++ .parse path directory :: after →
      let parser := (unused disk).run before
      (parser.parse path directory).1.map ParsedFile.root = parseDirectly parser.disk.view path ∧
        parser.parse path directory = parser.cache.parseFile parser.disk.view path ∧
        ∀ e, (parser.parse path directory).1 = .error e → (parser.parse path directory).2 = parser.cache) ∧
    ∀ before after, actions = before ++ after →
      let cache := ((unused disk).run before).cache
      (cache.entries.map ParsedFile.key).Nodup ∧ cache.entries.length ≤ capacity := by
  constructor
  · rintro before path directory after rfl parser
    have hrecalls : parser.cache.Recalls ([] ++ (unused disk).sightings before) :=
      recalls_run (recalls_empty []) before
    rw [List.nil_append] at hrecalls
    rw [sightings_append, sightings, ← List.append_assoc] at hconsistent
    -- only what has been seen up to this use of the parser matters
    have hseen := hconsistent.of_append
    have hwitnessed := parser.witnessed_parse ((unused disk).sightings before) path directory
    have hrecalls := hrecalls.append (parser.sighting? (.parse path directory)).toList
    have hsame : parser.parse path directory = parser.cache.parseFile parser.disk.view path := by
      refine parseInSteps_eq_parseFile fun key entry hkey hfind => ?_
      obtain ⟨content, hread, -⟩ := hrecalls.exists_read hwitnessed hseen hkey hfind
      exact ⟨content, hread⟩
    have hdirectly : (parser.cache.parseFile parser.disk.view path).1.map ParsedFile.root =
        parseDirectly parser.disk.view path := by
      refine parseFile_eq_parseDirectly fun content modified entry hcontents hfind => ?_
      obtain ⟨hkey, hread⟩ := FileView.key_of_contents directory hcontents
      obtain ⟨content', hread', hroot⟩ := hrecalls.exists_read hwitnessed hseen hkey hfind
      obtain rfl := Except.ok.inj (hread.symm.trans hread')
      exact hroot
    exact ⟨hsame ▸ hdirectly, hsame, fun e => parseInSteps_of_error⟩
  · intro before after _ cache
    have htidy : cache.Tidy := tidy_run tidy_empty before
    exact ⟨htidy.nodup, htidy.length⟩

/-- A file is spoilt, which is an error, and then is as it was: its first tree is found, and no other is made. -/
theorem cache_transparent_of_restored_file :
    let path := Bytes.of "a"
    let before : List FileAction :=
      [.write path (Bytes.of "(1)") 1, .parse path ⟨0, 0⟩, .write path (Bytes.of "(1(") 2, .parse path ⟨0, 0⟩,
        .write path (Bytes.of "(1)") 1]
    let parser := (unused .fresh).run before
    Sighting.Consistent ((unused .fresh).sightings (before ++ [.parse path ⟨0, 0⟩])) ∧
      (parser.parse path ⟨0, 0⟩).1.toOption.isSome ∧ (parser.parse path ⟨0, 0⟩).2.parsed = 1 ∧
      (parser.parse path ⟨0, 0⟩).1.map ParsedFile.root = parseDirectly parser.disk.view path := by
  intro path before parser
  have hconsistent : Sighting.Consistent ((unused .fresh).sightings (before ++ [.parse path ⟨0, 0⟩])) := by
    decide +kernel
  have hfound : (parser.parse path ⟨0, 0⟩).1.toOption.isSome ∧ (parser.parse path ⟨0, 0⟩).2.parsed = 1 := by
    decide +kernel
  exact ⟨hconsistent, hfound.1, hfound.2,
    ((cache_transparent .fresh _ hconsistent).1 before path ⟨0, 0⟩ [] rfl).1⟩

end FileParser

end BraceLisp
