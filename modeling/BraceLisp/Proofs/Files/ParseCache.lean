import BraceLisp.Proofs.Files.Recent

/-!
# What a cache keeps

What is true of all parsed files in a cache, and of every file when it is parsed, stays true of all in the cache.

A cache is faithful to some files if whatever it still recognises has the tree that parsing would give. With
files that do not change it stays so, and all faithful caches give the same trees.
-/

namespace BraceLisp.ParseCache

variable {files : Files} {path : Bytes} {cache other : ParseCache}

/-- What is true of all entries, and of a file that has just been parsed, is true when the cache has been asked. -/
theorem forall_parseFile {p : ParsedFile → Prop} (h : ∀ entry ∈ cache.entries, p entry)
    (hnew : ∀ content modified serial root, (files path).contents path = .ok (content, modified) →
      Source.Root.parse path (Utf8.decode content) = .ok root → p ⟨⟨path, content.length, modified⟩, serial, root⟩) :
    (∀ parsed, (cache.parseFile files path).1 = .ok parsed → p parsed) ∧
      ∀ entry ∈ (cache.parseFile files path).2.entries, p entry := by
  unfold ParseCache.parseFile
  cases hcontents : (files path).contents path with
  | error reason => exact ⟨fun _ hparsed => (nomatch hparsed), h⟩
  | ok found =>
      obtain ⟨content, modified⟩ := found
      dsimp only
      cases hfind : cache.find? ⟨path, content.length, modified⟩ with
      | some entry =>
          obtain ⟨hentry, hkey⟩ := keepsRecent.mem_of_find? hfind
          rw [← hkey] at hfind
          constructor
          · intro parsed hparsed
            obtain rfl := Except.ok.inj hparsed
            exact h _ hentry
          · exact fun kept hkept => h kept (keepsRecent.mem_of_mem_touch hfind hkept)
      | none =>
          cases hroot : Source.Root.parse path (Utf8.decode content) with
          | error e => exact ⟨fun _ hparsed => (nomatch hparsed), h⟩
          | ok root =>
              have hentry := hnew content modified cache.parsed root hcontents hroot
              constructor
              · intro parsed hparsed
                obtain rfl := Except.ok.inj hparsed
                exact hentry
              · intro kept hkept
                rcases keepsRecent.mem_of_mem_add hfind hkept with rfl | hkept
                · exact hentry
                · exact h kept hkept

/-- If what is found for a file is the tree of what it holds, asking the cache gives what parsing gives. -/
theorem parseFile_eq_parseDirectly
    (h : ∀ content modified entry, (files path).contents path = .ok (content, modified) →
      cache.find? ⟨path, content.length, modified⟩ = some entry →
      Source.Root.parse path (Utf8.decode content) = .ok entry.root) :
    (cache.parseFile files path).1.map ParsedFile.root = parseDirectly files path := by
  unfold ParseCache.parseFile parseDirectly
  cases hcontents : (files path).contents path with
  | error reason => rfl
  | ok found =>
      obtain ⟨content, modified⟩ := found
      dsimp only
      cases hfind : cache.find? ⟨path, content.length, modified⟩ with
      | some entry => exact (h content modified entry hcontents hfind).symm
      | none =>
          cases Source.Root.parse path (Utf8.decode content) with
          | error e => rfl
          | ok root => rfl

/-- Nothing changes in the cache when there is no tree. -/
theorem parseFile_of_error {e : Source.ParseError} (h : (cache.parseFile files path).1 = .error e) :
    (cache.parseFile files path).2 = cache := by
  unfold ParseCache.parseFile at h ⊢
  cases hcontents : (files path).contents path with
  | error reason => rfl
  | ok found =>
      obtain ⟨content, modified⟩ := found
      rw [hcontents] at h
      dsimp only at h ⊢
      cases hfind : cache.find? ⟨path, content.length, modified⟩ with
      | some entry =>
          rw [hfind] at h
          cases h
      | none =>
          rw [hfind] at h
          cases hroot : Source.Root.parse path (Utf8.decode content) with
          | error e => rfl
          | ok root =>
              rw [hroot] at h
              cases h

/-! ## Caches that are true to the files -/

/-- A tree that is kept for a file is the tree of that file, if the file is as it was. -/
def Faithful (files : Files) (cache : ParseCache) : Prop :=
  ∀ entry ∈ cache.entries, ∀ content modified,
    (files entry.key.path).contents entry.key.path = .ok (content, modified) →
    entry.key.size = content.length → entry.key.modified = modified →
    Source.Root.parse entry.key.path (Utf8.decode content) = .ok entry.root

/-- A faithful cache gives the tree that parsing gives, and stays faithful. -/
theorem Faithful.parseFile (h : cache.Faithful files) (path : Bytes) :
    (cache.parseFile files path).1.map ParsedFile.root = parseDirectly files path ∧
      (cache.parseFile files path).2.Faithful files := by
  constructor
  · refine parseFile_eq_parseDirectly fun content modified entry hcontents hfind => ?_
    obtain ⟨hentry, hkey⟩ := keepsRecent.mem_of_find? hfind
    have hroot := h entry hentry content modified
    rw [hkey] at hroot
    exact hroot hcontents rfl rfl
  · refine (forall_parseFile h ?_).2
    intro content modified serial root hcontents hroot content' modified' hcontents' _ _
    obtain ⟨rfl, rfl⟩ := Prod.mk.inj (Except.ok.inj (hcontents.symm.trans hcontents'))
    exact hroot

/-- Two caches give the same trees: they are the same cache, or both are faithful to the files. -/
def SameTrees (files : Files) (cache other : ParseCache) : Prop :=
  cache = other ∨ cache.Faithful files ∧ other.Faithful files

theorem SameTrees.parseFile (h : cache.SameTrees files other) (path : Bytes) :
    (cache.parseFile files path).1.map ParsedFile.root = (other.parseFile files path).1.map ParsedFile.root ∧
      (cache.parseFile files path).2.SameTrees files (other.parseFile files path).2 := by
  rcases h with rfl | ⟨hcache, hother⟩
  · exact ⟨rfl, .inl rfl⟩
  · obtain ⟨hroot, hcache⟩ := hcache.parseFile path
    obtain ⟨hroot', hother⟩ := hother.parseFile path
    exact ⟨hroot.trans hroot'.symm, .inr ⟨hcache, hother⟩⟩

end BraceLisp.ParseCache
