import BraceLisp.Files.View
import BraceLisp.Source.Parse

/-!
# Parsing files, with a cache

Trees of recently parsed files are kept. A file is recognised by its path as given, its size and the time
of its last change, so a file of which none of these has changed is not parsed again. The cache holds a
limited number of trees and gives up the one that has gone unused the longest. Errors are not kept.
-/

namespace BraceLisp

open Source

structure FileKey where
  path : Bytes
  size : Nat
  modified : Int
  deriving DecidableEq, Repr

/-- A parsed file: its key, its tree, and how many trees had been made before it. -/
structure ParsedFile where
  key : FileKey
  serial : Nat
  root : Root
  deriving Repr

/-- Parsed files, most recently used first, and the number of trees made so far. -/
structure ParseCache where
  entries : List ParsedFile
  parsed : Nat
  deriving Repr

namespace ParseCache

def empty : ParseCache := ⟨[], 0⟩

instance : Inhabited ParseCache := ⟨empty⟩

def capacity : Nat := 64

def size (cache : ParseCache) : Nat := cache.entries.length

def describe (cache : ParseCache) : Bytes :=
  Bytes.of "FileParser\x7b" ++ Utf8.encode (Decimal.ofNat cache.size) ++ Bytes.of " cached\x7d"

def find? (cache : ParseCache) (key : FileKey) : Option ParsedFile :=
  cache.entries.find? fun entry => entry.key == key

def touch (cache : ParseCache) (entry : ParsedFile) : ParseCache :=
  { cache with entries := entry :: cache.entries.filter fun other => other.key != entry.key }

def add (cache : ParseCache) (entry : ParsedFile) : ParseCache :=
  { entries := (entry :: cache.entries.filter fun other => other.key != entry.key).take capacity
    parsed := cache.parsed + 1 }

def unreadable (path reason : Bytes) : ParseError :=
  ⟨path, 0, 0, .unreadable reason⟩

/-- The tree of a file, made without a cache. -/
def parseDirectly (files : Files) (path : Bytes) : Except ParseError Root :=
  match (files path).contents path with
  | .error reason => .error (unreadable path reason)
  | .ok (content, _) => Root.parse path (Utf8.decode content)

/-- The tree of a file, from the cache if it is there, and the cache afterwards. -/
def parseFile (files : Files) (path : Bytes) (cache : ParseCache) :
    Except ParseError ParsedFile × ParseCache :=
  match (files path).contents path with
  | .error reason => (.error (unreadable path reason), cache)
  | .ok (content, modified) =>
      let key : FileKey := ⟨path, content.length, modified⟩
      match cache.find? key with
      | some entry => (.ok entry, cache.touch entry)
      | none =>
          match Root.parse path (Utf8.decode content) with
          | .error e => (.error e, cache)
          | .ok root =>
              let entry : ParsedFile := ⟨key, cache.parsed, root⟩
              (.ok entry, cache.add entry)

end ParseCache

end BraceLisp
