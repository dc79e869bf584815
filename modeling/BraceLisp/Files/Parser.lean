import BraceLisp.Files.Disk
import BraceLisp.Files.ParseCache

/-!
# A parser of files in use

Files come, change and go between one use of a parser and the next, and the parser has to find out by itself. It
looks for a tree in two steps: what is at a path has a status, by which the parser recognises it, and only what it
does not recognise is read. A directory has a status as a file has, but cannot be read.
-/

namespace BraceLisp

open Source

structure FileStatus where
  size : Nat
  modified : Int
  deriving DecidableEq, Repr

namespace FileView

/-- What the parser recognises a path by, or the reason why nothing is there; a directory has the given status. -/
def key (directory : FileStatus) (path : Bytes) : FileView → Except Bytes FileKey
  | .directory => .ok ⟨path, directory.size, directory.modified⟩
  | view => (view.contents path).map fun (content, modified) => ⟨path, content.length, modified⟩

def read (path : Bytes) (view : FileView) : Except Bytes Bytes :=
  (view.contents path).map Prod.fst

end FileView

/-- The tree of a file, which is read only if it is not recognised, and the cache afterwards. -/
def ParseCache.parseInSteps (files : Files) (directory : FileStatus) (path : Bytes) (cache : ParseCache) :
    Except ParseError ParsedFile × ParseCache :=
  match (files path).key directory path with
  | .error reason => (.error (unreadable path reason), cache)
  | .ok key =>
      match cache.find? key with
      | some entry => (.ok entry, cache.touch entry)
      | none =>
          match (files path).read path with
          | .error reason => (.error (unreadable path reason), cache)
          | .ok content =>
              match Root.parse path (Utf8.decode content) with
              | .error e => (.error e, cache)
              | .ok root =>
                  let entry : ParsedFile := ⟨key, cache.parsed, root⟩
                  (.ok entry, cache.add entry)

/-! ## Courses of actions -/

inductive FileAction where
  | write (path content : Bytes) (modified : Int)
  | makeDirectory (path : Bytes)
  | remove (path : Bytes)
  | parse (path : Bytes) (directory : FileStatus)
  deriving DecidableEq, Repr

/-- What has been seen of a path: what it is recognised by, and what can be read there, if anything can. -/
structure Sighting where
  key : FileKey
  content : Option Bytes
  deriving DecidableEq, Repr

/-- Whatever was recognised as the same had the same content. -/
def Sighting.Consistent (seen : List Sighting) : Prop :=
  ∀ a ∈ seen, ∀ b ∈ seen, a.key = b.key → a.content = b.content

instance (seen : List Sighting) : Decidable (Sighting.Consistent seen) :=
  inferInstanceAs (Decidable (∀ a ∈ seen, ∀ b ∈ seen, a.key = b.key → a.content = b.content))

structure FileParser where
  disk : Disk Bytes
  cache : ParseCache
  deriving Repr

namespace FileParser

def unused (disk : Disk Bytes) : FileParser := ⟨disk, .empty⟩

def parse (parser : FileParser) (path : Bytes) (directory : FileStatus) :
    Except ParseError ParsedFile × ParseCache :=
  parser.cache.parseInSteps parser.disk.view directory path

def step (parser : FileParser) : FileAction → FileParser
  | .write path content modified => { parser with disk := parser.disk.write path content modified }
  | .makeDirectory path => { parser with disk := parser.disk.makeDirectory path }
  | .remove path => { parser with disk := parser.disk.remove path }
  | .parse path directory => { parser with cache := (parser.parse path directory).2 }

def run (parser : FileParser) (actions : List FileAction) : FileParser :=
  actions.foldl step parser

/-- What is seen in an action: what is at the path that is parsed, if anything is. -/
def sighting? (parser : FileParser) : FileAction → Option Sighting
  | .parse path directory =>
      match (parser.disk.view path).key directory path with
      | .ok key => some ⟨key, ((parser.disk.view path).read path).toOption⟩
      | .error _ => none
  | _ => none

def sightings (parser : FileParser) : List FileAction → List Sighting
  | [] => []
  | action :: rest => (parser.sighting? action).toList ++ (parser.step action).sightings rest

end FileParser

end BraceLisp
