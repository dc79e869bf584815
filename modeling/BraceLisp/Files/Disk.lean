import BraceLisp.Files.Path
import BraceLisp.Files.View

/-!
# A tree of directories and files

A small file system with a working directory. A path is followed name by name, and every name on the way must
be that of a directory. Names lead to files by number: a file that is written again keeps its number, and one
whose name has been taken away is still there for those who hold on to its number. What files hold is left
open; programs see files that hold bytes.
-/

namespace BraceLisp

inductive DiskEntry where
  | directory
  | file (number : Nat)
  deriving DecidableEq, Repr

structure StoredFile (α : Type) where
  content : α
  modified : Int
  deriving Repr

/-- Places are given by the names that lead to them from the root, and files stand in the order of their numbers. -/
structure Disk (α : Type) where
  entries : List (List Bytes × DiskEntry)
  files : List (StoredFile α)
  workingDirectory : List Bytes
  deriving Repr

namespace Disk

variable {α : Type}

/-- A tree that holds an empty working directory and the directories above it. -/
def fresh : Disk α :=
  let tmp := Bytes.of "tmp"
  let work := Bytes.of "work"
  ⟨[([], .directory), ([tmp], .directory), ([tmp, work], .directory)], [], [tmp, work]⟩

instance : Inhabited (Disk α) := ⟨fresh⟩

def entry? (disk : Disk α) (place : List Bytes) : Option DiskEntry :=
  (disk.entries.find? fun entry => entry.1 == place).map Prod.snd

def set (disk : Disk α) (place : List Bytes) (entry : DiskEntry) : Disk α :=
  { disk with entries := (place, entry) :: disk.entries.filter fun other => other.1 != place }

/-- The tree with nothing at a place; what is inside stays. -/
def unset (disk : Disk α) (place : List Bytes) : Disk α :=
  { disk with entries := disk.entries.filter fun entry => entry.1 != place }

def file? (disk : Disk α) (number : Nat) : Option (StoredFile α) :=
  disk.files[number]?

def setFile (disk : Disk α) (number : Nat) (file : StoredFile α) : Disk α :=
  { disk with files := disk.files.set number file }

def newFile (disk : Disk α) (place : List Bytes) (file : StoredFile α) : Nat × Disk α :=
  let number := disk.files.length
  (number, { disk with files := disk.files ++ [file] }.set place (.file number))

/-! ## Following paths -/

def startOf (disk : Disk α) (path : Bytes) : List Bytes :=
  if Path.isRooted path then [] else disk.workingDirectory

def stepTo (place : List Bytes) (name : Bytes) : List Bytes :=
  if name.isEmpty ∨ name = Path.here then place
  else if name = Path.above then place.dropLast
  else place ++ [name]

/-- Follows names from a place, or says what is in the way. -/
def follow (disk : Disk α) : (place names : List Bytes) → Except FileView (List Bytes)
  | place, [] => .ok place
  | place, name :: rest =>
      match disk.entry? place with
      | none => .error .missing
      | some (.file _) => .error .notDirectory
      | some .directory =>
          if Path.longestName < name.length then .error .tooLong
          else disk.follow (stepTo place name) rest

/-- The place that a path leads to, whether or not there is anything there. -/
def resolve (disk : Disk α) (path : Bytes) : Except FileView (List Bytes) :=
  if path.isEmpty then .error .missing
  else if path.contains 0 then .error .badPath
  else if Path.longestPath < path.length then .error .tooLong
  else disk.follow (disk.startOf path) (Path.names path)

def view (disk : Disk Bytes) : Files := fun path =>
  match disk.resolve path with
  | .error view => view
  | .ok place =>
      match disk.entry? place with
      | none => .missing
      | some .directory => .directory
      | some (.file number) =>
          match disk.file? number with
          | some file => .file file.content file.modified
          | none => .missing

/-! ## Changing the tree -/

def makeAll (disk : Disk α) : (place names : List Bytes) → Disk α
  | _, [] => disk
  | place, name :: rest =>
      let next := stepTo place name
      match disk.entry? next with
      | none => if Path.longestName < name.length then disk else (disk.set next .directory).makeAll next rest
      | some .directory => disk.makeAll next rest
      | some (.file _) => disk

def makeDirectory (disk : Disk α) (path : Bytes) : Disk α :=
  if path.contains 0 then disk
  else disk.makeAll (disk.startOf path) (Path.names path)

/-- Puts a file at a path, and makes the directories above it. -/
def write (disk : Disk α) (path : Bytes) (content : α) (modified : Int) : Disk α :=
  let above := (Path.names path).dropLast
  let disk :=
    if path.contains 0 then disk
    else disk.makeAll (disk.startOf path) (Path.simplify (Path.isRooted path) [] above)
  match disk.resolve path with
  | .error _ => disk
  | .ok place =>
      match disk.entry? place with
      | some .directory => disk
      | some (.file number) => disk.setFile number ⟨content, modified⟩
      | none => (disk.newFile place ⟨content, modified⟩).2

/--
Takes away what is at a path, with everything inside it. Slashes at the end of the path do not matter; a path
that ends in the name of the directory itself takes nothing away.
-/
def remove (disk : Disk α) (path : Bytes) : Disk α :=
  let names := ((Path.names path).reverse.dropWhile List.isEmpty).reverse
  if path.contains 0 ∨ names.isEmpty ∨ names.getLast? = some Path.here then disk
  else match disk.follow (disk.startOf path) names with
    | .error _ => disk
    | .ok place => { disk with entries := disk.entries.filter fun entry => !place.isPrefixOf entry.1 }

end Disk

end BraceLisp
