import BraceLisp.Engine.Problem

/-!
# Names of databases

A database is named by a path or by a URI of the scheme `file`. Parameters may stand behind a question mark.
Those of a path only say how databases are stored; those of a URI also say what the connection may do, and
whether others can join it. In a URI a byte can be given by a percent sign and two hexadecimal digits.
-/

namespace BraceLisp

inductive Access where
  | readOnly
  | readWrite
  | create
  | memory
  deriving DecidableEq, Repr

namespace Access

def ofName? (name : Bytes) : Option Access :=
  if name = Bytes.of "ro" then some .readOnly
  else if name = Bytes.of "rw" then some .readWrite
  else if name = Bytes.of "rwc" then some .create
  else if name = Bytes.of "memory" then some .memory
  else none

def reach : Access → Nat
  | .readOnly => 0
  | .readWrite => 1
  | .create => 2
  | .memory => 3

/-- Whether one access can take the place of another: memory always can, and what allows no more. -/
def admits (old new : Access) : Bool :=
  new = .memory || new.reach ≤ old.reach

end Access

/-- How databases are stored: in files, which differ in how they are locked, or in memory. -/
inductive Storage where
  | files
  | filesUnlocked
  | filesWithLockFile
  | filesHeld
  | memory
  deriving DecidableEq, Repr

namespace Storage

def ofName? (name : Bytes) : Option Storage :=
  if name = Bytes.of "unix" then some .files
  else if name = Bytes.of "unix-none" then some .filesUnlocked
  else if name = Bytes.of "unix-dotfile" then some .filesWithLockFile
  else if name = Bytes.of "unix-excl" then some .filesHeld
  else if name = Bytes.of "memdb" then some .memory
  else none

/--
Whether files are locked by the system. Only then are they watched: it is noticed when the name of a file is
given to another, and changes can be logged.
-/
def isWatched : Storage → Bool
  | .files | .filesHeld => true
  | .filesUnlocked | .filesWithLockFile | .memory => false

end Storage

/--
The name of a database: a path, what the connection may do, whether others can join it, how the database is
stored, and whether nobody is expected to change it.
-/
structure DatabaseName where
  path : Bytes
  access : Access
  isShared : Bool
  storage : Storage
  isFixed : Bool
  deriving DecidableEq, Repr

namespace DatabaseName

def questionMark : UInt8 := 0x3F

def untilZero (s : Bytes) : Bytes := (Parameters.cutAt 0 s).1

/--
A part of a URI with its escapes replaced by the bytes they stand for. A percent sign without digits stands for
itself, and an escaped zero ends the text. `skip` counts the digits that belong to an escape already replaced.
-/
def unescapeFrom : (skip : Nat) → Bytes → Bytes
  | _, [] => []
  | skip + 1, _ :: rest => unescapeFrom skip rest
  | 0, b :: rest =>
      if b = Parameters.percentSign then
        match Parameters.octet? rest with
        | some 0 => []
        | some n => UInt8.ofNat n :: unescapeFrom 2 rest
        | none => b :: unescapeFrom 0 rest
      else b :: unescapeFrom 0 rest

def unescape (s : Bytes) : Bytes := unescapeFrom 0 s

/-! ## Paths and URIs -/

/-- What follows the scheme and the machine of a URI, of which the machine can only be this one. -/
def localPart (uri : Bytes) : Except OpenProblem Bytes :=
  match uri with
  | 0x2F :: 0x2F :: rest =>
      let machine := rest.takeWhile (· != 0x2F)
      if machine.isEmpty ∨ machine = Bytes.of "localhost" then .ok (rest.dropWhile (· != 0x2F))
      else .error .malformed
  | _ => .ok uri

/-- The name after one more parameter of a URI. Those that have no meaning here are passed over. -/
def withParameter (name : DatabaseName) : Bytes × Bytes → Except OpenProblem DatabaseName
  | (key, value) =>
      if key = Bytes.of "mode" then
        match Access.ofName? value with
        | some access => if name.access.admits access then .ok { name with access } else .error .forbidden
        | none => .error .malformed
      else if key = Bytes.of "cache" then
        if value = Bytes.of "shared" then .ok { name with isShared := true }
        else if value = Bytes.of "private" then .ok { name with isShared := false }
        else .error .malformed
      else .ok name

def storageOf (names : List Bytes) : Except OpenProblem Storage :=
  match names.getLast? with
  | none => .ok .files
  | some name =>
      match Storage.ofName? name with
      | some storage => .ok storage
      | none => .error .malformed

def ofUri (storages : List Bytes) (uri : Bytes) : Except OpenProblem DatabaseName := do
  let (path, query) := Parameters.cutAt questionMark (Parameters.cutAt 0x23 (← localPart uri)).1
  let options := (Parameters.pairs query).map fun (key, value) => (unescape key, unescape value)
  let isFixed := ((Parameters.all options (Bytes.of "immutable")).head?).any Pragma.isYes
  let name ← options.foldlM withParameter ⟨unescape path, .create, false, .files, isFixed⟩
  let storage ← storageOf (storages ++ Parameters.all options (Bytes.of "vfs"))
  return { name with storage }

def scheme : Bytes := Bytes.of "file:"

/-- The storages that parameters ask for, of which there can be only one. An empty name asks for none. -/
def requestedStorage (parameters : Parameters) : Except OpenProblem (List Bytes) :=
  let names := parameters.all (Bytes.of "vfs")
  match names.dropWhile List.isEmpty with
  | [] => .ok []
  | first :: others =>
      if others.all fun other => other == first then .ok [untilZero first] else .error (.conflict names)

/-- The name that a text gives, and its parameters. A question mark at its very start is part of a path. -/
def parse (text : Bytes) : Except OpenProblem (DatabaseName × Parameters) := do
  let (path, query) := Parameters.cutAt questionMark text
  let hasQuery := text.contains questionMark ∧ ¬ path.isEmpty
  let parameters ←
    if hasQuery then (Parameters.parse query).mapError OpenProblem.parameters else pure []
  let storages ← requestedStorage parameters
  if scheme.isPrefixOf text then
    let name ← ofUri storages (untilZero (text.drop scheme.length))
    return (name, parameters)
  else
    let storage ← storageOf storages
    return (⟨untilZero (if hasQuery then path else text), .create, false, storage, false⟩, parameters)

end DatabaseName

end BraceLisp
