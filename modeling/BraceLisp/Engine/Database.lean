import BraceLisp.Engine.Name
import BraceLisp.Files.Disk
import BraceLisp.History.Queries

/-!
# Databases that hold history

Databases are files of the disk, or kept in memory. Connections go through channels. A channel keeps to its
file when the name of the file is taken away or given to another; it remembers whether it has seen the table of
history; and most channels are private to one connection. A database in memory is there for as long as a
channel to it is open.
-/

namespace BraceLisp

/-- What a file holds, as far as databases are concerned. -/
inductive DatabaseContent where
  | bytes (s : Bytes)
  | database (table : Option HistoryTable)
  deriving DecidableEq, Repr

namespace DatabaseContent

/-- Whether there is nothing yet. One byte counts as nothing. -/
def isBlank : DatabaseContent → Bool
  | .bytes s => s.length ≤ 1
  | .database _ => false

/-- The table, as far as it exists. Nothing is a database without a table; other bytes are no database. -/
def table : DatabaseContent → Except QueryProblem (Option HistoryTable)
  | .bytes s => if s.length ≤ 1 then .ok none else .error .foreign
  | .database table => .ok table

def hasBytes : DatabaseContent → Bool
  | .bytes s => !s.isEmpty
  | .database _ => true

def startsWithZero : DatabaseContent → Bool
  | .bytes s => s.head? = some 0
  | .database _ => false

end DatabaseContent

inductive DatabasePlace where
  | file (place : List Bytes) (number : Nat)
  | memory (number : Nat)
  deriving DecidableEq, Repr

/-- What happens after a change to the file that the change is first written to. -/
inductive Scratch where
  | removed
  | emptied
  | kept
  | unused
  deriving DecidableEq, Repr

/-- What a channel keeps others from. -/
inductive Hold where
  | nothing
  | writing
  | everything
  deriving DecidableEq, Repr

/--
A way to a database, which connections can share and others may know by a name. It remembers whether the table was there
when it last looked and, if nobody is expected to change the database, what the table held.
-/
structure Channel where
  place : DatabasePlace
  storage : Storage
  sharedAs : Option Bytes
  knownAs : Option Bytes
  isReadOnly : Bool
  isFixed : Bool
  scratch : Scratch
  keepsHold : Bool
  hold : Hold
  seesTable : Option Bool
  rows : Option HistoryTable
  users : Nat
  deriving DecidableEq, Repr

namespace Channel

def new (place : DatabasePlace) (storage : Storage) (isReadOnly isFixed : Bool) : Channel :=
  ⟨place, storage, none, none, isReadOnly, isFixed, .removed, false, .nothing, none, none, 1⟩

instance : Inhabited Channel := ⟨{ new (.memory 0) .memory true false with users := 0 }⟩

end Channel

/-- What a connection has been made to; it may be for queries that change nothing. -/
structure Attachment where
  channel : Nat
  isQueryOnly : Bool
  deriving DecidableEq, Repr

/-- What stands behind a connection: a name until it is first used, and nothing when it has been closed. -/
inductive Standing where
  | named (driver dsn : Bytes)
  | attached (attachment : Attachment)
  | closed
  deriving DecidableEq, Repr

/-- The files, and the databases in memory, the channels and the connections in the order of their numbers. -/
structure Databases where
  disk : Disk DatabaseContent
  memory : List DatabaseContent
  channels : List Channel
  connections : List Standing
  deriving Inhabited, Repr

structure Connection where
  number : Nat
  deriving DecidableEq, Repr

abbrev DatabaseM (ε : Type) := WorldM Databases ε

namespace Databases

def empty : Databases := ⟨.fresh, [], [], []⟩

def content (databases : Databases) : DatabasePlace → DatabaseContent
  | .file _ number => ((databases.disk.file? number).map StoredFile.content).getD (.bytes [])
  | .memory number => databases.memory.getD number (.bytes [])

def setContent (databases : Databases) (content : DatabaseContent) : DatabasePlace → Databases
  | .file _ number => { databases with disk := databases.disk.setFile number ⟨content, 0⟩ }
  | .memory number => { databases with memory := databases.memory.set number content }

def channel (databases : Databases) (number : Nat) : Channel :=
  databases.channels.getD number default

def modifyChannel (databases : Databases) (number : Nat) (f : Channel → Channel) : Databases :=
  { databases with channels := databases.channels.set number (f (databases.channel number)) }

/-- Whether another channel keeps a channel from what a condition on holds says. -/
def isKept (databases : Databases) (number : Nat) (isKeeping : Hold → Bool) : Bool :=
  let here := (databases.channel number).place
  databases.channels.zipIdx.any fun (other, n) =>
    n != number && other.users != 0 && other.place == here && isKeeping other.hold

end Databases

/-! ## Files beside a database -/

namespace Beside

def scratchSuffix : Bytes := Bytes.of "-journal"

def logSuffix : Bytes := Bytes.of "-wal"

def placeOf (place : List Bytes) (suffix : Bytes) : List Bytes :=
  place.dropLast ++ [place.getLastD [] ++ suffix]

inductive Neighbour where
  | directory
  | file (content : DatabaseContent)
  deriving DecidableEq, Repr

/-- What is at a place. An empty file counts as nothing. -/
def neighbour? (disk : Disk DatabaseContent) (place : List Bytes) : Option Neighbour :=
  match disk.entry? place with
  | none => none
  | some .directory => some .directory
  | some (.file number) =>
      match disk.file? number with
      | some file => if file.content.hasBytes then some (.file file.content) else none
      | none => none

/--
Puts a file for changes in order that was left behind. Beside a blank database it means nothing. If its first
byte is not zero a change was not finished, and is undone.
-/
def settleScratch (disk : Disk DatabaseContent) (place : List Bytes) (isBlank isReadOnly : Bool) :
    Except QueryProblem (Disk DatabaseContent) :=
  let scratch := placeOf place scratchSuffix
  match neighbour? disk scratch with
  | none => .ok disk
  | some .directory =>
      if isBlank then .ok disk
      else if disk.entry? place = none then .error .vanished
      else .error .badScratch
  | some (.file content) =>
      if isBlank then .ok (disk.unset scratch)
      else if disk.entry? place = none then .error .vanished
      else if content.startsWithZero then .ok disk
      else if isReadOnly then .error .unfinished
      else .ok (disk.unset scratch)

/-- Puts a file with logged changes in order that was left behind. Beside a blank database it means nothing. -/
def settleLog (disk : Disk DatabaseContent) (place : List Bytes) (isBlank : Bool) :
    Except QueryProblem (Disk DatabaseContent) :=
  let log := placeOf place logSuffix
  match neighbour? disk log with
  | none => .ok disk
  | some .directory =>
      if isBlank then .error .badLog
      else if disk.entry? place = none then .error .vanished
      else .error .noScratch
  | some (.file _) =>
      if isBlank then .ok (disk.unset log)
      else if disk.entry? place = none then .error .vanished
      else .ok disk

/--
What keeps a change of a file from being written to another file first. A database that is watched must still
be at its place; for any other there need only be something there. The other file gets a longer name.
-/
def scratchProblem? (disk : Disk DatabaseContent) (place : List Bytes) (number : Nat) (isWatched : Bool) :
    Option QueryProblem :=
  let scratch := placeOf place scratchSuffix
  if isWatched ∧ disk.entry? place ≠ some (.file number) then some .moved
  else if disk.entry? place = none then some .vanished
  else if Path.longestName < (scratch.getLastD []).length ∨ disk.entry? scratch = some .directory then
    some .noScratch
  else none

def finishScratch (disk : Disk DatabaseContent) (place : List Bytes) : Scratch → Disk DatabaseContent
  | .removed => disk.unset (placeOf place scratchSuffix)
  | .emptied => (disk.newFile (placeOf place scratchSuffix) ⟨.bytes [], 0⟩).2
  | .kept => (disk.newFile (placeOf place scratchSuffix) ⟨.bytes [0], 0⟩).2
  | .unused => disk

end Beside

/-! ## Looking and changing -/

namespace Channel

/--
What a channel to a fixed database sees. Once it has looked it does not look again; the rows that it goes on
to see are another matter.
-/
def lookFixed (channel : Channel) (content : DatabaseContent) : Except QueryProblem (Option HistoryTable) :=
  match channel.seesTable, content with
  | some false, _ => .ok none
  | some true, .database (some table) => .ok (some table)
  | some true, _ => .ok (some [])
  | none, .database table => .ok table
  | none, .bytes _ => .error .foreign

/-- Looks at a database: the table, as far as it exists. What is beside a file is put in order first. -/
def look (number : Nat) : DatabaseM QueryProblem (Option HistoryTable) := do
  let databases ← get
  let channel := databases.channel number
  let content := databases.content channel.place
  if channel.isFixed then WorldM.ofExcept (channel.lookFixed content)
  else
    if databases.isKept number (· = .everything) then throw .busy
    if let .file place _ := channel.place then
      let disk ← WorldM.ofExcept (Beside.settleScratch databases.disk place content.isBlank channel.isReadOnly)
      set { databases with disk }
      let disk ← WorldM.ofExcept (Beside.settleLog disk place content.isBlank)
      set { databases with disk }
    let table ← WorldM.ofExcept content.table
    if channel.keepsHold ∧ channel.hold = .nothing then
      modify fun databases => databases.modifyChannel number fun channel => { channel with hold := .writing }
    return table

def remember (number : Nat) (seesTable : Bool) : DatabaseM QueryProblem Unit :=
  modify fun databases =>
    databases.modifyChannel number fun channel => { channel with seesTable := some seesTable }

/-- Whether there is a table, by what the channel remembers; it looks if it never has. -/
def knowsTable (number : Nat) : DatabaseM QueryProblem Bool := do
  match ((← get).channel number).seesTable with
  | some sees => return sees
  | none =>
      let sees := (← look number).isSome
      remember number sees
      return sees

/--
Whether there is a table to ask about. A channel that remembers none looks again, and does not mind if that
fails.
-/
def findsTable (number : Nat) : DatabaseM QueryProblem Bool := do
  if ← knowsTable number then return true
  let table ← tryCatch (look number) fun _ => return none
  if table.isSome then remember number true
  return table.isSome

def requireTable (number : Nat) : DatabaseM QueryProblem Unit := do
  if ¬ (← findsTable number) then throw .noTable

/-- The table, which must be there; if it is gone the channel remembers that. -/
def requireCurrent (number : Nat) : Option HistoryTable → DatabaseM QueryProblem HistoryTable
  | some table => return table
  | none => do
      remember number false
      throw .noTable

def requireScratch (number : Nat) : DatabaseM QueryProblem Unit := do
  let databases ← get
  let channel := databases.channel number
  if let .file place file := channel.place then
    if channel.scratch ≠ .unused then
      let isWatched := channel.storage.isWatched && !(databases.content channel.place).isBlank
      if let some problem := Beside.scratchProblem? databases.disk place file isWatched then throw problem

/-- Gets ready to change a database: the table, as far as it exists. A blank database is changed at once. -/
def prepare (number : Nat) : DatabaseM QueryProblem (Option HistoryTable) := do
  let table ← look number
  let databases ← get
  if (databases.content (databases.channel number).place).isBlank then requireScratch number
  return table

def store (number : Nat) (content : DatabaseContent) : DatabaseM QueryProblem Unit := do
  requireScratch number
  let databases ← get
  let channel := databases.channel number
  if databases.isKept number (· ≠ .nothing) then throw .busy
  let databases := databases.setContent content channel.place
  let databases := match channel.place with
    | .file place _ => { databases with disk := Beside.finishScratch databases.disk place channel.scratch }
    | .memory _ => databases
  set (databases.modifyChannel number fun channel =>
    if channel.keepsHold then { channel with hold := .everything } else channel)

end Channel

namespace Attachment

def requireWriting (attachment : Attachment) : DatabaseM QueryProblem Unit := do
  if attachment.isQueryOnly ∨ ((← get).channel attachment.channel).isReadOnly then throw .readOnly

/-! ## Queries -/

def createTable (attachment : Attachment) : DatabaseM QueryProblem Unit := do
  let number := attachment.channel
  if ← Channel.knowsTable number then
    if (← Channel.look number).isSome then return
    Channel.remember number false
  attachment.requireWriting
  if (← Channel.prepare number).isNone then
    Channel.store number (.database (some []))
  Channel.remember number true

def addRow (attachment : Attachment) (row : HistoryRow) : DatabaseM QueryProblem Unit := do
  let number := attachment.channel
  Channel.requireTable number
  attachment.requireWriting
  let table ← Channel.requireCurrent number (← Channel.prepare number)
  Channel.store number (.database (some (HistoryTable.add table row)))

/-- The rows of a table that a channel to a fixed database goes on to see, which must still be there. -/
def fixedRows (number : Nat) (table : HistoryTable) : DatabaseM QueryProblem HistoryTable := do
  let databases ← get
  let channel := databases.channel number
  match channel.rows, databases.content channel.place with
  | some rows, _ => return rows
  | none, .bytes _ => throw .damaged
  | none, .database _ =>
      set (databases.modifyChannel number fun channel => { channel with rows := some table })
      return table

def rows (attachment : Attachment) : DatabaseM QueryProblem HistoryTable := do
  let number := attachment.channel
  Channel.requireTable number
  let table ← Channel.requireCurrent number (← Channel.look number)
  if ((← get).channel number).isFixed then fixedRows number table else return table

end Attachment

end BraceLisp
