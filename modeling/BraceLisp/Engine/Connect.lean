import BraceLisp.Engine.Database
import BraceLisp.Engine.ServerOptions

/-!
# Connecting to databases

How a name leads to a database: the file is found or made, or the database in memory; connections that share
a channel find it by its name; then the pragmas among the parameters are run.
-/

namespace BraceLisp

namespace Databases

/-! ## Finding files -/

def pathTo (place : List Bytes) : Bytes :=
  place.flatMap fun name => Path.slash :: name

def longestPath : Nat := 512

/--
The place that names lead to from another. A name followed by the one for the directory above is taken out
whatever it stands for, but each name in turn must be one that could be there.
-/
def placeFrom? (disk : Disk DatabaseContent) : (place names : List Bytes) → Option (List Bytes)
  | place, [] => some place
  | place, name :: rest =>
      let next := Disk.stepTo place name
      if longestPath < (pathTo next).length + 1 then none
      else match disk.follow [] next with
        | .ok _ => placeFrom? disk next rest
        | .error .missing => placeFrom? disk next rest
        | .error _ => none

/-- The place of a file database, if the paths to it and to the file for changes are not too long. -/
def placeOf? (disk : Disk DatabaseContent) (path : Bytes) : Option (List Bytes) := do
  let place ← placeFrom? disk (disk.startOf path) (Path.names path)
  if place.isEmpty ∨ longestPath < (pathTo place).length + Beside.scratchSuffix.length then none
  else some place

/-- The file at a place; a new one is made if that is allowed and there is a directory for it. -/
def openFile (databases : Databases) (access : Access) (place : List Bytes) :
    Except OpenProblem (DatabasePlace × Databases) :=
  match databases.disk.entry? place with
  | some (.file number) => .ok (.file place number, databases)
  | some .directory => .error (if access = .readOnly then .unreadable else .unopenable)
  | none =>
      if access = .create ∧ databases.disk.entry? place.dropLast = some .directory then
        let (number, disk) := databases.disk.newFile place ⟨.bytes [], 0⟩
        .ok (.file place number, { databases with disk })
      else .error .unopenable

/-! ## Channels -/

def newMemory (databases : Databases) : DatabasePlace × Databases :=
  (.memory databases.memory.length, { databases with memory := databases.memory ++ [.bytes []] })

def memoryPath : Bytes := Bytes.of ":memory:"

/-- Whether a name is that of a database in memory whatever the storage. -/
def isMemoryName (name : DatabaseName) : Bool :=
  name.path = memoryPath || name.access = .memory

/-- The name under which databases of the storage in memory are found: it starts with a slash. -/
def knownName? (name : DatabaseName) : Option Bytes :=
  match name.path with
  | 0x2F :: b :: rest => some (0x2F :: b :: rest)
  | _ => none

def sharedName? (databases : Databases) (name : DatabaseName) : Except OpenProblem (Option Bytes) :=
  if ¬ name.isShared ∨ name.path.isEmpty then .ok none
  else if isMemoryName name ∨ name.storage = .memory then .ok (some name.path)
  else match placeOf? databases.disk name.path with
    | some place => .ok (some (pathTo place))
    | none => .error .unopenable

/-- A new channel to a place that a name has led to. A fixed database that is blank stays blank. -/
def channelTo (databases : Databases) (name : DatabaseName) (place : DatabasePlace) : Channel :=
  let isBlank := (databases.content place).isBlank
  { Channel.new place name.storage (name.access = .readOnly || name.isFixed) name.isFixed with
    seesTable := if name.isFixed && isBlank then some false else none }

/-- A new channel to the database that a name leads to. The empty path stands for one that nobody else can find. -/
def newChannel (databases : Databases) (name : DatabaseName) : Except OpenProblem (Channel × Databases) :=
  if name.path.isEmpty ∨ isMemoryName name then
    let (place, databases) := databases.newMemory
    .ok (.new place name.storage (name.access = .readOnly) false, databases)
  else if name.storage = .memory then
    let known := knownName? name
    let (place, databases) :=
      match databases.channels.find? fun other => other.users != 0 && known.isSome && other.knownAs == known with
      | some other => (other.place, databases)
      | none => databases.newMemory
    .ok ({ databases.channelTo name place with knownAs := known, scratch := .unused }, databases)
  else match placeOf? databases.disk name.path with
    | none => .error .unopenable
    | some place => do
        let (place, databases) ← databases.openFile name.access place
        return (databases.channelTo name place, databases)

def openChannel (databases : Databases) (name : DatabaseName) : Except OpenProblem (Nat × Databases) := do
  let sharedAs ← databases.sharedName? name
  let isJoined (other : Channel) : Bool :=
    other.users != 0 && other.storage == name.storage && sharedAs.isSome && other.sharedAs == sharedAs
  match databases.channels.findIdx? isJoined with
  | some number =>
      return (number, databases.modifyChannel number fun channel => { channel with users := channel.users + 1 })
  | none =>
      let (channel, databases) ← databases.newChannel name
      return (databases.channels.length,
        { databases with channels := databases.channels ++ [{ channel with sharedAs }] })

end Databases

namespace Attachment

/-- Closes a connection. A channel that nobody uses any more holds nothing. -/
def detach (attachment : Attachment) (databases : Databases) : Databases :=
  databases.modifyChannel attachment.channel fun channel =>
    let users := channel.users - 1
    { channel with users, hold := if users = 0 then .nothing else channel.hold }

/-! ## Pragmas -/

inductive PragmaTopic where
  | queryOnly
  | scratch
  | hold
  | header
  | fixedHeader
  | stored
  | vacuum
  | freeing
  | tableOrNumber
  | table
  | encoding
  | knowing
  | looking
  | nothing
  deriving DecidableEq, Repr

def topics : List (String × PragmaTopic) :=
  [("query_only", .queryOnly), ("journal_mode", .scratch), ("locking_mode", .hold),
   ("application_id", .header), ("schema_version", .header), ("user_version", .header),
   ("data_version", .fixedHeader), ("freelist_count", .fixedHeader),
   ("default_cache_size", .stored), ("auto_vacuum", .vacuum), ("incremental_vacuum", .freeing),
   ("integrity_check", .tableOrNumber), ("quick_check", .tableOrNumber), ("foreign_key_check", .table),
   ("encoding", .encoding), ("cache_size", .knowing), ("optimize", .knowing), ("synchronous", .knowing),
   ("wal_checkpoint", .knowing), ("foreign_key_list", .looking), ("index_info", .looking),
   ("index_list", .looking), ("index_xinfo", .looking), ("max_page_count", .looking),
   ("page_count", .looking), ("table_info", .looking), ("table_list", .looking), ("table_xinfo", .looking)]

def topicOf (pragma : Pragma) : PragmaTopic :=
  ((topics.find? fun entry => PragmaWord.sameName (Bytes.of entry.1) pragma.name).map Prod.snd).getD .nothing

def isWord (value : Bytes) (words : List String) : Bool :=
  words.any fun word => PragmaWord.sameName (Bytes.of word) value

/-- Writes to the database without changing what the table holds. -/
def touch (attachment : Attachment) : DatabaseM QueryProblem Unit := do
  attachment.requireWriting
  let table ← Channel.prepare attachment.channel
  Channel.store attachment.channel (.database table)

def isBlank (attachment : Attachment) : DatabaseM QueryProblem Bool := do
  let databases ← get
  return (databases.content (databases.channel attachment.channel).place).isBlank

/-- Writes to the database if it is blank; otherwise only makes sure that the connection may. -/
def touchBlank (attachment : Attachment) : DatabaseM QueryProblem Unit := do
  attachment.requireWriting
  let table ← Channel.prepare attachment.channel
  if ← attachment.isBlank then Channel.store attachment.channel (.database table)

/-- Sets what happens to the files that changes are first written to. Changes can also be logged instead. -/
def setScratch (attachment : Attachment) (value : Bytes) : DatabaseM QueryProblem Unit := do
  let change (scratch : Scratch) : DatabaseM QueryProblem Unit :=
    modify fun databases => databases.modifyChannel attachment.channel fun channel => { channel with scratch }
  if isWord value ["delete"] then change .removed
  else if isWord value ["truncate"] then change .emptied
  else if isWord value ["persist"] then change .kept
  else if isWord value ["memory", "off"] then change .unused
  else if isWord value ["wal"] then
    let channel := (← get).channel attachment.channel
    match channel.place with
    | .file .. =>
        if channel.storage.isWatched ∧ ¬ channel.isFixed then
          attachment.touch
          change .unused
    | .memory _ => return

def builtInTables : List String :=
  ["sqlite_master", "sqlite_schema", "sqlite_temp_master", "sqlite_temp_schema"]

def opening {α : Type} (action : DatabaseM QueryProblem α) : DatabaseM OpenProblem α :=
  ExceptT.adapt .query action

def requireNamed (attachment : Attachment) (name : Bytes) : DatabaseM OpenProblem Unit := do
  if isWord name builtInTables then return
  let isThere ← opening (Channel.findsTable attachment.channel)
  if ¬ (isThere ∧ isWord name ["sneed_history"]) then throw (.pragma (.unknownTable name))

/-- Whether text is written in a way that a connection can no longer choose: it has seen a table. -/
def hasEncoding (attachment : Attachment) : DatabaseM OpenProblem Bool := do
  let channel := (← get).channel attachment.channel
  return channel.users = 1 && channel.seesTable = some true

/-- Runs a pragma; the connection may be for other queries afterwards. -/
def run (attachment : Attachment) (pragma : Pragma) : DatabaseM OpenProblem Attachment := do
  if let some database := pragma.database then
    if ¬ isWord database ["main", "temp"] then throw (.pragma (.unknownDatabase database))
  let topic := topicOf pragma
  match topic, pragma.value with
  | .nothing, _ => return attachment
  | .queryOnly, value => return { attachment with isQueryOnly := (value.map Pragma.isYes).getD attachment.isQueryOnly }
  | .hold, some value =>
      if isWord value ["exclusive", "normal"] then
        modify fun databases => databases.modifyChannel attachment.channel fun channel =>
          { channel with keepsHold := isWord value ["exclusive"] }
      return attachment
  | .hold, none => return attachment
  | .encoding, some value =>
      if isWord value ["utf8", "utf-8", "utf-16le", "utf-16be", "utf16le", "utf16be", "utf-16", "utf16"] then
        return attachment
      else if ← attachment.hasEncoding then return attachment
      else throw (.pragma (.unknownEncoding value))
  | .header, some _ =>
      opening attachment.touch
      return attachment
  | .header, none | .fixedHeader, _ =>
      let _ ← opening (Channel.look attachment.channel)
      return attachment
  | topic, value =>
      let _ ← opening (Channel.knowsTable attachment.channel)
      match topic, value with
      | .scratch, some value => opening (attachment.setScratch value)
      | .stored, some _ => opening attachment.touch
      | .freeing, _ => opening attachment.touchBlank
      | .vacuum, some value =>
          if isWord value ["full", "incremental"] ∨ Pragma.leadingNumber value = 1 ∨ Pragma.leadingNumber value = 2 then
            if ← opening attachment.isBlank then opening attachment.touchBlank
      | .table, some name => attachment.requireNamed name
      | .tableOrNumber, value =>
          if let some name := value then
            if ¬ name.head?.any PragmaWord.isDigit ∧ name.head? ≠ some 0x2D then attachment.requireNamed name
          let _ ← opening (Channel.look attachment.channel)
      | .looking, _ =>
          let _ ← opening (Channel.look attachment.channel)
      | _, _ => pure ()
      return attachment

def runText (attachment : Attachment) (text : Bytes) : DatabaseM OpenProblem Attachment :=
  (Pragma.parse (DatabaseName.untilZero text)).foldlM
    (fun attachment pragma => do
      match pragma with
      | .ok pragma => attachment.run pragma
      | .error problem => throw (.pragma problem))
    attachment

def checkStyle (parameters : Parameters) : Except OpenProblem Unit := do
  if let some name := parameters.first? (Bytes.of "_time_format") then
    if name ≠ Bytes.of "sqlite" then throw (.unknownTimeFormat name)
  if let some name := parameters.first? (Bytes.of "_txlock") then
    if ¬ isWord name ["deferred", "immediate", "exclusive"] then throw (.unknownLocking name)

/-! ## Connecting -/

def configure (attachment : Attachment) (parameters : Parameters) : DatabaseM OpenProblem Attachment := do
  let attachment ← (parameters.all (Bytes.of "_pragma")).foldlM runText attachment
  WorldM.ofExcept (checkStyle parameters)
  return attachment

def attachLocally (dsn : Bytes) : DatabaseM OpenProblem Attachment := do
  let (name, parameters) ← WorldM.ofExcept (DatabaseName.parse dsn)
  let (number, databases) ← WorldM.ofExcept ((← get).openChannel name)
  set databases
  let attachment : Attachment := ⟨number, false⟩
  tryCatch (attachment.configure parameters) fun problem => do
    modify attachment.detach
    throw problem

/-- What keeps a connection to a server from being made: something about its name, or that nobody answers. -/
def serverRefusal (driver dsn : Bytes) : Bytes :=
  if driver = Bytes.of "postgres" then ServerOptions.complaint dsn
  else if driver = Bytes.of "firebirdsql" ∧ ¬ dsn.contains 0x40 then Bytes.of "User unknown"
  else Bytes.of "connection refused"

/-- Makes a connection. Only one driver works without a server to connect to. -/
def attach (driver dsn : Bytes) : DatabaseM Bytes Attachment :=
  if driver = Bytes.of "sqlite" then ExceptT.adapt OpenProblem.text (attachLocally dsn)
  else if driver = Bytes.of "mysql" then
    match ServerName.parse dsn with
    | .error problem => throw problem.text
    | .ok name => throw name.refusal
  else throw (serverRefusal driver dsn)

end Attachment

end BraceLisp
