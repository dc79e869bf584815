import BraceLisp.History.Queries

/-!
# The history of a prompt

The lines that a prompt has seen, oldest first. A chronicle can also save each line in a database, and starts with the
lines that it finds there. A line that cannot be saved is kept all the same, and the failure logged.
-/

namespace BraceLisp

inductive LogLevel where
  | debug
  | warn
  deriving DecidableEq, Repr

/-- An entry of the log: its level, its message, the error it is about, if any, and what else it names. -/
structure LogEntry where
  level : LogLevel
  message : Bytes
  error : Bytes
  fields : List (Bytes × Bytes)
  deriving DecidableEq, Repr

def LogLevel.name : LogLevel → Bytes
  | .debug => Bytes.of "debug"
  | .warn => Bytes.of "warn"

/-- Where a chronicle saves its lines, and the last stamp that it has given out. -/
structure Saving (Handle : Type) where
  handle : Handle
  driver : Bytes
  session : Bytes
  stamp : Int64
  deriving DecidableEq, Repr

structure Chronicle (Handle : Type) where
  lines : Array Bytes
  saving : Option (Saving Handle)
  deriving DecidableEq, Repr

namespace Chronicle

variable {World Handle : Type}

def empty : Chronicle Handle := ⟨#[], none⟩

instance : Inhabited (Chronicle Handle) := ⟨empty⟩

def size (chronicle : Chronicle Handle) : Nat := chronicle.lines.size

def line? (chronicle : Chronicle Handle) (index : Int) : Option Bytes :=
  if index < 0 then none else chronicle.lines[index.toNat]?

/-- The stamp of the next line: the time, or one more than the last stamp if the clock has not moved on. -/
def nextStamp (last clock : Int64) : Int64 :=
  if clock ≤ last then last + 1 else clock

/-- The lines that a chronicle starts with; the database has the table afterwards. -/
def load (sql : Sql World Handle) (handle : Handle) (limit : Int) : WorldM World DatabaseError (List Bytes) := do
  sql.createTable handle
  sql.latest handle limit

def openSaved (sql : Sql World Handle) (driver dsn : Bytes) (limit : Int) (session : Bytes) :
    WorldM World DatabaseError (Chronicle Handle × List LogEntry) := do
  let handle ← sql.connect driver dsn
  let lines ← sql.closingOnFailure handle (load sql handle limit)
  return (⟨lines.toArray, some ⟨handle, driver, session, 0⟩⟩,
    [⟨.debug, Bytes.of "opened history", [],
      [(Bytes.of "driver", driver), (Bytes.of "session", session),
        (Bytes.of "lines", Utf8.encode (Decimal.ofNat lines.length))]⟩])

def write (sql : Sql World Handle) (world : World) (clock : Int64) (line : Bytes) :
    Chronicle Handle → Chronicle Handle × List LogEntry × World
  | ⟨lines, none⟩ => (⟨lines.push line, none⟩, [], world)
  | ⟨lines, some saving⟩ =>
      let stamp := nextStamp saving.stamp clock
      let after : Chronicle Handle := ⟨lines.push line, some { saving with stamp }⟩
      match (sql.addLine saving.handle saving.driver ⟨saving.session, stamp, line⟩).on world with
      | (.ok _, world) => (after, [], world)
      | (.error e, world) =>
          (after, [⟨.warn, Bytes.of "history line not saved", e.message, [(Bytes.of "session", saving.session)]⟩],
            world)

def close? (sql : Sql World Handle) (chronicle : Chronicle Handle) : Option (WorldM World DatabaseError Unit) :=
  chronicle.saving.map fun saving => ExceptT.adapt .unclosed (sql.close saving.handle)

end Chronicle

end BraceLisp
