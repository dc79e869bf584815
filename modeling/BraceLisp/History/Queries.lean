import BraceLisp.History.Driver
import BraceLisp.History.Problem
import BraceLisp.History.Sql
import BraceLisp.History.Table

/-!
# Statements about the table of history

What is sent to a database to keep history in it, in the dialect of its driver, and what becomes of the answers. The
latest rows come first, so lines are taken until there are as many as are wanted and then turned around.
-/

namespace BraceLisp

def HistoryRow.values (row : HistoryRow) : List SqlValue :=
  [.text row.session, .integer row.stamp, .text row.line]

/--
Takes lines behind those that have been taken already, as long as there are fewer than a limit. A problem behind the
rows is only noticed by those who want more.
-/
def TextRows.takeLines (limit : Int) (problem : Option Bytes) :
    List (Except Bytes Bytes) → List Bytes → Except Bytes (List Bytes)
  | [], lines =>
      match problem with
      | some problem => .error problem
      | none => .ok lines
  | row :: rest, lines =>
      if lines.length < limit then
        match row with
        | .error problem => .error problem
        | .ok line => takeLines limit problem rest (lines ++ [line])
      else .ok lines

namespace Sql

variable {World Handle ε α : Type}

/-! ## Statements -/

def tableName : Bytes := Bytes.of "sneed_history"

def creation : Bytes :=
  Bytes.of "CREATE TABLE IF NOT EXISTS " ++ tableName ++
    Bytes.of " (\n    session varchar(36),\n    stamp bigint,\n    line varchar(4000))"

def insertion (driver : Bytes) : Bytes :=
  Bytes.of "INSERT INTO " ++ tableName ++ Bytes.of " (session, stamp, line) VALUES (" ++
    Driver.placeholder driver 1 ++ Bytes.of ", " ++ Driver.placeholder driver 2 ++ Bytes.of ", " ++
    Driver.placeholder driver 3 ++ Bytes.of ")"

def selection : Bytes :=
  Bytes.of "SELECT line FROM " ++ tableName ++ Bytes.of " ORDER BY stamp DESC"

def counting (driver : Bytes) : Bytes :=
  Bytes.of "SELECT COUNT(*) FROM " ++ tableName ++ Bytes.of " WHERE session = " ++ Driver.placeholder driver 1

/-! ## Connecting -/

/-- Goes on to fail if an action fails, with the database closed; whether that fails as well is not minded. -/
def closingOnFailure (sql : Sql World Handle) (handle : Handle) (action : WorldM World ε α) : WorldM World ε α :=
  tryCatch action fun problem => do
    modify fun world => ((sql.close handle).on world).2
    throw problem

def connect (sql : Sql World Handle) (driver dsn : Bytes) : WorldM World DatabaseError Handle := do
  if ¬ Driver.isDriver driver then throw (.unknownDriver driver)
  let handle ← ExceptT.adapt (.unopened driver) (sql.openName driver dsn)
  sql.closingOnFailure handle (ExceptT.adapt (.unreached driver) (sql.ping handle))
  return handle

/-! ## Asking -/

def asking (query : Query) (action : WorldM World Bytes α) : WorldM World DatabaseError α :=
  ExceptT.adapt (.failed query) action

def createTable (sql : Sql World Handle) (handle : Handle) : WorldM World DatabaseError Unit :=
  asking .create (sql.execute handle creation [])

def addLine (sql : Sql World Handle) (handle : Handle) (driver : Bytes) (row : HistoryRow) :
    WorldM World DatabaseError Unit :=
  asking .add (sql.execute handle (insertion driver) row.values)

/-- At most `limit` of the latest lines, oldest first. -/
def latest (sql : Sql World Handle) (handle : Handle) (limit : Int) : WorldM World DatabaseError (List Bytes) :=
  asking .read do
    let found ← sql.texts handle selection []
    let lines ← WorldM.ofExcept (TextRows.takeLines limit found.problem found.rows [])
    return lines.reverse

def countSession (sql : Sql World Handle) (handle : Handle) (driver session : Bytes) :
    WorldM World DatabaseError Int :=
  asking .count (sql.number handle (counting driver) [.text session])

end Sql

end BraceLisp
