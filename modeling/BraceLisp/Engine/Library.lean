import BraceLisp.Engine.Connect

/-!
# A library of databases

The databases of the disk and of the memory as a library that programs can ask. It understands the statements about
the table of history in the dialect of the driver that works without a server, and no others. A connection is made when
a database is first asked for something. Histories are kept here when programs run; what is proved of them holds of every
library that does what is assumed of one.
-/

namespace BraceLisp

namespace Connection

def standing (connection : Connection) (databases : Databases) : Standing :=
  databases.connections.getD connection.number .closed

def become (connection : Connection) (standing : Standing) : DatabaseM Bytes Unit :=
  modify fun databases =>
    { databases with connections := databases.connections.set connection.number standing }

/-- What a connection has been made to; it is made now if it never was. -/
def reach (connection : Connection) : DatabaseM Bytes Attachment := do
  match connection.standing (← get) with
  | .attached attachment => return attachment
  | .closed => throw (Bytes.of "sql: database is closed")
  | .named driver dsn =>
      let attachment ← Attachment.attach driver dsn
      connection.become (.attached attachment)
      return attachment

def ask {α : Type} (connection : Connection) (action : Attachment → DatabaseM QueryProblem α) : DatabaseM Bytes α := do
  let attachment ← connection.reach
  ExceptT.adapt QueryProblem.text (action attachment)

def shut (connection : Connection) : DatabaseM Bytes Unit := do
  if let .attached attachment := connection.standing (← get) then modify attachment.detach
  connection.become .closed

end Connection

namespace Databases

def localDriver : Bytes := Bytes.of "sqlite"

/-- Opens a database, which fails only if its name is checked before anyone tries to reach the server. -/
def openName (driver dsn : Bytes) : DatabaseM Bytes Connection := do
  if driver = Bytes.of "mysql" then
    if let .error problem := ServerName.parse dsn then throw problem.text
  let databases ← get
  set { databases with connections := databases.connections ++ [Standing.named driver dsn] }
  return ⟨databases.connections.length⟩

def execute (attachment : Attachment) (statement : Bytes) (values : List SqlValue) : DatabaseM QueryProblem Unit :=
  match values with
  | [] => if statement = Sql.creation then attachment.createTable else throw .notUnderstood
  | [.text session, .integer stamp, .text line] =>
      if statement = Sql.insertion localDriver then attachment.addRow ⟨session, stamp, line⟩ else throw .notUnderstood
  | _ => throw .notUnderstood

def texts (attachment : Attachment) (statement : Bytes) (values : List SqlValue) : DatabaseM QueryProblem TextRows :=
  if statement = Sql.selection ∧ values = [] then do
    let table ← attachment.rows
    return ⟨(HistoryTable.latestFirst table).map fun row => .ok row.line, none⟩
  else throw .notUnderstood

def number (attachment : Attachment) (statement : Bytes) (values : List SqlValue) : DatabaseM QueryProblem Int :=
  match values with
  | [.text session] =>
      if statement = Sql.counting localDriver then
        return HistoryTable.countSession (← attachment.rows) session
      else throw .notUnderstood
  | _ => throw .notUnderstood

def library : Sql Databases Connection where
  openName := openName
  ping connection := connection.ask fun _ => return
  execute connection statement values := connection.ask fun attachment => execute attachment statement values
  texts connection statement values := connection.ask fun attachment => texts attachment statement values
  number connection statement values := connection.ask fun attachment => number attachment statement values
  close := Connection.shut

end Databases

end BraceLisp
