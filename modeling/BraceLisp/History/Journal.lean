import BraceLisp.Engine.Library
import BraceLisp.History.Chronicle

/-!
# Journals

Chronicles that are saved in the databases of the disk and of the memory.
-/

namespace BraceLisp

namespace Connection

def connect (driver dsn : Bytes) : DatabaseM DatabaseError Connection :=
  Databases.library.connect driver dsn

def createTable (connection : Connection) : DatabaseM DatabaseError Unit :=
  Databases.library.createTable connection

def addRow (connection : Connection) (row : HistoryRow) : DatabaseM DatabaseError Unit :=
  Databases.library.addLine connection Databases.localDriver row

def latest (connection : Connection) (limit : Int) : DatabaseM DatabaseError (List Bytes) :=
  Databases.library.latest connection limit

def countSession (connection : Connection) (session : Bytes) : DatabaseM DatabaseError Int :=
  Databases.library.countSession connection Databases.localDriver session

def close (connection : Connection) (databases : Databases) : Connection × Databases :=
  (connection, ((Databases.library.close connection).on databases).2)

end Connection

abbrev Journal := Chronicle Connection

namespace Journal

def noLine (index : Int) : Bytes :=
  Bytes.of "no line " ++ Utf8.encode (Decimal.ofInt index) ++ Bytes.of " in history"

def openSaved (driver dsn : Bytes) (limit : Int) (session : Bytes) :
    DatabaseM DatabaseError (Journal × List LogEntry) :=
  Chronicle.openSaved Databases.library driver dsn limit session

def write (databases : Databases) (clock : Int64) (line : Bytes) (journal : Journal) :
    Journal × List LogEntry × Databases :=
  Chronicle.write Databases.library databases clock line journal

def close? (databases : Databases) (journal : Journal) : Option (Journal × Databases) :=
  (Chronicle.close? Databases.library journal).map fun action => (journal, (action.on databases).2)

end Journal

end BraceLisp
