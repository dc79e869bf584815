import BraceLisp.Text.Decimal
import BraceLisp.Text.Utf8

/-!
# Database drivers

The databases that history can be kept in, the drivers that speak to them, and how each driver writes the
parameters of a query.
-/

namespace BraceLisp.Driver

def databases : List (Bytes × Bytes) :=
  [(Bytes.of "Firebird SQL", Bytes.of "firebirdsql"), (Bytes.of "MariaDB", Bytes.of "mysql"),
   (Bytes.of "MySQL", Bytes.of "mysql"), (Bytes.of "Oracle", Bytes.of "oracle"),
   (Bytes.of "Postgres", Bytes.of "postgres"), (Bytes.of "SQL Server", Bytes.of "sqlserver"),
   (Bytes.of "SQLite", Bytes.of "sqlite")]

def isDriver (name : Bytes) : Bool :=
  databases.any fun entry => entry.2 == name

def databaseNames : List Bytes :=
  databases.map Prod.fst

def options : Bytes :=
  Bytes.of "The following SQL drivers are available: \n\n" ++
    databases.flatMap fun (database, driver) =>
      Bytes.of "  " ++ database ++ Bytes.of " (--history-driver " ++ driver ++ Bytes.of ")\n"

/-- The parameter with number `n` of a query, as a driver wants it written. -/
def placeholder (driver : Bytes) (n : Int) : Bytes :=
  let number := Utf8.encode (Decimal.ofInt n)
  if driver = Bytes.of "postgres" then Bytes.of "$" ++ number
  else if driver = Bytes.of "oracle" then Bytes.of ":" ++ number
  else if driver = Bytes.of "sqlserver" then Bytes.of "@p" ++ number
  else Bytes.of "?"

end BraceLisp.Driver
