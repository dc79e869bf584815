import BraceLisp.Text.Quoted

/-!
# What can go wrong with a history that is saved

Which step fails, and how that is reported in front of what the library says.
-/

namespace BraceLisp

inductive Query where
  | create
  | add
  | read
  | count
  deriving DecidableEq, Repr

inductive DatabaseError where
  | unknownDriver (driver : Bytes)
  | unopened (driver problem : Bytes)
  | unreached (driver problem : Bytes)
  | failed (query : Query) (problem : Bytes)
  | unclosed (problem : Bytes)
  deriving DecidableEq, Repr

def Query.complaint : Query → Bytes
  | .create => Bytes.of "can't create history table"
  | .add => Bytes.of "can't add line to history"
  | .read => Bytes.of "can't read history"
  | .count => Bytes.of "can't count history"

def DatabaseError.message : DatabaseError → Bytes
  | .unknownDriver driver => Bytes.of "unknown SQL driver " ++ Quoted.text driver
  | .unopened driver problem => Bytes.of "can't open " ++ driver ++ Bytes.of " database: " ++ problem
  | .unreached driver problem => Bytes.of "can't reach " ++ driver ++ Bytes.of " database: " ++ problem
  | .failed query problem => query.complaint ++ Bytes.of ": " ++ problem
  | .unclosed problem => Bytes.of "can't close history: " ++ problem

end BraceLisp
