import BraceLisp.Engine.Pragma
import BraceLisp.Engine.Server

/-!
# What can go wrong with databases

Why a name leads to no database, why a query has no answer, and how the engine puts either.
-/

namespace BraceLisp

inductive QueryProblem where
  | notUnderstood
  | noTable
  | foreign
  | damaged
  | readOnly
  | unfinished
  | moved
  | vanished
  | noScratch
  | badScratch
  | badLog
  | busy
  deriving DecidableEq, Repr

inductive OpenProblem where
  | parameters (problem : ParameterProblem)
  | conflict (names : List Bytes)
  | malformed
  | forbidden
  | unopenable
  | unreadable
  | pragma (problem : PragmaProblem)
  | query (problem : QueryProblem)
  | unknownTimeFormat (name : Bytes)
  | unknownLocking (name : Bytes)
  deriving DecidableEq, Repr

namespace QueryProblem

def text : QueryProblem → Bytes
  | .notUnderstood => Bytes.of "SQL logic error (1)"
  | .noTable => Bytes.of "SQL logic error: no such table: sneed_history (1)"
  | .foreign => Bytes.of "file is not a database (26)"
  | .damaged => Bytes.of "database disk image is malformed (11)"
  | .readOnly => Bytes.of "attempt to write a readonly database (8)"
  | .unfinished => Bytes.of "attempt to write a readonly database (776)"
  | .moved => Bytes.of "attempt to write a readonly database (1032)"
  | .vanished => Bytes.of "disk I/O error (1802)"
  | .noScratch => Bytes.of "unable to open database file (14)"
  | .badScratch => Bytes.of "disk I/O error (266)"
  | .badLog => Bytes.of "disk I/O error (2570)"
  | .busy => Bytes.of "database is locked (5) (SQLITE_BUSY)"

end QueryProblem

namespace OpenProblem

def text : OpenProblem → Bytes
  | .parameters problem => problem.text
  | .conflict names =>
      Bytes.of "conflicting vfs query parameters: [" ++ Layout.separate (Bytes.of " ") names ++ Bytes.of "]"
  | .malformed => Bytes.of "SQL logic error: out of memory (1)"
  | .forbidden => Bytes.of "access permission denied: out of memory (3)"
  | .unopenable => Bytes.of "unable to open database file: out of memory (14)"
  | .unreadable => Bytes.of "disk I/O error: out of memory (10)"
  | .pragma problem => problem.text
  | .query problem => problem.text
  | .unknownTimeFormat name => Bytes.of "unknown _time_format " ++ Quoted.text name
  | .unknownLocking name => Bytes.of "unknown _txlock " ++ Quoted.text name

end OpenProblem

end BraceLisp
