import BraceLisp.Text.Utf8

/-!
# The table of history

History is a table of lines, each with the session that wrote it and a stamp that tells when. Rows are added
in any order; the latest lines are those of the greatest stamps.
-/

namespace BraceLisp

structure HistoryRow where
  session : Bytes
  stamp : Int64
  line : Bytes
  deriving DecidableEq, Repr

/-- The rows of history, the one added last first. -/
abbrev HistoryTable := List HistoryRow

namespace HistoryTable

def add (table : HistoryTable) (row : HistoryRow) : HistoryTable :=
  row :: table

/-- The rows with the greatest stamps first; of rows with the same stamp, the one added first comes first. -/
def latestFirst (table : HistoryTable) : List HistoryRow :=
  table.reverse.mergeSort fun a b => decide (b.stamp ≤ a.stamp)

def countSession (table : HistoryTable) (session : Bytes) : Nat :=
  List.countP (fun row => row.session == session) table

end HistoryTable

end BraceLisp
