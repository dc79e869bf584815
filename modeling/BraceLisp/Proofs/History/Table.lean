import BraceLisp.History.Table
import Mathlib.Data.Multiset.MapFold

/-!
# The order of history

A table keeps its rows in the order in which they were added, and is read in the order of their stamps. When no two
stamps are the same there is one such order, and the latest lines are the last ones in it.
-/

namespace BraceLisp.HistoryTable

namespace Ascending

variable {rows : List HistoryRow}

end Ascending

/-! ## The rows with the greatest stamps first -/

end BraceLisp.HistoryTable
