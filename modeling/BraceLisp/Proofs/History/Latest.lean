import BraceLisp.Proofs.History.InMemory
import BraceLisp.Proofs.Positional.History

/-!
# The latest lines of a history

Sessions add rows in any order, through any handles that lead to the table, and their stamps have nothing to do with
that order. If no two stamps are the same, the lines that are found are those of the rows with the greatest stamps, the
oldest of them first, and each session has added as many rows as it is said to have.
-/

namespace BraceLisp

namespace HistoryTable

end HistoryTable

open HistoryTable

namespace Sql

variable {World Handle Place : Type}

/-! ## Adding rows -/

/--
Rows are added to the table at a place, one after another and by anybody who has a handle that leads to it. Anything
else may happen in between that leaves the table as it is: handles come and go, and others are asked.
-/
inductive Added (sql : Sql World Handle) (view : View World Handle Place) (place : Place) (start : World) :
    List HistoryRow → World → Prop where
  | none : Added sql view place start [] start
  | meanwhile {rows : List HistoryRow} {between after : World} (added : Added sql view place start rows between)
      (same : view.table after place = view.table between place) : Added sql view place start rows after
  | row {rows : List HistoryRow} {between after : World} {handle : Handle} {driver : Bytes} {row : HistoryRow}
      (added : Added sql view place start rows between) (leads : view.leads between handle driver place)
      (adds : (sql.addLine handle driver row).on between = (.ok (), after)) :
      Added sql view place start (rows ++ [row]) after

variable {sql : Sql World Handle} {view : View World Handle Place} {place : Place} {start after : World}
  {rows : List HistoryRow}

/-- The rows that have been added to an empty table are all that it has. -/
theorem Added.table (h : Added sql view place start rows after) (hkeeps : sql.Keeps view)
    (hstart : view.table start place = some 0) : view.table after place = some rows := by
  induction h with
  | none => exact hstart
  | meanwhile _ same ih => exact same.trans ih
  | row _ leads adds ih =>
      rw [(hkeeps.holds_of_addLine ⟨leads, ih⟩ adds).table, Multiset.cons_coe]
      exact congrArg some (Multiset.coe_eq_coe.mpr (List.perm_append_singleton _ _).symm)

end Sql

/-! ## Asking for them -/

open Sql

end BraceLisp
