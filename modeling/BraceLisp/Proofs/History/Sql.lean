import BraceLisp.History.Queries
import BraceLisp.Proofs.History.Table
import Mathlib.Data.Multiset.Count

/-!
# What is assumed of a library

Nothing can be said of the answers of a database unless something is assumed of it. What is assumed here is what the
statements about the table of history ask for, and no more: the table is there once it has been made sure of, an insert
that succeeds adds one row, a query for the lines finds all rows with the greatest stamps first, and a count counts.
Rows of a table have no order of their own, so a table is the multiset of its rows.
-/

namespace BraceLisp

/-! ## Steps of computations -/

namespace WorldM

variable {World ε ε' α β : Type} {action : WorldM World ε α} {next : α → WorldM World ε β} {world between : World}
  {a : α}

theorem on_adapt {f : ε → ε'} :
    WorldM.on (ExceptT.adapt f action) world = ((action.on world).1.mapError f, (action.on world).2) :=
  rfl

theorem on_adapt_eq_ok {f : ε → ε'} :
    WorldM.on (ExceptT.adapt f action) world = (.ok a, between) ↔ action.on world = (.ok a, between) := by
  rw [on_adapt]
  obtain ⟨result, after⟩ := action.on world
  cases result with
  | ok b => simp [Except.mapError]
  | error e => simp [Except.mapError]

end WorldM

namespace Sql

variable {World Handle Place : Type}

/-! ## What is seen of a world -/

/--
What can be seen of a world: the place that a handle leads to if it was opened with a driver and can be used, and the
rows of the table at a place, if there is a table.
-/
structure View (World Handle Place : Type) where
  leads : World → Handle → Bytes → Place → Prop
  table : World → Place → Option (Multiset HistoryRow)

structure View.Holds (view : View World Handle Place) (handle : Handle) (driver : Bytes) (place : Place)
    (table : Option (Multiset HistoryRow)) (world : World) : Prop where
  leads : view.leads world handle driver place
  table : view.table world place = table

/--
A library carries out the statements about the table of history as they are meant. An insert may fail for reasons of its
own.
-/
structure Keeps (sql : Sql World Handle) (view : View World Handle Place) : Prop where
  creates {world : World} {handle : Handle} {driver : Bytes} {place : Place} {table : Option (Multiset HistoryRow)}
      (holds : view.Holds handle driver place table world) :
    ∃ after, (sql.execute handle creation []).on world = (.ok (), after) ∧
      view.Holds handle driver place (some (table.getD 0)) after
  inserts {world after : World} {handle : Handle} {driver : Bytes} {place : Place} {table : Multiset HistoryRow}
      {row : HistoryRow} (holds : view.Holds handle driver place (some table) world)
      (succeeds : (sql.execute handle (insertion driver) row.values).on world = (.ok (), after)) :
    view.Holds handle driver place (some (row ::ₘ table)) after
  selects {world : World} {handle : Handle} {driver : Bytes} {place : Place} {table : Multiset HistoryRow}
      (holds : view.Holds handle driver place (some table) world) :
    ∃ (found : List HistoryRow) (after : World),
      (sql.texts handle selection []).on world = (.ok ⟨found.map fun row => .ok row.line, none⟩, after) ∧
      (found : Multiset HistoryRow) = table ∧ (found.Pairwise fun a b => b.stamp ≤ a.stamp) ∧
      view.Holds handle driver place (some table) after
  counts {world : World} {handle : Handle} {driver : Bytes} {place : Place} {table : Multiset HistoryRow}
      (holds : view.Holds handle driver place (some table) world) (session : Bytes) :
    ∃ after, (sql.number handle (counting driver) [.text session]).on world =
        (.ok (table.countP fun row => row.session = session), after) ∧
      view.Holds handle driver place (some table) after

/-- A name is one under which a place can be opened and reached with a driver, which leaves the table as it is. -/
inductive View.Opens (view : View World Handle Place) (sql : Sql World Handle) (driver dsn : Bytes) (place : Place)
    (table : Option (Multiset HistoryRow)) (world : World) : Prop where
  | intro {handle : Handle} {opened reached : World} (known : Driver.isDriver driver)
      (opens : (sql.openName driver dsn).on world = (.ok handle, opened))
      (reaches : (sql.ping handle).on opened = (.ok (), reached))
      (holds : view.Holds handle driver place table reached) : View.Opens view sql driver dsn place table world

/-! ## What a program finds -/

variable {sql : Sql World Handle} {view : View World Handle Place} {handle : Handle} {driver dsn : Bytes}
  {place : Place} {world after : World}

namespace Keeps

variable {table : Multiset HistoryRow}

theorem holds_of_addLine (h : sql.Keeps view) {row : HistoryRow}
    (hholds : view.Holds handle driver place (some table) world)
    (hadds : (sql.addLine handle driver row).on world = (.ok (), after)) :
    view.Holds handle driver place (some (row ::ₘ table)) after :=
  h.inserts hholds (WorldM.on_adapt_eq_ok.mp hadds)

end Keeps

end Sql

end BraceLisp
