import BraceLisp.Proofs.History.Sql
import Mathlib.Logic.Function.Basic

/-!
# Tables in memory

A library that keeps tables by the names of their sources and carries out the statements about the table of history, in
the dialect of the driver that a source was opened with. It does all that is assumed of a library.
-/

namespace BraceLisp.Sql.InMemory

abbrev Tables := Bytes → Option HistoryTable

structure Handle where
  driver : Bytes
  dsn : Bytes
  deriving DecidableEq, Repr

def syntaxError : Bytes := Bytes.of "syntax error"

def noTable : Bytes := Bytes.of "no such table"

def execute (handle : Handle) (statement : Bytes) (values : List SqlValue) : WorldM Tables Bytes Unit :=
  ExceptT.mk fun tables =>
    match values, tables handle.dsn with
    | [], found =>
        if statement = creation then (.ok (), Function.update tables handle.dsn (some (found.getD [])))
        else (.error syntaxError, tables)
    | [.text session, .integer stamp, .text line], some table =>
        if statement = insertion handle.driver then
          (.ok (), Function.update tables handle.dsn (some (table.add ⟨session, stamp, line⟩)))
        else (.error syntaxError, tables)
    | _, none => (.error noTable, tables)
    | _, _ => (.error syntaxError, tables)

def texts (handle : Handle) (statement : Bytes) (values : List SqlValue) : WorldM Tables Bytes TextRows :=
  ExceptT.mk fun tables =>
    match tables handle.dsn with
    | some table =>
        if statement = selection ∧ values = [] then
          (.ok ⟨(HistoryTable.latestFirst table).map fun row => .ok row.line, none⟩, tables)
        else (.error syntaxError, tables)
    | none => (.error noTable, tables)

def number (handle : Handle) (statement : Bytes) (values : List SqlValue) : WorldM Tables Bytes Int :=
  ExceptT.mk fun tables =>
    match values, tables handle.dsn with
    | [.text session], some table =>
        if statement = counting handle.driver then (.ok (HistoryTable.countSession table session), tables)
        else (.error syntaxError, tables)
    | _, none => (.error noTable, tables)
    | _, _ => (.error syntaxError, tables)

def library : Sql Tables Handle where
  openName driver dsn := return ⟨driver, dsn⟩
  ping _ := return
  execute := execute
  texts := texts
  number := number
  close _ := return

def view : View Tables Handle Bytes where
  leads _ handle driver dsn := handle = ⟨driver, dsn⟩
  table tables dsn := (tables dsn).map Multiset.ofList

variable {tables : Tables} {driver dsn : Bytes} {table : HistoryTable}

/-- Whatever the name of a source, it can be opened with a driver that is known. -/
theorem opens (tables : Tables) (dsn : Bytes) (h : Driver.isDriver driver) :
    view.Opens library driver dsn dsn ((tables dsn).map Multiset.ofList) tables :=
  .intro h rfl rfl ⟨rfl, rfl⟩

end BraceLisp.Sql.InMemory
