import BraceLisp.Text.Utf8

/-!
# Databases that are asked

A program asks databases through a library: it opens them by the name of a driver and that of a source, sends them
statements with values for the parameters, and closes them. What the answers are, and what they hang on, is up to the
library. Here a library is whatever gives answers, which may change a world that nothing is known about.
-/

namespace BraceLisp

/-- A computation that changes a world, whether or not it ends with an error. -/
abbrev WorldM (World ε : Type) := ExceptT ε (StateM World)

namespace WorldM

variable {World ε α : Type}

def on (action : WorldM World ε α) (world : World) : Except ε α × World :=
  (ExceptT.run action).run world

def ofExcept (result : Except ε α) : WorldM World ε α :=
  ExceptT.mk (pure result)

end WorldM

inductive SqlValue where
  | text (s : Bytes)
  | integer (n : Int64)
  deriving DecidableEq, Repr

/--
The rows of an answer, each of them read as a text if it can be, and the problem that keeps further rows from coming
if there is one.
-/
structure TextRows where
  rows : List (Except Bytes Bytes)
  problem : Option Bytes

/--
A library that speaks to databases, by its answers; problems are told in words. Opening need not reach a database, and
what is asked for with `number` is a single row.
-/
structure Sql (World Handle : Type) where
  openName (driver dsn : Bytes) : WorldM World Bytes Handle
  ping (handle : Handle) : WorldM World Bytes Unit
  execute (handle : Handle) (statement : Bytes) (values : List SqlValue) : WorldM World Bytes Unit
  texts (handle : Handle) (statement : Bytes) (values : List SqlValue) : WorldM World Bytes TextRows
  number (handle : Handle) (statement : Bytes) (values : List SqlValue) : WorldM World Bytes Int
  close (handle : Handle) : WorldM World Bytes Unit

end BraceLisp
