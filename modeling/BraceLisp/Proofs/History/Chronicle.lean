import BraceLisp.History.Chronicle
import BraceLisp.Proofs.History.InMemory

/-!
# History that is saved

The lines of a chronicle and the rows of its table are kept in step by every line that is written. A line that is
written gets a greater stamp than all rows before it, whatever the clock says, so the table can be put in the order in
which its rows were written. That order is the one in which a chronicle finds the lines when the table is opened again.
-/

namespace BraceLisp.Chronicle

open HistoryTable

/-! ## Stamps -/

/-- The stamp of the next line is the time, or one more than the last stamp if that is greater. -/
theorem toInt_nextStamp {last : Int64} (h : last.toInt < Int64.maxValue.toInt) (clock : Int64) :
    (nextStamp last clock).toInt = max clock.toInt (last.toInt + 1) := by
  have hone : (last + 1).toInt = last.toInt + 1 := by
    have hleast := Int64.le_toInt last
    have hmax : Int64.maxValue.toInt = 2 ^ 63 - 1 := rfl
    have hsum : (last.toInt + 1).bmod (2 ^ 64) = last.toInt + 1 := Int.bmod_eq_of_le (by omega) (by omega)
    rw [Int64.toInt_add, Int64.toInt_one, hsum]
  unfold nextStamp
  split
  · rename_i hle
    have hle := Int64.le_iff_toInt_le.mp hle
    rw [hone]
    omega
  · rename_i hle
    have hless : ¬ clock.toInt ≤ last.toInt := fun hclock => hle (Int64.le_iff_toInt_le.mpr hclock)
    omega

theorem lt_nextStamp {last : Int64} (h : last.toInt < Int64.maxValue.toInt) (clock : Int64) :
    last < nextStamp last clock := by
  rw [Int64.lt_iff_toInt_lt, toInt_nextStamp h]
  omega

variable {World Handle Place : Type} {sql : Sql World Handle} {view : Sql.View World Handle Place}
  {driver dsn session : Bytes} {place : Place} {world after : World} {rows : List HistoryRow}

/-! ## Opening -/

/--
Stamps for some lines are greater than those of the rows: that of the first line is, the latest stamp leaves room for
all of them, and the clock is as far from the last stamp there is.
-/
structure Ahead (latest : Int64) (rows : List HistoryRow) (entries : List (Int64 × Bytes)) : Prop where
  first : ∀ entry ∈ entries.head?, ∀ row ∈ rows, row.stamp < nextStamp latest entry.1
  room : latest.toInt + entries.length ≤ Int64.maxValue.toInt
  clocks : ∀ entry ∈ entries, entry.1.toInt + entries.length ≤ Int64.maxValue.toInt

/-- When the first of the lines has its stamp, the stamps of the others are greater than those of all rows again. -/
theorem Ahead.next {latest clock : Int64} {line : Bytes} {rows : List HistoryRow} {rest : List (Int64 × Bytes)}
    (h : Ahead latest rows ((clock, line) :: rest)) (session : Bytes) :
    Ahead (nextStamp latest clock) (rows ++ [⟨session, nextStamp latest clock, line⟩]) rest := by
  obtain ⟨hfirst, hroom, hclocks⟩ := h
  obtain ⟨hclock, hothers⟩ := List.forall_mem_cons.mp hclocks
  rw [List.length_cons] at hroom
  simp only [List.length_cons] at hclock hothers
  have hstamp : (nextStamp latest clock).toInt = max clock.toInt (latest.toInt + 1) := toInt_nextStamp (by omega) clock
  constructor
  · intro entry hentry row hrow
    have hpositive : 0 < rest.length := List.length_pos_iff.mpr fun hnil => by simp [hnil] at hentry
    have hnext : nextStamp latest clock < nextStamp (nextStamp latest clock) entry.1 :=
      lt_nextStamp (by omega) entry.1
    rcases List.mem_append.mp hrow with hold | hnew
    · exact Int64.lt_trans (hfirst (clock, line) rfl row hold) hnext
    · obtain rfl := List.mem_singleton.mp hnew
      exact hnext
  · omega
  · intro entry hentry
    have hentryClock := hothers entry hentry
    omega

end BraceLisp.Chronicle
