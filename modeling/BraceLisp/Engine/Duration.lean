import BraceLisp.Text.Decimal
import BraceLisp.Text.Layout

/-!
# Durations

A span of time is written as numbers with units, such as `1h30m` or `-1.5s`. It is kept in nanoseconds and must
fit a word of 64 bits. Only whether a text is a duration matters here, and what is wrong if it is not.
-/

namespace BraceLisp

inductive DurationProblem where
  | malformed
  | noUnit
  | unknownUnit (unit : Bytes)
  deriving DecidableEq, Repr

namespace Duration

def isDigit (b : UInt8) : Bool := 0x30 ≤ b && b ≤ 0x39

def isNumeric (b : UInt8) : Bool := isDigit b || b = 0x2E

def numberOf (digits : Bytes) : Nat := digits.foldl (fun n b => 10 * n + (b.toNat - 0x30)) 0

/-- The length of a unit in nanoseconds. The prefix for a millionth has three spellings. -/
def unitLength? (unit : Bytes) : Option Nat :=
  let units : List (String × Nat) :=
    [("ns", 1), ("us", 1000), ("µs", 1000), ("μs", 1000), ("ms", 1000000), ("s", 1000000000),
     ("m", 60000000000), ("h", 3600000000000)]
  (units.find? fun entry => Bytes.of entry.1 == unit).map Prod.snd

/-- The greatest number of nanoseconds, and one more. -/
def limit : Nat := 0x8000000000000000

def amount (s : Bytes) : Except DurationProblem (Nat × Bytes) := do
  let whole := s.takeWhile isDigit
  let afterWhole := s.dropWhile isDigit
  let (fraction, rest) := match afterWhole with
    | 0x2E :: rest => (rest.takeWhile isDigit, rest.dropWhile isDigit)
    | rest => ([], rest)
  if limit < numberOf whole ∨ (whole.isEmpty ∧ fraction.isEmpty) then .error .malformed
  else
    let unit := rest.takeWhile fun b => !isNumeric b
    if unit.isEmpty then .error .noUnit
    else match unitLength? unit with
      | none => .error (.unknownUnit unit)
      | some length =>
          let total := numberOf whole * length + numberOf fraction * length / Nat.pow 10 fraction.length
          if limit < total then .error .malformed
          else return (total, rest.dropWhile fun b => !isNumeric b)

/-- The sum of the numbers with units that a text holds. `fuel` bounds how many there are. -/
def total : (fuel : Nat) → Bytes → Except DurationProblem Nat
  | _, [] => return 0
  | 0, _ => .error .malformed
  | fuel + 1, s => do
      let (first, rest) ← amount s
      let others ← total fuel rest
      if limit < first + others then .error .malformed else return first + others

def problem? (text : Bytes) : Option DurationProblem :=
  let (isNegative, s) := match text with
    | 0x2D :: rest => (true, rest)
    | 0x2B :: rest => (false, rest)
    | s => (false, s)
  if s = Bytes.of "0" then none
  else if s.isEmpty then some .malformed
  else match total s.length s with
    | .error problem => some problem
    | .ok n => if n = limit ∧ ¬ isNegative then some .malformed else none

/-- How a byte is shown between quotes: those that are not plain are given by their value. -/
def quotedByte (b : UInt8) : Bytes :=
  if b < 0x20 ∨ 0x80 ≤ b then Bytes.of "\\x" ++ Utf8.encode (Decimal.hex 2 b.toNat)
  else if b = 0x22 ∨ b = 0x5C then [0x5C, b]
  else [b]

def quoted (s : Bytes) : Bytes :=
  Bytes.of "\"" ++ s.flatMap quotedByte ++ Bytes.of "\""

def complaint (text : Bytes) : DurationProblem → Bytes
  | .malformed => Bytes.of "time: invalid duration " ++ quoted text
  | .noUnit => Bytes.of "time: missing unit in duration " ++ quoted text
  | .unknownUnit unit =>
      Bytes.of "time: unknown unit " ++ quoted unit ++ Bytes.of " in duration " ++ quoted text

end Duration

end BraceLisp
