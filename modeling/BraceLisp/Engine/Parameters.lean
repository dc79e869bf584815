import BraceLisp.Text.Layout

/-!
# Parameters

Parameters follow the name of a database: keys with values, separated by ampersands. A byte can be given by a
percent sign and two hexadecimal digits, and a plus sign stands for a space.
-/

namespace BraceLisp

inductive ParameterProblem where
  | semicolon
  | brokenEscape (escape : Bytes)
  deriving DecidableEq, Repr

abbrev Parameters := List (Bytes × Bytes)

namespace Parameters

def cutAt (b : UInt8) (s : Bytes) : Bytes × Bytes :=
  (s.takeWhile (· != b), (s.dropWhile (· != b)).drop 1)

/-- The parts of a query, each up to its first equals sign and from there on. -/
def pairs (query : Bytes) : Parameters :=
  (Layout.parts 0x26 query).map (cutAt 0x3D)

def assignments (query : Bytes) : Parameters :=
  ((Layout.parts 0x26 query).filter fun part => part.contains 0x3D).map (cutAt 0x3D)

/-! ## Escapes -/

def percentSign : UInt8 := 0x25

def plusSign : UInt8 := 0x2B

def hexValue? (b : UInt8) : Option Nat :=
  let n := b.toNat
  if 0x30 ≤ n ∧ n ≤ 0x39 then some (n - 0x30)
  else if 0x41 ≤ n ∧ n ≤ 0x46 then some (n - 0x41 + 10)
  else if 0x61 ≤ n ∧ n ≤ 0x66 then some (n - 0x61 + 10)
  else none

def octet? : Bytes → Option Nat
  | high :: low :: _ => do
      let x ← hexValue? high
      let y ← hexValue? low
      some (16 * x + y)
  | _ => none

/-- The first percent sign that does not have its two digits, with what there is of them. -/
def brokenEscape? : Bytes → Option Bytes
  | [] => none
  | b :: rest =>
      if b = percentSign ∧ octet? rest = none then some ((b :: rest).take 3)
      else brokenEscape? rest

/--
A text with its escapes replaced by the bytes they stand for, and plus signs by spaces. `skip` counts the
digits that belong to an escape already replaced.
-/
def decodeFrom : (skip : Nat) → Bytes → Bytes
  | _, [] => []
  | skip + 1, _ :: rest => decodeFrom skip rest
  | 0, b :: rest =>
      if b = percentSign then
        match octet? rest with
        | some n => UInt8.ofNat n :: decodeFrom 2 rest
        | none => b :: decodeFrom 0 rest
      else (if b = plusSign then Layout.space else b) :: decodeFrom 0 rest

def decode (s : Bytes) : Except ParameterProblem Bytes :=
  match brokenEscape? s with
  | some escape => .error (.brokenEscape escape)
  | none => .ok (decodeFrom 0 s)

/-! ## Reading and using parameters -/

def decodePair : Bytes × Bytes → Except ParameterProblem (Bytes × Bytes)
  | (key, value) => do return (← decode key, ← decode value)

/-- The parameters of a query. A semicolon anywhere is worse than any broken escape. -/
def parse (query : Bytes) : Except ParameterProblem Parameters :=
  if query.contains 0x3B then .error .semicolon
  else (pairs query).mapM decodePair

def all (parameters : Parameters) (key : Bytes) : List Bytes :=
  (parameters.filter fun parameter => parameter.1 == key).map Prod.snd

def first? (parameters : Parameters) (key : Bytes) : Option Bytes :=
  match (parameters.all key).head? with
  | some (b :: rest) => some (b :: rest)
  | _ => none

end Parameters

end BraceLisp
