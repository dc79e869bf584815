/-!
# Numbers as text

Whole numbers are written in decimal, with a minus sign in front of negative ones, and read back from
the same form. Codes of characters are written in hexadecimal with a fixed number of digits.
-/

namespace BraceLisp.Decimal

def ofNat (n : Nat) : List Char :=
  Nat.toDigits 10 n

def ofInt : Int → List Char
  | .ofNat n => ofNat n
  | .negSucc n => '-' :: ofNat (n + 1)

def digitValue (c : Char) : Nat :=
  c.toNat - '0'.toNat

def toNat (digits : List Char) : Nat :=
  digits.foldl (fun n c => 10 * n + digitValue c) 0

/-- The integer written as digits with or without a minus sign in front. -/
def toInt : List Char → Int
  | [] => 0
  | c :: rest => if c = '-' then -(toNat rest : Int) else (toNat (c :: rest) : Int)

def hexDigit (n : Nat) : Char :=
  if n < 10 then Char.ofNat ('0'.toNat + n) else Char.ofNat ('a'.toNat + (n - 10))

/-- The last `width` hexadecimal digits of a number. -/
def hex : (width : Nat) → Nat → List Char
  | 0, _ => []
  | width + 1, n => hex width (n / 16) ++ [hexDigit (n % 16)]

end BraceLisp.Decimal
