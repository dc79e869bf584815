import BraceLisp.Fault.Basic

/-!
# Arithmetic

The operations of arithmetic on any number of arguments, from left to right. A step computes with 64-bit
words, and fails if it divides by zero or if the signs of the words show that the result did not fit. A
single argument stays as it is, except that subtraction negates it.
-/

namespace BraceLisp.ArithOp

/-- The word that an operation computes; what does not fit in 64 bits is lost. Division rounds toward zero. -/
def word : ArithOp → Int64 → Int64 → Int64
  | .add, x, y => x + y
  | .sub, x, y => x - y
  | .mul, x, y => x * y
  | .div, x, y => x / y

/-- Whether exactly one of two words is negative, so that their product and their quotient are not positive. -/
def haveMixedSigns (x y : Int64) : Bool :=
  decide (x < 0) != decide (y < 0)

/--
Whether the word `z` computed from `x` and `y` is the exact result. A sum is greater than `x` just when `y`
is positive, and a difference is less; a product has the sign that its factors give it and can be divided
again; a quotient is zero or has the sign that its terms give it.
-/
def isExact (op : ArithOp) (x y z : Int64) : Bool :=
  match op with
  | .add => decide (x < z) == decide (0 < y)
  | .sub => decide (z < x) == decide (0 < y)
  | .mul => x == 0 || y == 0 || (decide (z < 0) == haveMixedSigns x y && z / y == x)
  | .div => z == 0 || decide (z < 0) == haveMixedSigns x y

def step (op : ArithOp) (x y : Int64) : Except Fault Int64 :=
  if op = .div ∧ y = 0 then .error .divisionByZero
  else
    let z := op.word x y
    if op.isExact x y z then .ok z else .error (.overflow (.text op.name))

/-- The steps over a list of numbers, up to the first that fails. -/
def fold (op : ArithOp) : Int64 → List Int64 → Except Fault Int64
  | x, [] => .ok x
  | x, y :: rest =>
      match op.step x y with
      | .ok z => op.fold z rest
      | .error fault => .error fault

def run (op : ArithOp) : List Int64 → Except Fault Int64
  | [] => .error (.argNone (.text op.name))
  | [x] => if op = .sub then op.step 0 x else .ok x
  | x :: y :: rest => op.fold x (y :: rest)

end BraceLisp.ArithOp
