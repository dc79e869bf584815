/-!
# 64-bit numbers

The numbers of the language are the integers that fit in 64 bits with a sign.
-/

namespace BraceLisp.Number

def least : Int := -9223372036854775808

def greatest : Int := 9223372036854775807

def ofInt? (n : Int) : Option Int64 :=
  if least ≤ n ∧ n ≤ greatest then some (Int64.ofInt n) else none

end BraceLisp.Number
