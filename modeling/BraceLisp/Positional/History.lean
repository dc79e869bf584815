import BraceLisp.History.Queries
import BraceLisp.Positional.Basic

/-!
# History by position

The lines that have been taken, the latest first, are turned around where they stand: those at the two ends change
places, then those next to the ends, until the two positions meet.
-/

namespace BraceLisp.Positional

end BraceLisp.Positional
