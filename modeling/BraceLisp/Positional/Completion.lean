import BraceLisp.Positional.Basic
import BraceLisp.Repl.Completion

/-!
# Completion by position

A line as the numbers in it, of which some may be the number of no character. The stem is found by going back from
the cursor, one position at a time, and the endings are cut off the names behind it.
-/

namespace BraceLisp.Positional

def portion {α : Type} (entries : List α) (low high : Int) : Except Breakdown (List α) :=
  if 0 ≤ low ∧ low ≤ high ∧ high ≤ entries.length then .ok ((entries.take high.toNat).drop low.toNat)
  else .error .outOfRange

/-- The character with a number; the number of no character is seen as the replacement character. -/
def toChar (code : Int) : Char := (CharClass.ofCode? code).getD '\uFFFD'

/-- Goes back from a position for as long as there is a symbol character in front of it. -/
def stemStart (line : List Int) (start : Int) : Except Breakdown Int :=
  if 0 < start then do
    let code ← entryAt line (start - 1)
    if CharClass.holdsOfCode CharClass.isSymbolChar code then stemStart line (start - 1) else return start
  else return start
termination_by start.toNat

/-- Adds to some suggestions what each name has after a stem that is its proper beginning. -/
def addEndings (stem : Bytes) : List Bytes → List Bytes → Except Breakdown (List Bytes)
  | [], suggestions => return suggestions
  | name :: rest, suggestions =>
      if stem.isPrefixOf name ∧ name ≠ stem then do
        let ending ← slice name stem.length name.length
        addEndings stem rest (suggestions ++ [ending])
      else addEndings stem rest suggestions

def complete (names : List Bytes) (line : List Int) (cursor : Int) : Except Breakdown (Bytes × List Bytes) := do
  let start ← stemStart line cursor
  let codes ← portion line start cursor
  let stem := Utf8.encode (codes.map toChar)
  if stem = [] then return (stem, [])
  else
    let suggestions ← addEndings stem (Completion.sorted names) []
    return (stem, suggestions)

end BraceLisp.Positional
