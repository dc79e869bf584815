import BraceLisp.Environment.Bindings
import BraceLisp.Text.CharClass

/-!
# Completion of names

The names that the symbol in front of the cursor could be the beginning of.
-/

namespace BraceLisp.Completion

def sorted (names : List Bytes) : List Bytes :=
  names.mergeSort fun a b => decide (a ≤ b)

def stem (text : List Char) : List Char :=
  (text.reverse.takeWhile CharClass.isSymbolChar).reverse

/-- What a name has after a stem that is its proper beginning. -/
def ending? (stem name : Bytes) : Option Bytes :=
  if stem.isPrefixOf name ∧ name ≠ stem then some (name.drop stem.length) else none

def endings (names : List Bytes) (stem : Bytes) : List Bytes :=
  if stem.isEmpty then [] else (sorted names).filterMap (ending? stem)

/-- The stem in front of the cursor and its endings. The cursor must be inside the line or at its end. -/
def complete? (names : List Bytes) (line : List Char) (cursor : Int) : Option (Bytes × List Bytes) :=
  if 0 ≤ cursor ∧ cursor.toNat ≤ line.length then
    let found := Utf8.encode (stem (line.take cursor.toNat))
    some (found, endings names found)
  else none

end BraceLisp.Completion
