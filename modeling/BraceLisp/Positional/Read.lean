import BraceLisp.Positional.Print
import BraceLisp.Source.Read

/-!
# Reading by position

From trees to values, where the text of a string literal is cut out of its quotes by position and its escapes are
resolved from one position to the next.
-/

namespace BraceLisp.Positional

open Source

def resolve? (pair : Bytes) : Except Breakdown (Option UInt8) := do
  let c ← lookup? escapedForms escapedChars (· == pair)
  return c.map fun c => UInt8.ofNat c.toNat

def unescapeFrom (s : Bytes) (i : Nat) : Except Breakdown Bytes :=
  if i < s.length then do
    let b ← entry s i
    if b ≠ Escape.backslash ∨ i + 1 = s.length then
      let rest ← unescapeFrom s (i + 1)
      return b :: rest
    else
      let pair ← slice s i (i + 2)
      match ← resolve? pair with
      | some c =>
          let rest ← unescapeFrom s (i + 2)
          return c :: rest
      | none =>
          let rest ← unescapeFrom s (i + 1)
          return b :: rest
  else return []
termination_by s.length - i

def readNumber (literal : List Char) : Except Breakdown Value :=
  match Number.ofInt? (Decimal.toInt literal) with
  | some n => return .number n
  | none => raise (Bytes.of "read/number") [.text (Utf8.encode literal)]

/-- The value of a string literal, which should have its quotes around it. -/
def readString (literal : List Char) : Except Breakdown Value := do
  let s := Utf8.encode literal
  let inner ← slice s 1 (s.length - 1)
  let text ← unescapeFrom inner 0
  return .string text

mutual

def read : Node → Except Breakdown Value
  | .comment _ => .error .commentRead
  | .number t => readNumber t.literal
  | .string t => readString t.literal
  | .symbol t => return .symbol (Utf8.encode t.literal)
  | .list d _ cells => do
      let values ← readCells cells
      return d.list values

def readCells : List Node → Except Breakdown (List Value)
  | [] => return []
  | node :: rest =>
      if node.isComment then readCells rest
      else do
        let v ← read node
        let vs ← readCells rest
        return v :: vs

end

end BraceLisp.Positional
