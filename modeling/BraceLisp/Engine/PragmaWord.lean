import BraceLisp.Text.Layout

/-!
# Words of pragmas

The language in which settings of a database are written, cut into words: names, which may be in quotes,
numbers, and marks. White space and comments separate words and are none.
-/

namespace BraceLisp

inductive PragmaWordKind where
  | blank
  | name
  | reserved
  | number
  | plus
  | minus
  | equals
  | opening
  | closing
  | dot
  | semicolon
  | other
  | unreadable
  deriving DecidableEq, Repr

structure PragmaWord where
  kind : PragmaWordKind
  text : Bytes
  deriving DecidableEq, Repr

namespace PragmaWord

/-! ## Bytes -/

def isDigit (b : UInt8) : Bool := 0x30 ≤ b && b ≤ 0x39

def isHexDigit (b : UInt8) : Bool :=
  isDigit b || (0x41 ≤ b && b ≤ 0x46) || (0x61 ≤ b && b ≤ 0x66)

def isSpace (b : UInt8) : Bool := b = 0x20 || (0x09 ≤ b && b ≤ 0x0D)

def startsSpace (b : UInt8) : Bool := isSpace b && b != 0x0B

def startsName (b : UInt8) : Bool :=
  (0x41 ≤ b && b ≤ 0x5A) || (0x61 ≤ b && b ≤ 0x7A) || b = 0x5F || 0x80 ≤ b

def isNameByte (b : UInt8) : Bool := startsName b || isDigit b || b = 0x24

def toUpper (b : UInt8) : UInt8 := if 0x61 ≤ b && b ≤ 0x7A then b - 0x20 else b

/-- Whether two names differ at most in the case of letters. -/
def sameName (s t : Bytes) : Bool := s.map toUpper == t.map toUpper

/-! ## Lengths of words -/

/-- How many bytes at the start of a text satisfy a condition. -/
def run (p : UInt8 → Bool) (s : Bytes) : Nat := (s.takeWhile p).length

def quotedLength? (quote : UInt8) : Bytes → Option Nat
  | [] => none
  | [b] => if b = quote then some 1 else none
  | b :: c :: rest =>
      if b = quote then
        if c = quote then (quotedLength? quote rest).map (· + 2) else some 1
      else (quotedLength? quote (c :: rest)).map (· + 1)

/-- How many bytes a comment takes after the two that open it; one that is not closed takes all. -/
def commentLength : Bytes → Nat
  | [] => 0
  | [_] => 1
  | b :: c :: rest => if b = 0x2A ∧ c = 0x2F then 2 else commentLength (c :: rest) + 1

def isDigitOrMark (b : UInt8) : Bool := isDigit b || b = 0x5F

def exponentLength : Bytes → Nat
  | e :: b :: rest =>
      if e != 0x65 && e != 0x45 then 0
      else if isDigit b then 2 + run isDigitOrMark rest
      else match rest with
        | c :: more =>
            if (b = 0x2B || b = 0x2D) && isDigit c then 3 + run isDigitOrMark more else 0
        | [] => 0
  | _ => 0

def fractionLength : Bytes → Nat
  | 0x2E :: rest => 1 + run isDigitOrMark rest
  | _ => 0

def numberLength (s : Bytes) : Nat :=
  let isHex := match s with
    | 0x30 :: x :: d :: _ => (x = 0x78 || x = 0x58) && isHexDigit d
    | _ => false
  if isHex then 2 + run (fun b => isHexDigit b || b = 0x5F) (s.drop 2)
  else
    let whole := run isDigitOrMark s
    let fraction := fractionLength (s.drop whole)
    whole + fraction + exponentLength (s.drop (whole + fraction))

/--
How many bytes a parameter of a query takes after its first, and whether it is one. `named` tells whether a
byte of its name has been seen.
-/
def variableLength (named : Bool) : Bytes → Nat × Bool
  | [] => (0, named)
  | [b] => if isNameByte b then (1, true) else if b = 0x28 && named then (1, false) else (0, named)
  | b :: c :: rest =>
      if isNameByte b then
        let (n, isOne) := variableLength true (c :: rest)
        (n + 1, isOne)
      else if b = 0x28 && named then
        let n := run (fun d => !isSpace d && d != 0x29) (c :: rest)
        match (c :: rest).drop n with
        | 0x29 :: _ => (n + 2, true)
        | _ => (n + 1, false)
      else if b = 0x3A && c = 0x3A then
        let (n, isOne) := variableLength named rest
        (n + 2, isOne)
      else (0, named)

/-! ## Words -/

def reservedNames : List Bytes :=
  ["ADD", "ALL", "ALTER", "AND", "AS", "AUTOINCREMENT", "BETWEEN", "CASE", "CHECK", "COLLATE", "COMMIT",
   "CONSTRAINT", "CREATE", "DEFAULT", "DEFERRABLE", "DELETE", "DISTINCT", "DROP", "ELSE", "ESCAPE", "EXCEPT",
   "EXISTS", "FOREIGN", "FROM", "GROUP", "HAVING", "IN", "INDEX", "INSERT", "INTERSECT", "INTO", "IS", "ISNULL",
   "JOIN", "LIMIT", "NOT", "NOTHING", "NOTNULL", "NULL", "ON", "OR", "ORDER", "PRIMARY", "REFERENCES",
   "RETURNING", "SELECT", "SET", "TABLE", "THEN", "TO", "TRANSACTION", "UNION", "UNIQUE", "UPDATE", "USING",
   "VALUES", "WHEN", "WHERE"].map Bytes.of

def nameKind (text : Bytes) : PragmaWordKind :=
  if reservedNames.contains (text.map toUpper) then .reserved else .name

/-- A word of a kind, and how many bytes it takes after its first. -/
abbrev WordShape := PragmaWordKind × Nat

def numberShape (b : UInt8) (rest : Bytes) : WordShape :=
  let length := numberLength (b :: rest)
  let tail := run isNameByte ((b :: rest).drop length)
  if 0 < tail then (.unreadable, length + tail - 1)
  else if ((b :: rest).take length).contains 0x5F then (.other, length - 1)
  else (.number, length - 1)

def quotedShape (quote : UInt8) (rest : Bytes) : WordShape :=
  match quotedLength? quote rest with
  | some n => (.name, n)
  | none => (.unreadable, rest.length)

def blobShape (rest : Bytes) : WordShape :=
  let digits := run isHexDigit rest
  match rest.drop digits with
  | 0x27 :: _ => (if digits % 2 = 0 then .other else .unreadable, digits + 2)
  | more =>
      let n := run (· != 0x27) more
      (.unreadable, digits + n + 1 + (if n < more.length then 1 else 0))

def shape (b : UInt8) (rest : Bytes) : WordShape :=
  let next := rest.head?
  if startsSpace b then (.blank, run isSpace rest)
  else if startsName b then
    if (b = 0x78 || b = 0x58) && next = some 0x27 then blobShape (rest.drop 1)
    else
      let n := run isNameByte rest
      (nameKind (b :: rest.take n), n)
  else if isDigit b then numberShape b rest
  else match b with
    | 0x22 | 0x27 | 0x60 => quotedShape b rest
    | 0x5B =>
        let n := run (· != 0x5D) rest
        if n < rest.length then (.name, n + 1) else (.unreadable, n)
    | 0x28 => (.opening, 0)
    | 0x29 => (.closing, 0)
    | 0x3B => (.semicolon, 0)
    | 0x2B => (.plus, 0)
    | 0x3D => (.equals, if next = some 0x3D then 1 else 0)
    | 0x2E => if next.any isDigit then numberShape b rest else (.dot, 0)
    | 0x2D =>
        if next = some 0x2D then (.blank, run (· != 0x0A) rest)
        else if next = some 0x3E then (.other, if rest[1]? = some 0x3E then 2 else 1)
        else (.minus, 0)
    | 0x2F =>
        if next = some 0x2A ∧ 1 < rest.length then (.blank, commentLength (rest.drop 1) + 1) else (.other, 0)
    | 0x3C => (.other, if next = some 0x3D || next = some 0x3E || next = some 0x3C then 1 else 0)
    | 0x3E => (.other, if next = some 0x3D || next = some 0x3E then 1 else 0)
    | 0x21 => if next = some 0x3D then (.other, 1) else (.unreadable, 0)
    | 0x7C => (.other, if next = some 0x7C then 1 else 0)
    | 0x3F => (.other, run isDigit rest)
    | 0x24 | 0x40 | 0x3A | 0x23 =>
        let (n, isOne) := variableLength false rest
        (if isOne then .other else .unreadable, n)
    | 0x2A | 0x25 | 0x2C | 0x26 | 0x7E => (.other, 0)
    | _ => (.unreadable, 0)

def words : Bytes → List PragmaWord
  | [] => []
  | b :: rest =>
      let (kind, n) := shape b rest
      let others := words (rest.drop n)
      if kind = .blank then others else ⟨kind, b :: rest.take n⟩ :: others
  termination_by s => s.length
  decreasing_by
    rw [List.length_drop, List.length_cons]
    omega

end PragmaWord

end BraceLisp
