import BraceLisp.Engine.PragmaWord

/-!
# Pragmas

Settings of a database: a name, possibly behind the name of a database and a dot, and possibly a value behind
an equals sign or in parentheses. A text is read word by word; the first word that cannot stand where it stands
is the one complained about.
-/

namespace BraceLisp

inductive PragmaProblem where
  | incomplete
  | unexpected (word : Bytes)
  | unreadable (text : Bytes)
  | unknownDatabase (name : Bytes)
  | unknownTable (name : Bytes)
  | unknownEncoding (name : Bytes)
  deriving DecidableEq, Repr

namespace PragmaProblem

def text (problem : PragmaProblem) : Bytes :=
  let what : Bytes := match problem with
    | .incomplete => Bytes.of "incomplete input"
    | .unexpected word => Bytes.of "near \"" ++ word ++ Bytes.of "\": syntax error"
    | .unreadable text => Bytes.of "unrecognized token: \"" ++ text ++ Bytes.of "\""
    | .unknownDatabase name => Bytes.of "unknown database " ++ name
    | .unknownTable name => Bytes.of "no such table: " ++ name
    | .unknownEncoding name => Bytes.of "unsupported encoding: " ++ name
  Bytes.of "SQL logic error: " ++ what ++ Bytes.of " (1)"

end PragmaProblem

/-- A setting: the database it is for, its name, and the value it is given. -/
structure Pragma where
  database : Option Bytes
  name : Bytes
  value : Option Bytes
  deriving DecidableEq, Repr

namespace Pragma

/-! ## Reading a pragma -/

def complaint : List PragmaWord → PragmaProblem
  | [] => .incomplete
  | word :: _ => if word.kind = .unreadable then .unreadable word.text else .unexpected word.text

def undouble (quote : UInt8) : Bytes → Bytes
  | [] => []
  | [b] => if b = quote then [] else [b]
  | b :: c :: rest =>
      if b = quote then
        if c = quote then quote :: undouble quote rest else []
      else b :: undouble quote (c :: rest)

def unquoted (text : Bytes) : Bytes :=
  match text with
  | 0x5B :: rest => undouble 0x5D rest
  | b :: rest => if b = 0x22 ∨ b = 0x27 ∨ b = 0x60 then undouble b rest else text
  | [] => []

def isValueName (text : Bytes) : Bool :=
  [Bytes.of "ON", Bytes.of "DELETE", Bytes.of "DEFAULT"].contains (text.map PragmaWord.toUpper)

def readValue : List PragmaWord → Except PragmaProblem (Bytes × List PragmaWord)
  | ⟨.number, text⟩ :: rest => .ok (text, rest)
  | ⟨.name, text⟩ :: rest => .ok (unquoted text, rest)
  | ⟨.plus, _⟩ :: ⟨.number, text⟩ :: rest => .ok (text, rest)
  | ⟨.minus, sign⟩ :: ⟨.number, text⟩ :: rest => .ok (sign ++ text, rest)
  | ⟨.plus, _⟩ :: rest => .error (complaint rest)
  | ⟨.minus, _⟩ :: rest => .error (complaint rest)
  | ⟨.reserved, text⟩ :: rest =>
      if isValueName text then .ok (text, rest) else .error (.unexpected text)
  | words => .error (complaint words)

def readOptionalValue : List PragmaWord → Except PragmaProblem (Option Bytes × List PragmaWord)
  | ⟨.equals, _⟩ :: rest => do
      let (text, rest) ← readValue rest
      return (some text, rest)
  | ⟨.opening, _⟩ :: rest => do
      let (text, rest) ← readValue rest
      match rest with
      | ⟨.closing, _⟩ :: rest => return (some text, rest)
      | rest => .error (complaint rest)
  | words => .ok (none, words)

def readTitle : List PragmaWord → Except PragmaProblem ((Option Bytes × Bytes) × List PragmaWord)
  | ⟨.name, database⟩ :: ⟨.dot, _⟩ :: ⟨.name, name⟩ :: rest =>
      .ok ((some (unquoted database), unquoted name), rest)
  | ⟨.name, _⟩ :: ⟨.dot, _⟩ :: rest => .error (complaint rest)
  | ⟨.name, name⟩ :: rest => .ok ((none, unquoted name), rest)
  | words => .error (complaint words)

def ofWords (words : List PragmaWord) : Except PragmaProblem Pragma := do
  let ((database, name), rest) ← readTitle words
  let (value, rest) ← readOptionalValue rest
  match rest with
  | [] => return ⟨database, name, value⟩
  | [⟨.semicolon, _⟩] => return ⟨database, name, value⟩
  | rest => .error (complaint rest)

def statements (words : List PragmaWord) : List (List PragmaWord) :=
  let parts := Layout.splitWhere (fun word => word.kind = .semicolon) words
  parts.dropLast.map (· ++ [⟨.semicolon, Bytes.of ";"⟩]) ++ [parts.getLastD []]

/-- The pragma that a statement after the first says, which starts with the word for it. -/
def ofStatement : List PragmaWord → Except PragmaProblem Pragma
  | ⟨.name, text⟩ :: rest =>
      if PragmaWord.sameName text (Bytes.of "pragma") then ofWords rest else .error (.unexpected text)
  | words => .error (complaint words)

def isEmptyStatement (words : List PragmaWord) : Bool :=
  words.all fun word => word.kind = .semicolon

/-- The pragmas that a text says, each after the one before it. The word that announces the first is left out. -/
def parse (text : Bytes) : List (Except PragmaProblem Pragma) :=
  match statements (PragmaWord.words text) with
  | [] => []
  | first :: others => ofWords first :: (others.filter fun words => !isEmptyStatement words).map ofStatement

/-! ## Values -/

/-- The whole number at the start of a text, which is zero if there is none or it is too great. -/
def leadingNumber (text : Bytes) : Nat :=
  let digits (base : Nat) (value : UInt8 → Nat) (s : Bytes) : Nat :=
    let n := s.foldl (fun n b => base * n + value b) 0
    if n < 0x80000000 then n else 0
  match text with
  | 0x30 :: x :: rest =>
      if (x = 0x78 ∨ x = 0x58) ∧ rest.head?.any PragmaWord.isHexDigit then
        digits 16 (fun b => (PragmaWord.toUpper b).toNat - (if PragmaWord.isDigit b then 0x30 else 0x37)) (rest.takeWhile PragmaWord.isHexDigit)
      else digits 10 (fun b => b.toNat - 0x30) (text.takeWhile PragmaWord.isDigit)
  | _ => digits 10 (fun b => b.toNat - 0x30) (text.takeWhile PragmaWord.isDigit)

/-- Whether a value means yes. Only the last eight bits of a number count. -/
def isYes (value : Bytes) : Bool :=
  if value.head?.any PragmaWord.isDigit then leadingNumber value % 256 != 0
  else [Bytes.of "ON", Bytes.of "YES", Bytes.of "TRUE"].contains (value.map PragmaWord.toUpper)

end Pragma

end BraceLisp
