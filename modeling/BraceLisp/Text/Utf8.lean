/-!
# Text as bytes and as characters

A string of the language is a sequence of bytes, most often but not always UTF-8. This module
writes characters as bytes and reads bytes as characters. Reading never fails: the bytes are cut
into items, each a well-formed character or one stray byte, and a stray byte reads as U+FFFD.
-/

namespace BraceLisp

/-- Text as it is stored in values, file names and output. -/
abbrev Bytes := List UInt8

namespace Utf8

def encodeChar (c : Char) : Bytes :=
  let n := c.toNat
  if n < 0x80 then
    [UInt8.ofNat n]
  else if n < 0x800 then
    [UInt8.ofNat (0xC0 + n / 0x40), UInt8.ofNat (0x80 + n % 0x40)]
  else if n < 0x10000 then
    [UInt8.ofNat (0xE0 + n / 0x1000), UInt8.ofNat (0x80 + n / 0x40 % 0x40),
      UInt8.ofNat (0x80 + n % 0x40)]
  else
    [UInt8.ofNat (0xF0 + n / 0x40000), UInt8.ofNat (0x80 + n / 0x1000 % 0x40),
      UInt8.ofNat (0x80 + n / 0x40 % 0x40), UInt8.ofNat (0x80 + n % 0x40)]

def encode (text : List Char) : Bytes :=
  text.flatMap encodeChar

/-- The six bits that a continuation byte carries; `none` for every other byte. -/
def payload? (b : UInt8) : Option Nat :=
  if 0x80 ≤ b.toNat ∧ b.toNat < 0xC0 then some (b.toNat - 0x80) else none

/--
The well-formed character that starts with byte `a`, if there is one, and how many of the bytes
after `a` belong to it. Overlong forms, surrogates and numbers past U+10FFFF are not well formed.
-/
def leading? (a : UInt8) (rest : Bytes) : Option (Char × Nat) :=
  let n := a.toNat
  if n < 0x80 then
    some (Char.ofNat n, 0)
  else if n < 0xC2 then
    none
  else if n < 0xE0 then
    match rest with
    | b :: _ => do
        let x ← payload? b
        some (Char.ofNat ((n - 0xC0) * 0x40 + x), 1)
    | [] => none
  else if n < 0xF0 then
    match rest with
    | b :: c :: _ => do
        let x ← payload? b
        let y ← payload? c
        let code := (n - 0xE0) * 0x1000 + x * 0x40 + y
        if 0x800 ≤ code ∧ ¬ (0xD800 ≤ code ∧ code < 0xE000) then some (Char.ofNat code, 2) else none
    | _ => none
  else if n < 0xF5 then
    match rest with
    | b :: c :: d :: _ => do
        let x ← payload? b
        let y ← payload? c
        let z ← payload? d
        let code := (n - 0xF0) * 0x40000 + x * 0x1000 + y * 0x40 + z
        if 0x10000 ≤ code ∧ code < 0x110000 then some (Char.ofNat code, 3) else none
    | _ => none
  else
    none

/-- What a reader of bytes meets: a well-formed character, or a byte that is part of none. -/
inductive Item where
  | char (c : Char)
  | stray (b : UInt8)
  deriving DecidableEq, Repr

namespace Item

def bytes : Item → Bytes
  | .char c => encodeChar c
  | .stray b => [b]

/-- A stray byte is seen as the replacement character. -/
def toChar : Item → Char
  | .char c => c
  | .stray _ => '\uFFFD'

end Item

/-- Reads items after passing over `skip` bytes that belong to a character already read. -/
def itemsFrom : Nat → Bytes → List Item
  | _, [] => []
  | skip + 1, _ :: rest => itemsFrom skip rest
  | 0, a :: rest =>
      match leading? a rest with
      | some (c, more) => .char c :: itemsFrom more rest
      | none => .stray a :: itemsFrom 0 rest

/-- Cuts bytes into well-formed characters and stray bytes, losing nothing. -/
def items (s : Bytes) : List Item :=
  itemsFrom 0 s

/-- The characters of a text, with U+FFFD for each stray byte. -/
def decode (s : Bytes) : List Char :=
  (items s).map Item.toChar

def isValid (s : Bytes) : Bool :=
  (items s).all fun item => match item with
    | .char _ => true
    | .stray _ => false

end Utf8

def Bytes.of (text : String) : Bytes :=
  Utf8.encode text.toList

end BraceLisp
