import BraceLisp.Text.Decimal
import BraceLisp.Text.Printable
import BraceLisp.Text.Utf8

/-!
# Quoted text in messages

Messages show a character between single quotes and a piece of text between double quotes. Printable
characters stand for themselves; the quote and the backslash get a backslash; the common control
characters have one-letter escapes; every other character is given by its number, and a stray byte
by its value.
-/

namespace BraceLisp.Quoted

def controlLetter? (c : Char) : Option Char :=
  match c.toNat with
  | 0x07 => some 'a'
  | 0x08 => some 'b'
  | 0x0C => some 'f'
  | 0x0A => some 'n'
  | 0x0D => some 'r'
  | 0x09 => some 't'
  | 0x0B => some 'v'
  | _ => none

def numeric (c : Char) : List Char :=
  let n := c.toNat
  if n < 0x20 ∨ n = 0x7F then '\\' :: 'x' :: Decimal.hex 2 n
  else if n < 0x10000 then '\\' :: 'u' :: Decimal.hex 4 n
  else '\\' :: 'U' :: Decimal.hex 8 n

/-- How a character is shown between a given kind of quotes. -/
def body (quote c : Char) : List Char :=
  if c = quote ∨ c = '\\' then ['\\', c]
  else if Printable.isPrintable c then [c]
  else match controlLetter? c with
    | some letter => ['\\', letter]
    | none => numeric c

def char (c : Char) : List Char :=
  '\'' :: body '\'' c ++ ['\'']

def item : Utf8.Item → List Char
  | .char c => body '"' c
  | .stray b => '\\' :: 'x' :: Decimal.hex 2 b.toNat

def text (s : Bytes) : Bytes :=
  Utf8.encode ('"' :: (Utf8.items s).flatMap item ++ ['"'])

end BraceLisp.Quoted
