import BraceLisp.Text.Utf8

/-!
# Escapes in string literals

Inside a string literal a backslash and a mark stand for a character that would be awkward to write
out. `escape` puts the escapes in when a string is printed, and `unescape` resolves them when a
literal is read. A backslash in front of anything that is not a mark stands for itself.
-/

namespace BraceLisp.Escape

def table : List (Char × Char) :=
  [('\x07', 'a'), ('\x08', 'b'), ('\x0c', 'f'), ('\n', 'n'), ('\r', 'r'), ('\t', 't'), ('\x0b', 'v'),
   ('\\', '\\'), ('\'', '\''), ('"', '"'), ('\x00', '0')]

def mark? (c : Char) : Option Char :=
  (table.find? fun entry => entry.1 == c).map Prod.snd

def marked? (b : UInt8) : Option UInt8 :=
  (table.find? fun entry => UInt8.ofNat entry.2.toNat == b).map fun entry =>
    UInt8.ofNat entry.1.toNat

def escapeChar (c : Char) : List Char :=
  match mark? c with
  | some m => ['\\', m]
  | none => [c]

/-- A text as it is written inside quotes; stray bytes become U+FFFD. -/
def escape (s : Bytes) : Bytes :=
  Utf8.encode ((Utf8.decode s).flatMap escapeChar)

def backslash : UInt8 := 0x5C

def unescape : Bytes → Bytes
  | [] => []
  | [b] => [b]
  | b :: m :: rest =>
      if b = backslash then
        match marked? m with
        | some c => c :: unescape rest
        | none => b :: unescape (m :: rest)
      else b :: unescape (m :: rest)

end BraceLisp.Escape
