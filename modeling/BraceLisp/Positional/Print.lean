import BraceLisp.Eval.Builtin
import BraceLisp.Positional.Basic

/-!
# Printing by position

Values as text, where the form in which a character is escaped stands in one table at the position of the character
in another.
-/

namespace BraceLisp.Positional

/-- The characters that are escaped. -/
def escapedChars : List Char :=
  ['\x07', '\x08', '\x0c', '\n', '\r', '\t', '\x0b', '\\', '\'', '"', '\x00']

def escapedForms : List Bytes :=
  [Bytes.of "\\a", Bytes.of "\\b", Bytes.of "\\f", Bytes.of "\\n", Bytes.of "\\r", Bytes.of "\\t", Bytes.of "\\v",
   Bytes.of "\\\\", Bytes.of "\\'", Bytes.of "\\\"", Bytes.of "\\0"]

def escapeAll : List Char → Except Breakdown Bytes
  | [] => return []
  | c :: rest => do
      let form ← lookup? escapedChars escapedForms (· == c)
      let text ← escapeAll rest
      return form.getD (Utf8.encode [c]) ++ text

mutual

def render : Value → Except Breakdown Bytes
  | .string s => do
      let text ← escapeAll (Utf8.decode s)
      return Bytes.of "\"" ++ text ++ Bytes.of "\""
  | .closure formals body _ _ => do
      let formals ← render formals
      let body ← render body
      return Bytes.of "(\\ " ++ formals ++ Bytes.of " " ++ body ++ Bytes.of ")"
  | .sexpr cells => do
      let texts ← renderAll cells
      return Bytes.of "(" ++ Layout.separate (Bytes.of " ") texts ++ Bytes.of ")"
  | .qexpr cells => do
      let texts ← renderAll cells
      return Bytes.of "\x7b" ++ Layout.separate (Bytes.of " ") texts ++ Bytes.of "\x7d"
  | v => return v.render

def renderAll : List Value → Except Breakdown (List Bytes)
  | [] => return []
  | v :: rest => do
      let text ← render v
      let texts ← renderAll rest
      return text :: texts

end

def renderLines : List Value → Except Breakdown Bytes
  | [] => return []
  | v :: rest => do
      let text ← render v
      let texts ← renderLines rest
      return text ++ Bytes.of "\n" ++ texts

end BraceLisp.Positional
