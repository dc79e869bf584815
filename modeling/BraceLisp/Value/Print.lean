import BraceLisp.Text.Decimal
import BraceLisp.Text.Escape
import BraceLisp.Text.Layout
import BraceLisp.Value.Basic

/-!
# Values as text

How values are printed: strings with quotes and escapes, lists between their delimiters with single
spaces, closures as the expression that makes them.
-/

namespace BraceLisp.Value

def quote (s : Bytes) : Bytes :=
  Bytes.of "\"" ++ Escape.escape s ++ Bytes.of "\""

def renderNumber (n : Int64) : Bytes :=
  Utf8.encode (Decimal.ofInt n.toInt)

mutual

def render : Value → Bytes
  | .error _ _ message => Bytes.of "Error: " ++ message
  | .number n => renderNumber n
  | .symbol name => name
  | .string s => quote s
  | .builtin _ => Bytes.of "<builtin>"
  | .closure formals body _ _ =>
      Bytes.of "(\\ " ++ render formals ++ Bytes.of " " ++ render body ++ Bytes.of ")"
  | .sexpr cells =>
      Bytes.of "(" ++ Layout.separate (Bytes.of " ") (renderAll cells) ++ Bytes.of ")"
  | .qexpr cells =>
      Bytes.of "\x7b" ++ Layout.separate (Bytes.of " ") (renderAll cells) ++ Bytes.of "\x7d"

def renderAll : List Value → List Bytes
  | [] => []
  | v :: rest => render v :: renderAll rest

end

end BraceLisp.Value
