import BraceLisp.Value.Basic

/-!
# Equality of values

Equality is structural, and values of different types are never equal. Errors are compared by message
alone, and closures by formals and body, whatever has been bound for them.
-/

namespace BraceLisp.Value

mutual

def equal : Value → Value → Bool
  | .error _ _ m, .error _ _ m' => m == m'
  | .number n, .number n' => n == n'
  | .symbol s, .symbol s' => s == s'
  | .string s, .string s' => s == s'
  | .builtin b, .builtin b' => b == b'
  | .closure f b _ _, .closure f' b' _ _ => equal f f' && equal b b'
  | .sexpr cs, .sexpr cs' => equalAll cs cs'
  | .qexpr cs, .qexpr cs' => equalAll cs cs'
  | _, _ => false

def equalAll : List Value → List Value → Bool
  | [], [] => true
  | v :: vs, w :: ws => equal v w && equalAll vs ws
  | _, _ => false

end

end BraceLisp.Value
