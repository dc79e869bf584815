import BraceLisp.Fault.Basic

/-!
# Checks of arguments

A builtin checks its arguments before it does anything, their number first and then their types from the left.
Each check is given the name of the function that makes it, which the complaint mentions, and returns what the
function needs from its arguments.
-/

namespace BraceLisp.Arguments

def wrongCount (function : Bytes) (args : List Value) (expected : Nat) : Fault :=
  .argCount (.text function) (.int args.length) (.int expected)

def wrongType (function : Bytes) (index : Nat) (v : Value) (expected : ValueType) : Fault :=
  .argType (.text function) (.int index) (.text v.type.name) (.text expected.name)

/-! ## One argument -/

def number (function : Bytes) (index : Nat) : Value → Except Fault Int64
  | .number n => .ok n
  | v => .error (wrongType function index v .number)

def string (function : Bytes) (index : Nat) : Value → Except Fault Bytes
  | .string s => .ok s
  | v => .error (wrongType function index v .string)

def list (function : Bytes) (index : Nat) : Value → Except Fault (List Value)
  | .qexpr cells => .ok cells
  | v => .error (wrongType function index v .qexpr)

/-! ## All arguments -/

/-- A check of each argument from `index` on. -/
def each {α : Type} (check : Nat → Value → Except Fault α) : Nat → List Value → Except Fault (List α)
  | _, [] => .ok []
  | index, v :: rest => do
      let x ← check index v
      let xs ← each check (index + 1) rest
      return x :: xs

def oneString (function : Bytes) : List Value → Except Fault Bytes
  | [v] => string function 0 v
  | args => .error (wrongCount function args 1)

def oneList (function : Bytes) : List Value → Except Fault (List Value)
  | [v] => list function 0 v
  | args => .error (wrongCount function args 1)

/-- The first cell and the others of the only argument, which must be a Q-expression with cells. -/
def oneNonemptyList (function : Bytes) (args : List Value) : Except Fault (Value × List Value) := do
  match ← oneList function args with
  | x :: rest => return (x, rest)
  | [] => .error (.argEmpty (.text function) (.int 0))

def twoValues (function : Bytes) : List Value → Except Fault (Value × Value)
  | [v, w] => .ok (v, w)
  | args => .error (wrongCount function args 2)

def twoNumbers (function : Bytes) (args : List Value) : Except Fault (Int64 × Int64) := do
  let (v, w) ← twoValues function args
  let x ← number function 0 v
  let y ← number function 1 w
  return (x, y)

def twoLists (function : Bytes) (args : List Value) : Except Fault (List Value × List Value) := do
  let (v, w) ← twoValues function args
  let xs ← list function 0 v
  let ys ← list function 1 w
  return (xs, ys)

def numberAndTwoLists (function : Bytes) : List Value → Except Fault (Int64 × List Value × List Value)
  | [v, w, u] => do
      let n ← number function 0 v
      let xs ← list function 1 w
      let ys ← list function 2 u
      return (n, xs, ys)
  | args => .error (wrongCount function args 3)

end BraceLisp.Arguments
