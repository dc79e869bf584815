import BraceLisp.Environment.Bindings
import BraceLisp.Value.Builtin

/-!
# Values

The values of the language: errors, 64-bit numbers, symbols, strings, functions, S-expressions, which are
evaluated, and Q-expressions, which are data. A closure carries the bindings made for it so far and
remembers whether it has been entered, which hangs its bindings below those of the caller.
-/

namespace BraceLisp

/-- What went wrong, broadly. It is there for diagnosis only and has no part in equality. -/
inductive ErrorKind where
  | userError
  | unboundSymbol
  | typeMismatch
  | arityError
  | emptyListError
  | divisionByZero
  | formatError
  | malformedNumber
  | notAFunction
  | loadError
  | overflow
  | unknown
  deriving DecidableEq, Repr

namespace ErrorKind

def named : List ErrorKind :=
  [.userError, .unboundSymbol, .typeMismatch, .arityError, .emptyListError, .divisionByZero,
   .formatError, .malformedNumber, .notAFunction, .loadError, .overflow]

def name : ErrorKind → Bytes
  | .userError => Bytes.of "UserError"
  | .unboundSymbol => Bytes.of "UnboundSymbol"
  | .typeMismatch => Bytes.of "TypeMismatch"
  | .arityError => Bytes.of "ArityError"
  | .emptyListError => Bytes.of "EmptyListError"
  | .divisionByZero => Bytes.of "DivisionByZero"
  | .formatError => Bytes.of "FormatError"
  | .malformedNumber => Bytes.of "MalformedNumber"
  | .notAFunction => Bytes.of "NotAFunction"
  | .loadError => Bytes.of "LoadError"
  | .overflow => Bytes.of "Overflow"
  | .unknown => Bytes.of "UnknownError"

def ofCode (code : Nat) : ErrorKind :=
  named.getD code .unknown

/-- The kind with a given code, of which negative ones stand for nothing. -/
def ofCode? (code : Int) : Option ErrorKind :=
  if code < 0 then none else some (ofCode code.toNat)

end ErrorKind

inductive ValueType where
  | error
  | number
  | symbol
  | string
  | function
  | sexpr
  | qexpr
  deriving DecidableEq, Repr

namespace ValueType

def all : List ValueType :=
  [.error, .number, .symbol, .string, .function, .sexpr, .qexpr]

def name : ValueType → Bytes
  | .error => Bytes.of "Error"
  | .number => Bytes.of "Number"
  | .symbol => Bytes.of "Symbol"
  | .string => Bytes.of "String"
  | .function => Bytes.of "Function"
  | .sexpr => Bytes.of "S-Expression"
  | .qexpr => Bytes.of "Q-Expression"

def nameOfCode (code : Nat) : Bytes :=
  match all[code]? with
  | some type => type.name
  | none => Bytes.of "Unknown"

end ValueType

/--
A value of the language. A closure has the formals that are still to be bound, its body, the bindings made so far, and
whether its body has ever been evaluated.
-/
inductive Value where
  | error (kind : ErrorKind) (id message : Bytes)
  | number (n : Int64)
  | symbol (name : Bytes)
  | string (s : Bytes)
  | builtin (b : Builtin)
  | closure (formals body : Value) (own : List (Bytes × Value)) (entered : Bool)
  | sexpr (cells : List Value)
  | qexpr (cells : List Value)
  deriving Inhabited, Repr

abbrev Frame := Bindings Value

namespace Value

def type : Value → ValueType
  | .error .. => .error
  | .number _ => .number
  | .symbol _ => .symbol
  | .string _ => .string
  | .builtin _ => .function
  | .closure .. => .function
  | .sexpr _ => .sexpr
  | .qexpr _ => .qexpr

/-- The cells of a list; other values have none. -/
def cells : Value → List Value
  | .sexpr cells => cells
  | .qexpr cells => cells
  | _ => []

/-- The same kind of list with other cells; other values stay as they are. -/
def withCells (v : Value) (cells : List Value) : Value :=
  match v with
  | .sexpr _ => .sexpr cells
  | .qexpr _ => .qexpr cells
  | v => v

/-- The name of a symbol, and the empty name for other values. -/
def symbolName : Value → Bytes
  | .symbol name => name
  | _ => []

def isError : Value → Bool
  | .error .. => true
  | _ => false

/-- Whether a value is a function of either sort. -/
def isFunction : Value → Bool
  | .builtin _ => true
  | .closure .. => true
  | _ => false

def isClosure : Value → Bool
  | .closure .. => true
  | _ => false

/-- A closure as it is when it is made: nothing bound and never entered. -/
def lambda (formals body : Value) : Value :=
  .closure formals body [] false

def ofBool (b : Bool) : Value :=
  .number (if b then 1 else 0)

end Value

end BraceLisp
