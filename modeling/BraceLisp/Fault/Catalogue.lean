import BraceLisp.Text.Banner
import BraceLisp.Value.Basic

/-!
# The catalogue of errors

Every error that the language can raise is catalogued under an identifier, which fixes its kind and the
explanation given to those who ask why it happened.
-/

namespace BraceLisp

/-- The entries of the catalogue, in the order of their names. -/
inductive FaultId where
  | argCount
  | argEmpty
  | argNone
  | argType
  | divisionByZero
  | raised
  | lambdaFormals
  | load
  | overflow
  | varCount
  | varNone
  | varSymbols
  | callArity
  | variadicRest
  | variadicEnd
  | notFunction
  | unbound
  | badNumber
  deriving DecidableEq, Repr

namespace FaultId

def all : List FaultId :=
  [.argCount, .argEmpty, .argNone, .argType, .divisionByZero, .raised, .lambdaFormals, .load, .overflow,
   .varCount, .varNone, .varSymbols, .callArity, .variadicRest, .variadicEnd, .notFunction, .unbound,
   .badNumber]

def name : FaultId → Bytes
  | .argCount => Bytes.of "built/args/count"
  | .argEmpty => Bytes.of "built/args/empty"
  | .argNone => Bytes.of "built/args/none"
  | .argType => Bytes.of "built/args/type"
  | .divisionByZero => Bytes.of "built/div/zero"
  | .raised => Bytes.of "built/error"
  | .lambdaFormals => Bytes.of "built/lambda/formals"
  | .load => Bytes.of "built/load"
  | .overflow => Bytes.of "built/overflow"
  | .varCount => Bytes.of "built/var/count"
  | .varNone => Bytes.of "built/var/none"
  | .varSymbols => Bytes.of "built/var/symbols"
  | .callArity => Bytes.of "call/arity"
  | .variadicRest => Bytes.of "call/variadic/a"
  | .variadicEnd => Bytes.of "call/variadic/b"
  | .notFunction => Bytes.of "eval/sexpr/func"
  | .unbound => Bytes.of "eval/sym/unbound"
  | .badNumber => Bytes.of "read/number"

def kind : FaultId → ErrorKind
  | .argCount => .arityError
  | .argEmpty => .emptyListError
  | .argNone => .arityError
  | .argType => .typeMismatch
  | .divisionByZero => .divisionByZero
  | .raised => .userError
  | .lambdaFormals => .formatError
  | .load => .loadError
  | .overflow => .overflow
  | .varCount => .arityError
  | .varNone => .arityError
  | .varSymbols => .formatError
  | .callArity => .arityError
  | .variadicRest => .formatError
  | .variadicEnd => .formatError
  | .notFunction => .notAFunction
  | .unbound => .unboundSymbol
  | .badNumber => .malformedNumber

/-- What there is to say about an error beyond its message. -/
def explanation : FaultId → Bytes
  | .argCount =>
      Bytes.of "Builtins such as 'head', 'eval' and the comparisons take a fixed number of arguments. " ++
      Bytes.of "Remember that a list written with braces counts as a single argument."
  | .argEmpty =>
      Bytes.of "There is no first element of the empty Q-expression, so 'head' and 'tail' have nothing " ++
      Bytes.of "to work on. Check for \x7b\x7d before taking the head or tail of a list."
  | .argNone =>
      Bytes.of "The arithmetic builtins need at least one number to work on."
  | .argType =>
      Bytes.of "Each builtin checks the types of its arguments before it does anything. " ++
      Bytes.of "Arguments are counted from 0. " ++
      Bytes.of "If you meant to pass code as data, wrap it in braces to make a Q-expression."
  | .divisionByZero =>
      Bytes.of "Because x * 0 == y * 0 for any numbers x and y, the result of dividing by zero is " ++
      Bytes.of "undefined: there is no right answer, it's the wrong question."
  | .raised =>
      Bytes.of "This error was raised by a call to the 'error' builtin."
  | .lambdaFormals =>
      Bytes.of "The first argument of '\\' is the list of formal parameters, and every element of it " ++
      Bytes.of "must be a symbol, as in '(\\ \x7bx y\x7d \x7b+ x y\x7d)'."
  | .load =>
      Bytes.of "The file could not be read or parsed, so none of it was evaluated. " ++
      Bytes.of "The message above says why."
  | .overflow =>
      Bytes.of "Numbers are signed 64-bit integers, from -9223372036854775808 to 9223372036854775807. " ++
      Bytes.of "The result of this operation would not fit."
  | .varCount =>
      Bytes.of "A definition needs exactly one value for each symbol in its list, " ++
      Bytes.of "as in 'def \x7bx y\x7d 1 2'."
  | .varNone =>
      Bytes.of "A definition needs a Q-expression of symbols followed by one value for each of them."
  | .varSymbols =>
      Bytes.of "Only symbols can be given values. Every element of the list of names must be a symbol."
  | .callArity =>
      Bytes.of "A function can be given fewer arguments than it has formal parameters, " ++
      Bytes.of "in which case you get back a function waiting for the rest, but it can't be given more " ++
      Bytes.of "unless it collects them with '&'."
  | .variadicRest =>
      Bytes.of "The symbol '&' must be the second-to-last formal parameter, followed by exactly one " ++
      Bytes.of "symbol which will be bound to the list of all remaining arguments, " ++
      Bytes.of "as in '\\ \x7bx & xs\x7d \x7bxs\x7d'."
  | .variadicEnd =>
      Bytes.of "The function was called with no arguments left for its '&' parameter, and then its " ++
      Bytes.of "formal parameters turned out not to end in '& name'."
  | .notFunction =>
      Bytes.of "When an S-expression with more than one element is evaluated, its first element is " ++
      Bytes.of "applied as a function to the rest, so it has to evaluate to a function. " ++
      Bytes.of "If you meant a list of data, use braces instead of parentheses."
  | .unbound =>
      Bytes.of "Nothing by that name has been defined in this scope or any scope enclosing it. " ++
      Bytes.of "Use 'def' to define something globally or '=' to define it locally."
  | .badNumber =>
      Bytes.of "Numbers are signed 64-bit integers, from -9223372036854775808 to 9223372036854775807, " ++
      Bytes.of "and this one won't fit."

def ofName? (name : Bytes) : Option FaultId :=
  all.find? fun id => id.name == name

end FaultId

/-- The explanation of an error value; other values, and errors that are not catalogued, have none. -/
def Value.explain : Value → Bytes
  | .error _ id _ => ((FaultId.ofName? id).map FaultId.explanation).getD []
  | _ => []

end BraceLisp
