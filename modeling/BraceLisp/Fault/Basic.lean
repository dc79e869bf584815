import BraceLisp.Fault.Catalogue
import BraceLisp.Text.Decimal

/-!
# Errors and their messages

A fault is one of the catalogued errors with the particulars that its message mentions. `Fault.toValue`
makes the error value; `Fault.build?` makes a fault from an entry of the catalogue and a list of
particulars.
-/

namespace BraceLisp

/-- A particular in a message: a text or a number. -/
inductive Particular where
  | text (s : Bytes)
  | int (n : Int)
  deriving DecidableEq, Repr

namespace Particular

def render : Particular → Bytes
  | .text s => s
  | .int n => Utf8.encode (Decimal.ofInt n)

def emphasized (p : Particular) : Bytes :=
  Banner.emphasize p.render

end Particular

/-- A catalogued error with its particulars. -/
inductive Fault where
  | argCount (function got expected : Particular)
  | argEmpty (function index : Particular)
  | argNone (function : Particular)
  | argType (function index got expected : Particular)
  | divisionByZero
  | raised (message : Bytes)
  | lambdaFormals (got : Particular)
  | load (reason : Particular)
  | overflow (function : Particular)
  | varCount (function got expected : Particular)
  | varNone (function : Particular)
  | varSymbols (function got : Particular)
  | callArity (got expected : Particular)
  | variadicRest
  | variadicEnd
  | notFunction (got : Particular)
  | unbound (name : Particular)
  | badNumber (literal : Particular)
  deriving DecidableEq, Repr

namespace Fault

def id : Fault → FaultId
  | .argCount .. => .argCount
  | .argEmpty .. => .argEmpty
  | .argNone _ => .argNone
  | .argType .. => .argType
  | .divisionByZero => .divisionByZero
  | .raised _ => .raised
  | .lambdaFormals _ => .lambdaFormals
  | .load _ => .load
  | .overflow _ => .overflow
  | .varCount .. => .varCount
  | .varNone _ => .varNone
  | .varSymbols .. => .varSymbols
  | .callArity .. => .callArity
  | .variadicRest => .variadicRest
  | .variadicEnd => .variadicEnd
  | .notFunction _ => .notFunction
  | .unbound _ => .unbound
  | .badNumber _ => .badNumber

def message : Fault → Bytes
  | .argCount function got expected =>
      Bytes.of "Function " ++ function.emphasized ++
        Bytes.of " passed incorrect number of arguments. Got " ++ got.render ++
        Bytes.of ", Expected " ++ expected.render ++ Bytes.of "."
  | .argEmpty function index =>
      Bytes.of "Function " ++ function.emphasized ++
        Bytes.of " passed \x7b\x7d for argument " ++ index.render ++ Bytes.of "."
  | .argNone function =>
      Bytes.of "Function " ++ function.emphasized ++ Bytes.of " passed no arguments."
  | .argType function index got expected =>
      Bytes.of "Function " ++ function.emphasized ++
        Bytes.of " passed incorrect type for argument " ++ index.render ++
        Bytes.of ". Got " ++ got.render ++ Bytes.of ", Expected " ++ expected.render ++ Bytes.of "."
  | .divisionByZero => Bytes.of "Division by zero."
  | .raised message => message
  | .lambdaFormals got =>
      Bytes.of "Cannot define non-symbol. Got " ++ got.render ++ Bytes.of ", Expected Symbol."
  | .load reason => Bytes.of "Could not load library " ++ reason.render
  | .overflow function =>
      Bytes.of "Function " ++ function.emphasized ++ Bytes.of " overflowed the range of a number."
  | .varCount function got expected =>
      Bytes.of "Function " ++ function.emphasized ++
        Bytes.of " passed too many arguments for symbols. Got " ++ got.render ++
        Bytes.of ", Expected " ++ expected.render ++ Bytes.of "."
  | .varNone function =>
      Bytes.of "Function " ++ function.emphasized ++ Bytes.of " passed no arguments."
  | .varSymbols function got =>
      Bytes.of "Function " ++ function.emphasized ++
        Bytes.of " cannot define non-symbol. Got " ++ got.render ++ Bytes.of ", Expected Symbol."
  | .callArity got expected =>
      Bytes.of "Function passed too many arguments. Got " ++ got.render ++
        Bytes.of ", Expected " ++ expected.render ++ Bytes.of "."
  | .variadicRest =>
      Bytes.of "Function format invalid. Symbol '&' not followed by single symbol."
  | .variadicEnd =>
      Bytes.of "Function format invalid. Symbol '&' not followed by single symbol."
  | .notFunction got =>
      Bytes.of "S-Expression starts with incorrect type. Got " ++ got.render ++
        Bytes.of ", Expected Function."
  | .unbound name => Bytes.of "Unbound Symbol " ++ name.emphasized
  | .badNumber literal => Bytes.of "Invalid number " ++ literal.emphasized ++ Bytes.of "."

def toValue (fault : Fault) : Value :=
  .error fault.id.kind fault.id.name fault.message

/--
The fault under an entry of the catalogue with the given particulars. There may be more of them than the
message mentions, but not fewer, and an error raised by a program has a text for its message.
-/
def build? : FaultId → List Particular → Option Fault
  | .argCount, a :: b :: c :: _ => some (.argCount a b c)
  | .argEmpty, a :: b :: _ => some (.argEmpty a b)
  | .argNone, a :: _ => some (.argNone a)
  | .argType, a :: b :: c :: d :: _ => some (.argType a b c d)
  | .divisionByZero, _ => some .divisionByZero
  | .raised, .text s :: _ => some (.raised s)
  | .lambdaFormals, a :: _ => some (.lambdaFormals a)
  | .load, a :: _ => some (.load a)
  | .overflow, a :: _ => some (.overflow a)
  | .varCount, a :: b :: c :: _ => some (.varCount a b c)
  | .varNone, a :: _ => some (.varNone a)
  | .varSymbols, a :: b :: _ => some (.varSymbols a b)
  | .callArity, a :: b :: _ => some (.callArity a b)
  | .variadicRest, _ => some .variadicRest
  | .variadicEnd, _ => some .variadicEnd
  | .notFunction, a :: _ => some (.notFunction a)
  | .unbound, a :: _ => some (.unbound a)
  | .badNumber, a :: _ => some (.badNumber a)
  | _, _ => none

end Fault

end BraceLisp
