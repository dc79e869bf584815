import BraceLisp.Eval.Arguments
import BraceLisp.Eval.Arithmetic
import BraceLisp.Value.Equal

/-!
# What operations compute

The value of an operation on evaluated arguments, or the fault that it finds in them. Nothing is evaluated and
nothing changes.
-/

namespace BraceLisp

def OrderOp.holds : OrderOp → Int64 → Int64 → Bool
  | .gt, x, y => x > y
  | .lt, x, y => x < y
  | .ge, x, y => x ≥ y
  | .le, x, y => x ≤ y

def firstNonSymbol? (vs : List Value) : Option Value :=
  vs.find? fun v => v.type != .symbol

namespace Operation

/-- The closure with the given formals, which must be symbols, and the given body. -/
def makeClosure (formals body : List Value) : Except Fault Value :=
  match firstNonSymbol? formals with
  | some formal => .error (.lambdaFormals (.text formal.type.name))
  | none => .ok (.lambda (.qexpr formals) (.qexpr body))

def compute (op : Operation) (args : List Value) : Except Fault Value :=
  match op with
  | .list => .ok (.qexpr args)
  | .head => do
      let (x, _) ← Arguments.oneNonemptyList op.name args
      return .qexpr [x]
  | .tail => do
      let (_, rest) ← Arguments.oneNonemptyList op.name args
      return .qexpr rest
  | .join => do
      let lists ← Arguments.each (Arguments.list op.name) 0 args
      return .qexpr lists.flatten
  | .arith operator => do
      let numbers ← Arguments.each (Arguments.number op.name) 0 args
      let n ← operator.run numbers
      return .number n
  | .lambda => do
      let (formals, body) ← Arguments.twoLists op.name args
      makeClosure formals body
  | .order comparison => do
      let (x, y) ← Arguments.twoNumbers op.name args
      return .ofBool (comparison.holds x y)
  | .equal => do
      let (v, w) ← Arguments.twoValues op.name args
      return .ofBool (v.equal w)
  | .notEqual => do
      let (v, w) ← Arguments.twoValues op.name args
      return .ofBool !v.equal w
  | .raise => do
      let message ← Arguments.oneString op.name args
      .error (.raised message)

end Operation

end BraceLisp
