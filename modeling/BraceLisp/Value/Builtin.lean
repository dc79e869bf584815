import BraceLisp.Text.Utf8

/-!
# The builtin functions

The functions that the language starts with. Most of them are operations, which compute a value from their
arguments and do nothing else. Each builtin has one name of its own; the defining function is also bound to
an older spelling.
-/

namespace BraceLisp

inductive ArithOp where
  | add
  | sub
  | mul
  | div
  deriving DecidableEq, Repr

inductive OrderOp where
  | gt
  | lt
  | ge
  | le
  deriving DecidableEq, Repr

/-- The builtins that compute a value from their arguments and do nothing else. -/
inductive Operation where
  | list
  | head
  | tail
  | join
  | arith (op : ArithOp)
  | lambda
  | order (op : OrderOp)
  | equal
  | notEqual
  | raise
  deriving DecidableEq, Repr

/-- The builtin functions. Two builtins are the same function only if they are equal. -/
inductive Builtin where
  | operation (op : Operation)
  | eval
  | define
  | assign
  | branch
  | print
  | load
  deriving DecidableEq, Repr

def ArithOp.name : ArithOp → Bytes
  | .add => Bytes.of "+"
  | .sub => Bytes.of "-"
  | .mul => Bytes.of "*"
  | .div => Bytes.of "/"

def OrderOp.name : OrderOp → Bytes
  | .gt => Bytes.of ">"
  | .lt => Bytes.of "<"
  | .ge => Bytes.of ">="
  | .le => Bytes.of "<="

def Operation.name : Operation → Bytes
  | .list => Bytes.of "list"
  | .head => Bytes.of "head"
  | .tail => Bytes.of "tail"
  | .join => Bytes.of "join"
  | .arith op => op.name
  | .lambda => Bytes.of "\\"
  | .order op => op.name
  | .equal => Bytes.of "=="
  | .notEqual => Bytes.of "!="
  | .raise => Bytes.of "error"

namespace Builtin

def name : Builtin → Bytes
  | .operation op => op.name
  | .eval => Bytes.of "eval"
  | .define => Bytes.of "def"
  | .assign => Bytes.of "="
  | .branch => Bytes.of "if"
  | .print => Bytes.of "print"
  | .load => Bytes.of "load"

def all : List Builtin :=
  [.operation .list, .operation .head, .operation .tail, .eval, .operation .join,
   .operation (.arith .add), .operation (.arith .sub), .operation (.arith .mul), .operation (.arith .div),
   .operation .lambda, .define, .assign,
   .operation (.order .gt), .operation (.order .lt), .operation (.order .ge), .operation (.order .le),
   .operation .equal, .operation .notEqual, .branch, .print, .operation .raise, .load]

/-- The names that are bound to builtins at the start; the last is the old spelling of `def`. -/
def bound : List (Bytes × Builtin) :=
  all.map (fun b => (b.name, b)) ++ [(Bytes.of "doh", .define)]

end Builtin

end BraceLisp
