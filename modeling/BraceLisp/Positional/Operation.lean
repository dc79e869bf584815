import BraceLisp.Eval.Operation
import BraceLisp.Positional.Basic

/-!
# Operations by position

What the builtins compute that evaluate nothing and change nothing. They check their arguments one after another,
and then take what they need from where the checks have found it.
-/

namespace BraceLisp.Positional

/-- A computation that can break down, and can stop early with an error of the language. -/
abbrev Checked := ExceptT Value (Except Breakdown)

def complain {α : Type} (name : Bytes) (particulars : List Particular) : Checked α := do
  let e ← raise name particulars
  throw e

/-- The number that a value is, and zero for other values. -/
def numberOf : Value → Int64
  | .number n => n
  | _ => 0

def textOf : Value → Bytes
  | .string s => s
  | _ => []

/-! ## Checks -/

def checkCount (function : Bytes) (args : List Value) (expected : Nat) : Checked Unit :=
  if args.length = expected then pure ()
  else complain (Bytes.of "built/args/count") [.text function, .int args.length, .int expected]

def checkType (function : Bytes) (args : List Value) (i : Nat) (type : ValueType) : Checked Unit := do
  let v ← cell args i
  if v.type = type then pure ()
  else complain (Bytes.of "built/args/type") [.text function, .int i, .text v.type.name, .text type.name]

def checkNotEmpty (function : Bytes) (args : List Value) (i : Nat) : Checked Unit := do
  let v ← cell args i
  if v.cells.length = 0 then complain (Bytes.of "built/args/empty") [.text function, .int i]
  else pure ()

def checkEach (function : Bytes) (args : List Value) (type : ValueType) : Checked Unit :=
  forM (List.range args.length) fun i => checkType function args i type

def checkOne (function : Bytes) (args : List Value) (type : ValueType) : Checked Unit := do
  checkCount function args 1
  checkType function args 0 type

def checkTwo (function : Bytes) (args : List Value) (type : ValueType) : Checked Unit := do
  checkCount function args 2
  checkType function args 0 type
  checkType function args 1 type

/-- Checks that values are symbols; the complaint ends with the type of the first that is none. -/
def checkSymbols (name : Bytes) (particulars : List Particular) : List Value → Checked Unit
  | [] => pure ()
  | v :: rest =>
      if v.type = .symbol then checkSymbols name particulars rest
      else complain name (particulars ++ [.text v.type.name])

def oneList (function : Bytes) (args : List Value) : Checked (List Value) := do
  checkOne function args .qexpr
  let (x, _) ← pop args 0
  return x.cells

def oneString (function : Bytes) (args : List Value) : Checked Bytes := do
  checkOne function args .string
  let x ← cell args 0
  return textOf x

/-! ## Lists -/

/-- Pops the second cell of a list until there is none. -/
def keepFirst (cells : List Value) : Except Breakdown (List Value) :=
  if cells.length ≤ 1 then .ok cells
  else
    match _h : pop cells 1 with
    | .error b => .error b
    | .ok (_, rest) => keepFirst rest
termination_by cells.length
decreasing_by exact length_lt_of_pop _h

def checkOneList (function : Bytes) (args : List Value) : Checked Unit := do
  checkOne function args .qexpr
  checkNotEmpty function args 0

def head (function : Bytes) (args : List Value) : Checked Value := do
  checkOneList function args
  let (v, _) ← pop args 0
  let cells ← keepFirst v.cells
  return v.withCells cells

def tail (function : Bytes) (args : List Value) : Checked Value := do
  checkOneList function args
  let (v, _) ← pop args 0
  let (_, cells) ← pop v.cells 0
  return v.withCells cells

/-- Moves the cells of the second list behind those of the first, one by one. -/
def joinTwo (x y : Value) : Checked Value :=
  drain (fun x v => pure (x.withCells (x.cells ++ [v]))) x y.cells

def join (function : Bytes) (args : List Value) : Checked Value := do
  checkEach function args .qexpr
  if args.length = 0 then return .qexpr []
  else
    let (x, rest) ← pop args 0
    drain joinTwo x rest

/-! ## Numbers -/

def arithmeticStep (op : ArithOp) (x y : Int64) : Checked Int64 :=
  if op = .div ∧ y = 0 then complain (Bytes.of "built/div/zero") []
  else if op.isExact x y (op.word x y) then pure (op.word x y)
  else complain (Bytes.of "built/overflow") [.text op.name]

/-- The number to start from: the first, negated if it is subtracted and nothing comes after it. -/
def arithmeticStart (op : ArithOp) (x : Int64) (rest : List Value) : Checked Int64 :=
  if op = .sub ∧ rest.length = 0 then arithmeticStep op 0 x else pure x

def arithmetic (op : ArithOp) (args : List Value) : Checked Value := do
  checkEach op.name args .number
  if args.length = 0 then complain (Bytes.of "built/args/none") [.text op.name]
  else
    let (x, rest) ← pop args 0
    let start ← arithmeticStart op (numberOf x) rest
    let n ← drain (fun n y => arithmeticStep op n (numberOf y)) start rest
    return .number n

def order (op : OrderOp) (args : List Value) : Checked Value := do
  checkTwo op.name args .number
  let x ← cell args 0
  let y ← cell args 1
  return .ofBool (op.holds (numberOf x) (numberOf y))

/-! ## Equality -/

mutual

/-- Whether two values are equal, where the cells of the second are found by position. -/
def equal : Value → Value → Except Breakdown Bool
  | .closure f b _ _, .closure f' b' _ _ => do
      let formals ← equal f f'
      if formals then equal b b' else return false
  | .sexpr cs, .sexpr cs' => if cs.length = cs'.length then equalFrom cs cs' 0 else return false
  | .qexpr cs, .qexpr cs' => if cs.length = cs'.length then equalFrom cs cs' 0 else return false
  | v, w => return v.equal w

def equalFrom : List Value → List Value → Nat → Except Breakdown Bool
  | [], _, _ => return true
  | v :: vs, ws, i => do
      let w ← cell ws i
      let same ← equal v w
      if same then equalFrom vs ws (i + 1) else return false

end

def compare (function : Bytes) (sense : Bool) (args : List Value) : Checked Value := do
  checkCount function args 2
  let x ← cell args 0
  let y ← cell args 1
  let same ← equal x y
  return .ofBool (same == sense)

/-! ## Functions and errors -/

def lambda (function : Bytes) (args : List Value) : Checked Value := do
  checkTwo function args .qexpr
  let first ← cell args 0
  checkSymbols (Bytes.of "built/lambda/formals") [] first.cells
  let (formals, rest) ← pop args 0
  let (body, _) ← pop rest 0
  return .lambda formals body

def raiseError (function : Bytes) (args : List Value) : Checked Value := do
  let message ← oneString function args
  complain (Bytes.of "built/error") [.text message]

def compute (op : Operation) (args : List Value) : Checked Value :=
  match op with
  | .list => return .qexpr args
  | .head => head op.name args
  | .tail => tail op.name args
  | .join => join op.name args
  | .arith operator => arithmetic operator args
  | .lambda => lambda op.name args
  | .order comparison => order comparison args
  | .equal => compare op.name true args
  | .notEqual => compare op.name false args
  | .raise => raiseError op.name args

end BraceLisp.Positional
