import BraceLisp.Value.Basic

/-!
# Values under construction

A draft is a value that is being put together cell by cell. Cells can be added to every draft, not only to
lists: atoms and functions carry them along and do not show them. Every draft can be made into a list of the
cells it has; the list does not show what it was before, but is still called so as a formal, and still can be
called. A finished value carries nothing and was nothing before, and finishing a draft is what making a copy
of it does. The formals of a closure are drafts as well, so a closure can find its formals in the cells that
a symbol carries.
-/

namespace BraceLisp

/-- A value under construction. A list keeps what it was before it became one, and other values the cells they carry. -/
inductive Draft where
  | atom (v : Value) (cells : List Draft)
  | closure (formals body : Draft) (own : Frame) (entered : Bool) (cells : List Draft)
  | sexpr (origin : Option Draft) (cells : List Draft)
  | qexpr (origin : Option Draft) (cells : List Draft)
  deriving Inhabited, Repr

namespace Draft

mutual

def ofValue : Value → Draft
  | .closure formals body own entered => .closure (ofValue formals) (ofValue body) own entered []
  | .sexpr cells => .sexpr none (ofValues cells)
  | .qexpr cells => .qexpr none (ofValues cells)
  | v => .atom v []

def ofValues : List Value → List Draft
  | [] => []
  | v :: rest => ofValue v :: ofValues rest

end

mutual

/-- The value that a draft shows. -/
def finished : Draft → Value
  | .atom v _ => v
  | .closure formals body own entered _ => .closure (finished formals) (finished body) own entered
  | .sexpr _ cells => .sexpr (finishedAll cells)
  | .qexpr _ cells => .qexpr (finishedAll cells)

def finishedAll : List Draft → List Value
  | [] => []
  | d :: rest => finished d :: finishedAll rest

end

mutual

/-- A value is what its draft shows. -/
theorem finished_ofValue (v : Value) : (ofValue v).finished = v := by
  cases v with
  | closure formals body own entered =>
      simp only [ofValue, finished, finished_ofValue formals, finished_ofValue body]
  | sexpr cells => simp only [ofValue, finished, finishedAll_ofValues cells]
  | qexpr cells => simp only [ofValue, finished, finishedAll_ofValues cells]
  | _ => rfl

/-- Values are what their drafts show. -/
theorem finishedAll_ofValues (vs : List Value) : finishedAll (ofValues vs) = vs := by
  cases vs with
  | nil => rfl
  | cons v rest => simp only [ofValues, finishedAll, finished_ofValue v, finishedAll_ofValues rest]

end

mutual

/-- A draft that shows the same as another. It carries nothing, and was nothing before. -/
def copy : Draft → Draft
  | .atom v _ => ofValue v
  | .closure formals body own entered _ => .closure (copy formals) (copy body) own entered []
  | .sexpr _ cells => .sexpr none (copyAll cells)
  | .qexpr _ cells => .qexpr none (copyAll cells)

def copyAll : List Draft → List Draft
  | [] => []
  | d :: rest => copy d :: copyAll rest

end

mutual

/-- To copy a draft is to finish it. -/
theorem copy_eq (d : Draft) : d.copy = ofValue d.finished := by
  cases d with
  | atom v cells => rfl
  | closure formals body own entered cells => simp only [copy, finished, ofValue, copy_eq formals, copy_eq body]
  | sexpr origin cells => simp only [copy, finished, ofValue, copyAll_eq cells]
  | qexpr origin cells => simp only [copy, finished, ofValue, copyAll_eq cells]

/-- To copy drafts is to finish them. -/
theorem copyAll_eq (ds : List Draft) : copyAll ds = ofValues (finishedAll ds) := by
  cases ds with
  | nil => rfl
  | cons d rest => simp only [copyAll, finishedAll, ofValues, copy_eq d, copyAll_eq rest]

end

/-- A copy shows what the draft shows. -/
@[simp] theorem finished_copy (d : Draft) : d.copy.finished = d.finished := by
  rw [copy_eq, finished_ofValue]

/-- The cells of a list, and those that another draft carries. -/
def cells : Draft → List Draft
  | .atom _ cells => cells
  | .closure _ _ _ _ cells => cells
  | .sexpr _ cells => cells
  | .qexpr _ cells => cells

def withCells (d : Draft) (cells : List Draft) : Draft :=
  match d with
  | .atom v _ => .atom v cells
  | .closure formals body own entered _ => .closure formals body own entered cells
  | .sexpr origin _ => .sexpr origin cells
  | .qexpr origin _ => .qexpr origin cells

/-- A draft has the cells that it is given. -/
@[simp] theorem cells_withCells (d : Draft) (cs : List Draft) : (d.withCells cs).cells = cs := by
  cases d <;> rfl

def type : Draft → ValueType
  | .atom v _ => v.type
  | .closure .. => .function
  | .sexpr .. => .sexpr
  | .qexpr .. => .qexpr

/-- The type of a draft is the type of the value it shows. -/
theorem type_finished (d : Draft) : d.finished.type = d.type := by
  cases d <;> simp only [finished, type, Value.type]

def isError : Draft → Bool
  | .atom v _ => v.isError
  | _ => false

/-! ## What a draft was before it became a list -/

/-- The atom or closure that a draft is, or was before it became a list. It carries nothing. -/
def origin? : Draft → Option Draft
  | .atom v _ => some (.atom v [])
  | .closure formals body own entered _ => some (.closure formals body own entered [])
  | .sexpr origin _ => origin
  | .qexpr origin _ => origin

/-- A draft whose origin is another one. Lists stay lists. -/
def withOrigin (d origin : Draft) : Draft :=
  match d with
  | .sexpr _ cells => .sexpr (some origin) cells
  | .qexpr _ cells => .qexpr (some origin) cells
  | d => origin.withCells d.cells

def asCode (d : Draft) : Draft := .sexpr d.origin? d.cells

def asData (d : Draft) : Draft := .qexpr d.origin? d.cells

/-- Becoming a list changes no cells. -/
@[simp] theorem cells_asCode (d : Draft) : d.asCode.cells = d.cells := rfl

/-- Becoming a list changes no cells. -/
@[simp] theorem cells_asData (d : Draft) : d.asData.cells = d.cells := rfl

/-- The name of a symbol, also of one that has become a list, and the empty name for other drafts. -/
def symbolName (d : Draft) : Bytes :=
  match d.origin? with
  | some (.atom v _) => v.symbolName
  | _ => []

/-- Whether a draft is a function, or was one before it became a list. -/
def isCallable (d : Draft) : Bool :=
  match d.origin? with
  | some origin => origin.type = .function
  | none => false

/-! ## Putting drafts together -/

/-- A closure as it is when it is made: nothing bound and never entered. -/
def lambda (formals body : Draft) : Draft :=
  .closure formals body [] false []

def push (d x : Draft) : Draft :=
  d.withCells (d.cells ++ [x])

def append (d e : Draft) : Draft :=
  d.withCells (d.cells ++ e.cells)

def pop? (d : Draft) (i : Int) : Option (Draft × Draft) :=
  if i < 0 then none
  else match d.cells[i.toNat]? with
    | some x => some (x, d.withCells (d.cells.eraseIdx i.toNat))
    | none => none

end Draft

end BraceLisp
