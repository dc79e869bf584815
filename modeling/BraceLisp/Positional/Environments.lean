import BraceLisp.Environment.Change
import BraceLisp.Positional.Slots

/-!
# Linked environments by position

Environments that keep their bindings in slots of their own and are linked to those that enclose them. A walk along
the links can come to a link that leads nowhere, and it can go around in a circle, which it does if there are more
steps than environments.
-/

namespace BraceLisp.Positional

structure LinkedSlots where
  slots : Slots
  outer : Option Nat

/-- The outermost environment around one, at most `limit` steps away. -/
def outermost (es : List LinkedSlots) : (limit : Nat) → (ref : Nat) → Option (Except Breakdown Nat)
  | 0, _ => none
  | limit + 1, ref =>
      match entry es ref with
      | .error b => some (.error b)
      | .ok e =>
          match e.outer with
          | some outer => outermost es limit outer
          | none => some (.ok ref)

/-- The value of a name in an environment or the nearest one around it that binds it, at most `limit` steps away. -/
def lookUp (es : List LinkedSlots) (name : Bytes) :
    (limit : Nat) → (ref : Nat) → Option (Except Breakdown (Option Value))
  | 0, _ => none
  | limit + 1, ref =>
      match (do
        let e ← entry es ref
        let found ← e.slots.get? name
        return (found, e.outer)) with
      | .error b => some (.error b)
      | .ok (some v, _) => some (.ok (some v))
      | .ok (none, some outer) => lookUp es name limit outer
      | .ok (none, none) => some (.ok none)

def modifyAt (es : List LinkedSlots) (ref : Nat) (f : LinkedSlots → Except Breakdown LinkedSlots) :
    Except Breakdown (List LinkedSlots) := do
  let e ← entry es ref
  let changed ← f e
  return es.set ref changed

def putAt (es : List LinkedSlots) (ref : Nat) (name : Bytes) (v : Value) : Except Breakdown (List LinkedSlots) :=
  modifyAt es ref fun e => (e.slots.put name v).map fun slots => { e with slots }

/-- Carries out a change; there is no result if a walk along the links goes around in a circle. -/
def carryOut (es : List LinkedSlots) : Store.Change → Option (Except Breakdown (List LinkedSlots))
  | .new => some (.ok (es ++ [⟨.empty, none⟩]))
  | .put ref name v => some (putAt es ref name v)
  | .define ref name v => (outermost es es.length ref).map fun root => root >>= fun root => putAt es root name v
  | .copy ref => some ((entry es ref).map fun e => es ++ [e])
  | .delete ref => some (modifyAt es ref fun e => .ok { e with slots := .empty })
  | .link ref outer => some (modifyAt es ref fun e => .ok { e with outer })

def carryOutAll : List Store.Change → List LinkedSlots → Option (Except Breakdown (List LinkedSlots))
  | [], es => some (.ok es)
  | change :: rest, es =>
      match carryOut es change with
      | none => none
      | some (.error b) => some (.error b)
      | some (.ok after) => carryOutAll rest after

end BraceLisp.Positional
