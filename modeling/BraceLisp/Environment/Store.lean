import BraceLisp.Environment.Scope

/-!
# Linked environments

Environments that are referred to by number and linked to the ones enclosing them. Links are shared: many
environments may be enclosed by the same one. What happens in an environment happens in the scope that
its links lead to.
-/

namespace BraceLisp

structure Environment where
  frame : Frame
  outer : Option Nat
  deriving Inhabited, Repr

/-- The environments made so far; an environment is referred to by its place in the list. -/
structure Store where
  environments : List Environment
  deriving Inhabited, Repr

namespace Store

def single (frame : Frame) : Store := ⟨[⟨frame, none⟩]⟩

def frame (store : Store) (ref : Nat) : Frame :=
  ((store.environments[ref]?).map Environment.frame).getD []

def outer? (store : Store) (ref : Nat) : Option Nat :=
  (store.environments[ref]?).bind Environment.outer

/-- The first environments from `ref` outwards, at most `limit` of them. -/
def chainFrom (store : Store) : (limit : Nat) → (ref : Nat) → List Nat
  | 0, _ => []
  | limit + 1, ref =>
      match store.outer? ref with
      | some outer => ref :: chainFrom store limit outer
      | none => [ref]

/-- The environments from `ref` outwards, each of them once; links that form a circle are followed around it. -/
def chain (store : Store) (ref : Nat) : List Nat :=
  (store.chainFrom store.environments.length ref).eraseDups

def root (store : Store) (ref : Nat) : Nat :=
  (store.chain ref).getLastD ref

def setFrame (store : Store) (ref : Nat) (frame : Frame) : Store :=
  ⟨store.environments.modify ref fun e => { e with frame }⟩

def new (store : Store) (outer : Option Nat) : Nat × Store :=
  (store.environments.length, ⟨store.environments ++ [⟨[], outer⟩]⟩)

/-- A new environment with the bindings and the enclosing environment of another. -/
def copy (store : Store) (ref : Nat) : Nat × Store :=
  (store.environments.length,
    ⟨store.environments ++ [⟨store.frame ref, store.outer? ref⟩]⟩)

def link (store : Store) (ref : Nat) (outer : Option Nat) : Store :=
  ⟨store.environments.modify ref fun e => { e with outer }⟩

def put (store : Store) (ref : Nat) (name : Bytes) (v : Value) : Store :=
  store.setFrame ref (Bindings.put name v (store.frame ref))

def define (store : Store) (ref : Nat) (name : Bytes) (v : Value) : Store :=
  store.put (store.root ref) name v

/-- Forgets the bindings of an environment, and nothing of those around it. -/
def delete (store : Store) (ref : Nat) : Store :=
  store.setFrame ref []

def getIn? (store : Store) (name : Bytes) : List Nat → Option Value
  | [] => none
  | ref :: rest =>
      match Bindings.get? name (store.frame ref) with
      | some v => some v
      | none => getIn? store name rest

/-- The value of a name in an environment or the nearest one around it that binds it. -/
def get? (store : Store) (ref : Nat) (name : Bytes) : Option Value :=
  store.getIn? name (store.chain ref)

def scope (store : Store) (ref : Nat) : Scope :=
  let frames := (store.chain ref).map store.frame
  ⟨frames.dropLast, frames.getLastD []⟩

def setFrames (store : Store) : List (Nat × Frame) → Store
  | [] => store
  | (ref, frame) :: rest => (store.setFrame ref frame).setFrames rest

/-- Puts the frames of a scope back into the environments it was made from. -/
def update (store : Store) (ref : Nat) (scope : Scope) : Store :=
  store.setFrames ((store.chain ref).zip (scope.inner ++ [scope.root]))

end Store

end BraceLisp
