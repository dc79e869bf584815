import BraceLisp.Environment.Store

/-!
# Changes to linked environments

All that can be done to linked environments from outside, one change after another, and what has been put into each
of them since it was made or last emptied.
-/

namespace BraceLisp

namespace Store

inductive Change where
  | new
  | put (ref : Nat) (name : Bytes) (v : Value)
  | define (ref : Nat) (name : Bytes) (v : Value)
  | copy (ref : Nat)
  | delete (ref : Nat)
  | link (ref : Nat) (outer : Option Nat)
  deriving Repr

/-- What has been put into each environment, the oldest first. -/
abbrev Puts := Nat → List (Bytes × Value)

namespace Change

def apply : Change → Store → Store
  | .new, store => (store.new none).2
  | .put ref name v, store => store.put ref name v
  | .define ref name v, store => store.define ref name v
  | .copy ref, store => (store.copy ref).2
  | .delete ref, store => store.delete ref
  | .link ref outer, store => store.link ref outer

/-- The environment that a change is made through. -/
def through? : Change → Option Nat
  | .new => none
  | .put ref _ _ | .define ref _ _ | .copy ref | .delete ref | .link ref _ => some ref

/-- The environment that has other bindings after a change. -/
def target? (store : Store) : Change → Option Nat
  | .put ref _ _ | .delete ref => some ref
  | .define ref _ _ => some (store.root ref)
  | .new | .copy _ | .link _ _ => none

def record (store : Store) (puts : Puts) : Change → Puts
  | .put ref name v => fun e => if e = ref then puts e ++ [(name, v)] else puts e
  | .define ref name v => fun e => if e = store.root ref then puts e ++ [(name, v)] else puts e
  | .copy ref => fun e => if e = store.environments.length then puts ref else puts e
  | .delete ref => fun e => if e = ref then [] else puts e
  | .new | .link _ _ => puts

end Change

def applyAll : List Change → Store → Store
  | [], store => store
  | change :: rest, store => applyAll rest (change.apply store)

def recordAll : List Change → Store → Puts → Puts
  | [], _, puts => puts
  | change :: rest, store, puts => recordAll rest (change.apply store) (change.record store puts)

end Store

end BraceLisp
