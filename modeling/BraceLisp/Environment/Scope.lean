import BraceLisp.Value.Basic

/-!
# Scopes

A scope is a chain of environments seen from the innermost: the frames of the calls in progress and, at
the end, the outermost environment. Names are looked up from the inside out.
-/

namespace BraceLisp

/-- A chain of environments: the inner frames, innermost first, and the outermost one. -/
structure Scope where
  inner : List Frame
  root : Frame
  deriving Inhabited, Repr

namespace Scope

def getIn? (name : Bytes) : List Frame → Option Value
  | [] => none
  | frame :: rest =>
      match Bindings.get? name frame with
      | some v => some v
      | none => getIn? name rest

/-- The value of a name in the innermost environment that binds it. -/
def get? (scope : Scope) (name : Bytes) : Option Value :=
  match getIn? name scope.inner with
  | some v => some v
  | none => Bindings.get? name scope.root

/-- Binds names in the innermost environment. -/
def assign (scope : Scope) (bindings : List (Bytes × Value)) : Scope :=
  match scope.inner with
  | [] => { scope with root := Bindings.putAll bindings scope.root }
  | frame :: rest => { scope with inner := Bindings.putAll bindings frame :: rest }

/-- Binds names in the outermost environment. -/
def define (scope : Scope) (bindings : List (Bytes × Value)) : Scope :=
  { scope with root := Bindings.putAll bindings scope.root }

/-- The scope inside a frame hung below the innermost environment. -/
def enter (scope : Scope) (frame : Frame) : Scope :=
  { scope with inner := frame :: scope.inner }

def leave (scope : Scope) : Frame × Scope :=
  match scope.inner with
  | [] => ([], scope)
  | frame :: rest => (frame, { scope with inner := rest })

end Scope

end BraceLisp
