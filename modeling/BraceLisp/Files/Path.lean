import BraceLisp.Text.Layout

/-!
# Paths

Paths as sequences of names between slashes, and the shortest path that leads to the same place when no name
is a link.
-/

namespace BraceLisp.Path

def slash : UInt8 := 0x2F

def here : Bytes := Bytes.of "."

def above : Bytes := Bytes.of ".."

def longestName : Nat := 255

def longestPath : Nat := 4095

/-- The names between the slashes of a path, empty ones included. -/
def names (path : Bytes) : List Bytes :=
  Layout.parts slash path

def isRooted (path : Bytes) : Bool :=
  path.head? == some slash

/--
Takes out names that lead nowhere, and each name that the one after it leads back from. `done` are the names
kept so far, last first.
-/
def simplify (rooted : Bool) (done : List Bytes) : List Bytes → List Bytes
  | [] => done.reverse
  | name :: rest =>
      if name.isEmpty ∨ name = here then simplify rooted done rest
      else if name = above then
        match done with
        | last :: before =>
            if last = above then simplify rooted (above :: last :: before) rest
            else simplify rooted before rest
        | [] => simplify rooted (if rooted then [] else [above]) rest
      else simplify rooted (name :: done) rest

/-- The shortest path to the same place. -/
def clean (path : Bytes) : Bytes :=
  let kept := simplify (isRooted path) [] (names path)
  let body := Layout.separate [slash] kept
  if isRooted path then slash :: body
  else if body.isEmpty then here
  else body

def inDirectory (directory name : Bytes) : Bytes :=
  clean (directory ++ slash :: name)

end BraceLisp.Path
