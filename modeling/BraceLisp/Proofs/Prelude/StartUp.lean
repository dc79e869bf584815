import BraceLisp.Proofs.Eval.Yields
import BraceLisp.Proofs.Session.Reachable
import BraceLisp.Text.Utf8.RoundTrip
import BraceLisp.Value.Identity

/-!
# What the prelude binds

The text of the prelude is read and evaluated when a session starts. Here its functions stand as the values that come of
it, and `globals_start` says that these values, in this order and behind the builtins, are all that a session begins
with; it is what ties statements about the values to the text.

Nothing can be said about a name that has been bound to something else since. `Session.BindsStart` is the condition
under which statements about the functions of the prelude hold.
-/

namespace BraceLisp

namespace Prelude

def symbol (name : String) : Value :=
  .symbol (Bytes.of name)

def apply (name : String) (args : List Value) : Value :=
  .sexpr (symbol name :: args)

def function (formals : List String) (body : List Value) : Value :=
  .lambda (.qexpr (formals.map symbol)) (.qexpr body)

/-! ## The functions of the prelude -/

/-- The function `fun`, which takes the name of a function in front of its formals. -/
def defineFunction : Value :=
  function ["f", "b"]
    [symbol "def", apply "head" [symbol "f"], apply "\\" [apply "tail" [symbol "f"], symbol "b"]]

/-- The items of a list become the arguments of a function. -/
def unpack : Value :=
  function ["f", "l"] [symbol "eval", apply "join" [apply "list" [symbol "f"], symbol "l"]]

def pack : Value :=
  function ["f", "&", "xs"] [symbol "f", symbol "xs"]

def isNil (name : String) : Value :=
  apply "==" [symbol name, symbol "nil"]

def inSequence : Value :=
  function ["&", "l"]
    [symbol "if", isNil "l", .qexpr [symbol "nil"], .qexpr [symbol "last", symbol "l"]]

/-- The function `let`, which evaluates its argument in the frame of a call. -/
def newScope : Value :=
  function ["b"]
    [.sexpr [apply "\\" [.qexpr [symbol "_"], symbol "b"], .sexpr []]]

def not : Value := function ["x"] [symbol "-", .number 1, symbol "x"]

def or : Value := function ["x", "y"] [symbol "+", symbol "x", symbol "y"]

def and : Value := function ["x", "y"] [symbol "*", symbol "x", symbol "y"]

def flip : Value := function ["f", "a", "b"] [symbol "f", symbol "b", symbol "a"]

def ghost : Value := function ["&", "xs"] [symbol "eval", symbol "xs"]

def comp : Value := function ["f", "g", "x"] [symbol "f", apply "g" [symbol "x"]]

def fst : Value := function ["l"] [symbol "eval", apply "head" [symbol "l"]]

def snd : Value := function ["l"] [symbol "eval", apply "head" [apply "tail" [symbol "l"]]]

def trd : Value :=
  function ["l"] [symbol "eval", apply "head" [apply "tail" [apply "tail" [symbol "l"]]]]

def len : Value :=
  function ["l"]
    [symbol "if", isNil "l", .qexpr [.number 0],
      .qexpr [symbol "+", .number 1, apply "len" [apply "tail" [symbol "l"]]]]

def nth : Value :=
  function ["n", "l"]
    [symbol "if", apply "==" [symbol "n", .number 0], .qexpr [symbol "fst", symbol "l"],
      .qexpr [symbol "nth", apply "-" [symbol "n", .number 1], apply "tail" [symbol "l"]]]

def last : Value :=
  function ["l"]
    [symbol "nth", apply "-" [apply "len" [symbol "l"], .number 1], symbol "l"]

def take : Value :=
  function ["n", "l"]
    [symbol "if", apply "==" [symbol "n", .number 0], .qexpr [symbol "nil"],
      .qexpr [symbol "join", apply "head" [symbol "l"],
        apply "take" [apply "-" [symbol "n", .number 1], apply "tail" [symbol "l"]]]]

def drop : Value :=
  function ["n", "l"]
    [symbol "if", apply "==" [symbol "n", .number 0], .qexpr [symbol "l"],
      .qexpr [symbol "drop", apply "-" [symbol "n", .number 1], apply "tail" [symbol "l"]]]

def split : Value :=
  function ["n", "l"]
    [symbol "list", apply "take" [symbol "n", symbol "l"], apply "drop" [symbol "n", symbol "l"]]

def elem : Value :=
  function ["x", "l"]
    [symbol "if", isNil "l", .qexpr [symbol "false"],
      .qexpr [symbol "if", apply "==" [symbol "x", apply "fst" [symbol "l"]], .qexpr [symbol "true"],
        .qexpr [symbol "elem", symbol "x", apply "tail" [symbol "l"]]]]

/-- A function that joins the lists that come of each item, which is the first of `l` in the code for it. -/
def joining (name : String) (piece : Value) : Value :=
  function ["f", "l"]
    [symbol "if", isNil "l", .qexpr [symbol "nil"],
      .qexpr [symbol "join", piece, apply name [symbol "f", apply "tail" [symbol "l"]]]]

def ofFirst : Value := apply "f" [apply "fst" [symbol "l"]]

def map : Value := joining "map" (apply "list" [ofFirst])

def filter : Value :=
  joining "filter" (apply "if" [ofFirst, .qexpr [symbol "head", symbol "l"], .qexpr [symbol "nil"]])

def foldl : Value :=
  function ["f", "z", "l"]
    [symbol "if", isNil "l", .qexpr [symbol "z"],
      .qexpr [symbol "foldl", symbol "f", apply "f" [symbol "z", apply "fst" [symbol "l"]],
        apply "tail" [symbol "l"]]]

/-- A function that puts an operation of arithmetic between the numbers in a list, with a given number in front. -/
def total (operation : String) (unit : Int64) : Value :=
  function ["l"] [symbol "foldl", symbol operation, .number unit, symbol "l"]

def sum : Value := total "+" 0

def product : Value := total "*" 1

/-- Clauses are lists of a condition and a value. -/
def select : Value :=
  function ["&", "cs"]
    [symbol "if", isNil "cs", .qexpr [symbol "error", .string (Bytes.of "No selection found")],
      .qexpr [symbol "if", apply "fst" [apply "fst" [symbol "cs"]],
        .qexpr [symbol "snd", apply "fst" [symbol "cs"]],
        .qexpr [symbol "unpack", symbol "select", apply "tail" [symbol "cs"]]]]

/-- Clauses are lists of a key and a value. -/
def case : Value :=
  function ["x", "&", "cs"]
    [symbol "if", isNil "cs", .qexpr [symbol "error", .string (Bytes.of "No case found")],
      .qexpr [symbol "if", apply "==" [symbol "x", apply "fst" [apply "fst" [symbol "cs"]]],
        .qexpr [symbol "snd", apply "fst" [symbol "cs"]],
        .qexpr [symbol "unpack", symbol "case",
          apply "join" [apply "list" [symbol "x"], apply "tail" [symbol "cs"]]]]]

def meanings : List (String × Value) :=
  [("nil", .qexpr []), ("true", .number 1), ("false", .number 0), ("fun", defineFunction),
   ("unpack", unpack), ("pack", pack), ("curry", unpack), ("uncurry", pack), ("do", inSequence), ("let", newScope),
   ("not", not), ("or", or), ("and", and), ("flip", flip), ("ghost", ghost), ("comp", comp),
   ("fst", fst), ("snd", snd), ("trd", trd), ("len", len), ("nth", nth), ("last", last),
   ("take", take), ("drop", drop), ("split", split), ("elem", elem), ("map", map), ("filter", filter),
   ("foldl", foldl), ("sum", sum), ("product", product), ("select", select), ("otherwise", .number 1),
   ("case", case)]

theorem isSettled_of_mem_meanings {name : String} {v : Value} (h : (name, v) ∈ meanings) : v.isSettled := by
  have hall : ∀ entry ∈ meanings, entry.2.isSettled := by decide
  exact hall (name, v) h

def startUp : Frame :=
  Session.builtins ++ meanings.map fun (name, v) => (Bytes.of name, v)

theorem globals_start : (Session.start 8 true).map Session.globals = some startUp := by
  unfold Session.start Session.loadPrelude forms text definitions
  simp only [List.flatMap_cons, List.flatMap_nil]
  -- as lists of characters the definitions are evaluated much faster than as texts
  repeat rw [String.toList_ofList]
  decide +kernel

theorem nodup_names_startUp : (Bindings.names startUp).Nodup := by
  decide +kernel

end Prelude

namespace Session

/-- An outermost environment in which names mean what they mean when a session starts with the prelude. -/
def BindsStart (root : Frame) : Prop :=
  ∃ depth s, start depth true = some s ∧
    ∀ name v, Bindings.get? name s.globals = some v → Bindings.get? name root = some v

/-- A session starts in the same way at whatever depth it can start. -/
theorem eq_of_start {depth depth' : Nat} {s s' : Session} (h : start depth true = some s)
    (h' : start depth' true = some s') : s = s' := by
  simp only [start, if_true, Option.map_eq_some_iff, Prod.exists] at h h'
  obtain ⟨complaint, _, hload, rfl⟩ := h
  obtain ⟨complaint', _, hload', rfl⟩ := h'
  rcases evalEach_of_loadForms hload with ⟨e, herror, rfl⟩ | ⟨forms, results, t, hforms, heval, rfl⟩
  · rcases evalEach_of_loadForms hload' with ⟨-, -, rfl⟩ | ⟨forms, -, -, hforms, -, -⟩
    · rfl
    · cases herror.symm.trans hforms
  · rcases evalEach_of_loadForms hload' with ⟨e, herror, -⟩ | ⟨forms', results', t', hforms', heval', rfl⟩
    · cases herror.symm.trans hforms
    · obtain rfl := Except.ok.inj (hforms.symm.trans hforms')
      have hdeep := evalEach_below (eval_below_of_le _ (Nat.le_max_left depth depth')) forms _ _ heval
      have hdeep' := evalEach_below (eval_below_of_le _ (Nat.le_max_right depth depth')) forms _ _ heval'
      obtain ⟨-, rfl⟩ := Prod.mk.inj (Option.some.inj (hdeep.symm.trans hdeep'))
      rfl

theorem bindsStart_iff {root : Frame} :
    BindsStart root ↔ ∀ entry ∈ Prelude.startUp, Bindings.get? entry.1 root = some entry.2 := by
  obtain ⟨s₀, hs₀, hglobals⟩ := Option.map_eq_some_iff.mp Prelude.globals_start
  constructor
  · rintro ⟨depth, s, hs, hroot⟩ ⟨name, v⟩ hentry
    obtain rfl := eq_of_start hs hs₀
    refine hroot name v ?_
    rw [hglobals]
    exact Bindings.get?_of_mem Prelude.nodup_names_startUp hentry
  · intro h
    refine ⟨8, s₀, hs₀, fun name v hv => ?_⟩
    rw [hglobals] at hv
    exact h (name, v) (Bindings.mem_of_get? hv)

theorem bindsStart_startUp : BindsStart Prelude.startUp :=
  bindsStart_iff.mpr fun _ hentry => Bindings.get?_of_mem Prelude.nodup_names_startUp hentry

end Session

end BraceLisp
