import BraceLisp.Eval.Basic

/-!
# The prelude

The library functions that are written in the language itself. They are evaluated in the global
environment when a session starts, unless it is to start with the builtins alone.
-/

namespace BraceLisp.Prelude

def sourceName : Bytes := Bytes.of "prelude"

/-- The definitions of the prelude, in order. Some of them use the ones before. -/
def definitions : List String :=
  [
   -- Atoms
   r"(def {nil} {})",
   r"(def {true} 1)",
   r"(def {false} 0)",
   -- Function definitions
   r"(def {fun} (\ {f b} {
  def (head f) (\ (tail f) b)
}))",
   -- Unpack a list for a function
   r"(fun {unpack f l} {
  eval (join (list f) l)
})",
   -- Pack a list for a function
   r"(fun {pack f & xs} {f xs})",
   -- Curried and uncurried calling
   r"(def {curry} unpack)",
   r"(def {uncurry} pack)",
   -- Perform several things in sequence
   r"(fun {do & l} {
  if (== l nil)
    {nil}
    {last l}
})",
   -- Open a new scope
   r"(fun {let b} {
  ((\ {_} b) ())
})",
   -- Logical functions
   r"(fun {not x}   {- 1 x})",
   r"(fun {or x y}  {+ x y})",
   r"(fun {and x y} {* x y})",
   -- Miscellaneous functions
   r"(fun {flip f a b} {f b a})",
   r"(fun {ghost & xs} {eval xs})",
   r"(fun {comp f g x} {f (g x)})",
   -- First, second or third item in a list
   r"(fun {fst l} { eval (head l) })",
   r"(fun {snd l} { eval (head (tail l)) })",
   r"(fun {trd l} { eval (head (tail (tail l))) })",
   -- List length
   r"(fun {len l} {
  if (== l nil)
    {0}
    {+ 1 (len (tail l))}
})",
   -- Nth item in a list, counting from 0
   r"(fun {nth n l} {
  if (== n 0)
    {fst l}
    {nth (- n 1) (tail l)}
})",
   -- Last item in a list
   r"(fun {last l} {nth (- (len l) 1) l})",
   -- Take n items
   r"(fun {take n l} {
  if (== n 0)
    {nil}
    {join (head l) (take (- n 1) (tail l))}
})",
   -- Drop n items
   r"(fun {drop n l} {
  if (== n 0)
    {l}
    {drop (- n 1) (tail l)}
})",
   -- Split at n
   r"(fun {split n l} {list (take n l) (drop n l)})",
   -- Is x an element of the list?
   r"(fun {elem x l} {
  if (== l nil)
    {false}
    {if (== x (fst l)) {true} {elem x (tail l)}}
})",
   -- Apply a function to a list
   r"(fun {map f l} {
  if (== l nil)
    {nil}
    {join (list (f (fst l))) (map f (tail l))}
})",
   -- Keep the items a function says yes to
   r"(fun {filter f l} {
  if (== l nil)
    {nil}
    {join (if (f (fst l)) {head l} {nil}) (filter f (tail l))}
})",
   -- Fold left
   r"(fun {foldl f z l} {
  if (== l nil)
    {z}
    {foldl f (f z (fst l)) (tail l)}
})",
   r"(fun {sum l} {foldl + 0 l})",
   r"(fun {product l} {foldl * 1 l})",
   -- Conditionals
   r#"(fun {select & cs} {
  if (== cs nil)
    {error "No selection found"}
    {if (fst (fst cs)) {snd (fst cs)} {unpack select (tail cs)}}
})"#,
   r"(def {otherwise} true)",
   r#"(fun {case x & cs} {
  if (== cs nil)
    {error "No case found"}
    {if (== x (fst (fst cs)))
      {snd (fst cs)}
      {unpack case (join (list x) (tail cs))}}
})"#]

def text : List Char :=
  definitions.flatMap fun definition => definition.toList ++ ['\n']

def forms : Except Source.ParseError (List Value) :=
  (Source.Root.parse sourceName text).map Source.Root.program

end BraceLisp.Prelude
