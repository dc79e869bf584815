import BraceLisp.Fault.Basic

/-!
# Binding arguments

How the arguments of a call are bound to the formals of a closure, one by one from the left. The formal
`&` announces that the one formal after it takes all the arguments that are left, as a Q-expression. Too
few arguments are no error: the closure then waits for the rest.
-/

namespace BraceLisp

/-- The formal that announces the last one, which takes all remaining arguments. -/
def variadicMark : Bytes := Bytes.of "&"

/-- How binding ends, with the bindings made: all formals are bound, some are left over, or the arguments do not fit. -/
inductive Bound where
  | saturated (own : Frame)
  | waiting (formals : List Value) (own : Frame)
  | failed (fault : Fault) (formals : List Value) (own : Frame)

namespace Bound

/--
Binds arguments to formals, adding to the bindings `own`. `tooMany` is the complaint if arguments are left
over.
-/
def bind (tooMany : Fault) : (formals args : List Value) → (own : Frame) → Bound
  | [], [], own => .saturated own
  | [], _ :: _, own => .failed tooMany [] own
  | formal :: formals, [], own =>
      if formal.symbolName = variadicMark then
        match formals with
        | [last] => .saturated (Bindings.put last.symbolName (.qexpr []) own)
        | _ => .failed .variadicEnd (formal :: formals) own
      else .waiting (formal :: formals) own
  | formal :: formals, arg :: args, own =>
      if formal.symbolName = variadicMark then
        match formals with
        | [last] => .saturated (Bindings.put last.symbolName (.qexpr (arg :: args)) own)
        | _ => .failed .variadicRest formals own
      else bind tooMany formals args (Bindings.put formal.symbolName arg own)

/-- Binds the arguments of a call; the complaint about too many gives both numbers. -/
def ofCall (formals args : List Value) (own : Frame) : Bound :=
  bind (.callArity (.int args.length) (.int formals.length)) formals args own

end Bound

end BraceLisp
