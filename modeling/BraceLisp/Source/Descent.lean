import BraceLisp.Source.Parse

/-!
# Building trees by descent

Tokens read once more, with a function for each construct that calls itself for what is nested inside: a node is an atom
or a list, the cells of a list are read up to the delimiter that closes it, and the forms of a text up to its end. Each
of them complains about the tokens that it cannot go on with. Behind the tokens of a text its end is read, again and
again.
-/

namespace BraceLisp.Source.Descent

/-- The tokens that are left when some have been read. -/
abbrev Left (tokens : List Token) := { more : List Token // more.length < tokens.length }

/-- Some tokens are left of the given ones; nothing is said of whether any have been read. -/
abbrev AtMost (tokens : List Token) := { more : List Token // more.length ≤ tokens.length }

/-- The error that a list has not been closed where the text ends. -/
def unclosed (d : Delimiter) (opener last : Token) : ParseError :=
  .atToken last (.unclosed d opener.line (opener.startColumn + 1))

variable (last : Token)

mutual

def node : (tokens : List Token) → Except ParseError (Node × Left tokens)
  | [] => .error (.atToken last (.illegal "unexpected end of input".toList))
  | t :: rest =>
      match t.kind with
      | .number => .ok (.number t, ⟨rest, Nat.lt_succ_self _⟩)
      | .string => .ok (.string t, ⟨rest, Nat.lt_succ_self _⟩)
      | .symbol => .ok (.symbol t, ⟨rest, Nat.lt_succ_self _⟩)
      | .comment => .ok (.comment t, ⟨rest, Nat.lt_succ_self _⟩)
      | .opening d => do
          let (nodes, ⟨more, hmore⟩) ← cells d t rest
          return (.list d t nodes, ⟨more, Nat.lt_succ_of_le hmore⟩)
      | .illegal => .error (.atToken t (.illegal t.literal))
      | .eof => .error (.atToken t (.illegal "unexpected end of input".toList))
      | .closing d => .error (.atToken t (.stray d))
termination_by tokens => (tokens.length, 0)
decreasing_by exact .left _ _ (Nat.lt_succ_self _)

def cells (d : Delimiter) (opener : Token) : (tokens : List Token) → Except ParseError (List Node × AtMost tokens)
  | [] => .error (unclosed d opener last)
  | t :: rest =>
      if t.kind = .closing d then .ok ([], ⟨rest, Nat.le_succ _⟩)
      else
        match t.kind with
        | .eof => .error (unclosed d opener t)
        | .closing got => .error (.atToken t (.mismatched d got))
        | _ => do
            let (first, ⟨more, hmore⟩) ← node (t :: rest)
            let (others, ⟨more', hmore'⟩) ← cells d opener more
            return (first :: others, ⟨more', Nat.le_of_lt (Nat.lt_of_le_of_lt hmore' hmore)⟩)
termination_by tokens => (tokens.length, 1)
decreasing_by
  · exact .right _ Nat.zero_lt_one
  · exact .left _ _ hmore

end

def forms : (tokens : List Token) → Except ParseError (List Node)
  | [] => .ok []
  | t :: rest =>
      match t.kind with
      | .eof => .ok []
      | .closing d => .error (.atToken t (.stray d))
      | _ => do
          let (form, ⟨more, _⟩) ← node last (t :: rest)
          let others ← forms more
          return form :: others
termination_by tokens => tokens.length
decreasing_by assumption

def parse (source : Bytes) (text : List Char) : Except ParseError Root := do
  let tokens := Token.scan source text
  let last := tokens.getLastD (Token.atEnd source .start)
  let forms ← forms last tokens.dropLast
  return ⟨tokens.headD last, forms⟩

end BraceLisp.Source.Descent
