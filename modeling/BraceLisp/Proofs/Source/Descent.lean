import BraceLisp.Proofs.Source.Forms
import BraceLisp.Proofs.Source.Scan
import BraceLisp.Source.Descent

/-!
# Descent and the stack

Reading by descent and reading with a stack of open lists come to the same tree or the same error. Where the one is
inside calls for lists that are not closed yet, the other has these lists on its stack: behind a node, and behind the
delimiter that closes a list, the one returns and the other goes on.
-/

namespace BraceLisp.Source.Descent

open Root

/-- A node can be looked for at a token: the text does not end there, and no list does. -/
def NodeAhead (t : Token) : Prop := t.kind ≠ .eof ∧ ∀ d, t.kind ≠ .closing d

theorem eof_or_closing_or_nodeAhead (t : Token) : t.kind = .eof ∨ (∃ d, t.kind = .closing d) ∨ NodeAhead t := by
  cases hkind : t.kind with
  | eof => exact .inl rfl
  | closing d => exact .inr (.inl ⟨d, rfl⟩)
  | _ => exact .inr (.inr ⟨by simp [hkind], by simp [hkind]⟩)

variable {last t : Token} {rest : List Token}

theorem cells_cons (hahead : NodeAhead t) (d : Delimiter) (opener : Token) :
    cells last d opener (t :: rest) = node last (t :: rest) >>= fun r =>
      cells last d opener r.2.val >>= fun r' =>
        pure (r.1 :: r'.1, ⟨r'.2.val, Nat.le_of_lt (Nat.lt_of_le_of_lt r'.2.property r.2.property)⟩) := by
  rw [cells, if_neg (hahead.2 d)]
  cases hkind : t.kind with
  | eof => exact absurd hkind hahead.1
  | closing got => exact absurd hkind (hahead.2 got)
  | _ => rfl

theorem forms_cons (hahead : NodeAhead t) :
    forms last (t :: rest) = node last (t :: rest) >>= fun r =>
      forms last r.2.val >>= fun others => pure (r.1 :: others) := by
  rw [forms]
  cases hkind : t.kind with
  | eof => exact absurd hkind hahead.1
  | closing got => exact absurd hkind (hahead.2 got)
  | _ => rfl

/-! ## The same reading -/

/-- What is read as a node is read with a stack too, whatever lists are open. -/
def NodeAgrees (last : Token) (tokens : List Token) : Prop :=
  ∀ stack before, formsFrom stack before (tokens ++ [last]) =
    node last tokens >>= fun r => formsFrom stack (r.1 :: before) (r.2.val ++ [last])

/-- What is read as the cells of a list is read with the list on the stack too. -/
def CellsAgree (last : Token) (tokens : List Token) : Prop :=
  ∀ d opener outer stack before, formsFrom (⟨d, opener, outer⟩ :: stack) before (tokens ++ [last]) =
    cells last d opener tokens >>= fun r =>
      formsFrom stack (.list d opener (before.reverse ++ r.1) :: outer) (r.2.val ++ [last])

theorem nodeAgrees_cons (hahead : NodeAhead t) (hrest : CellsAgree last rest) : NodeAgrees last (t :: rest) := by
  intro stack before
  rw [node, List.cons_append]
  cases hkind : t.kind with
  | number => exact formsFrom_atom (.number hkind) stack before _
  | string => exact formsFrom_atom (.string hkind) stack before _
  | symbol => exact formsFrom_atom (.symbol hkind) stack before _
  | comment => exact formsFrom_atom (.comment hkind) stack before _
  | opening d =>
      simp only [formsFrom, hkind]
      rw [hrest, bind_assoc]
      rfl
  | closing d => exact absurd hkind (hahead.2 d)
  | illegal =>
      simp only [formsFrom, hkind]
      rfl
  | eof => exact absurd hkind hahead.1

theorem cellsAgree_nil (hlast : last.kind = .eof) : CellsAgree last [] := by
  intro d opener outer stack before
  rw [cells, List.nil_append]
  simp only [formsFrom, hlast]
  rfl

theorem cellsAgree_cons (hnode : NodeAhead t → NodeAgrees last (t :: rest))
    (hmore : ∀ more, more.length < (t :: rest).length → CellsAgree last more) : CellsAgree last (t :: rest) := by
  intro d opener outer stack before
  rcases eof_or_closing_or_nodeAhead t with hend | ⟨got, hgot⟩ | hahead
  · rw [cells, List.cons_append]
    simp only [formsFrom, hend]
    rfl
  · rw [cells, List.cons_append]
    simp only [formsFrom, hgot, Kind.closing.injEq]
    by_cases hd : d = got
    · rw [if_pos hd, if_pos hd.symm, ← hd]
      exact congrArg (fun nodes => formsFrom stack (.list d opener nodes :: outer) _) (List.append_nil _).symm
    · rw [if_neg hd, if_neg (Ne.symm hd)]
      rfl
  · rw [hnode hahead, cells_cons hahead, bind_assoc]
    refine bind_congr fun r => ?_
    rw [hmore r.2.val r.2.property, bind_assoc]
    refine bind_congr fun r' => ?_
    rw [List.reverse_cons, List.append_assoc]
    rfl

/-- The cells of every list are read with a stack as they are by descent, since fewer and fewer tokens are left. -/
theorem cellsAgree (hlast : last.kind = .eof) (tokens : List Token) : CellsAgree last tokens := by
  induction hlength : tokens.length using Nat.strongRecOn generalizing tokens with
  | ind n ih =>
      subst hlength
      cases tokens with
      | nil => exact cellsAgree_nil hlast
      | cons t rest =>
          have hshorter (more : List Token) (hmore : more.length < (t :: rest).length) : CellsAgree last more :=
            ih more.length hmore more rfl
          refine cellsAgree_cons (fun hahead => ?_) hshorter
          exact nodeAgrees_cons hahead (hshorter rest (Nat.lt_succ_self _))

theorem formsFrom_eq (hlast : last.kind = .eof) (tokens : List Token) (before : List Node) :
    formsFrom [] before (tokens ++ [last]) = forms last tokens >>= fun nodes => pure (before.reverse ++ nodes) := by
  induction hlength : tokens.length using Nat.strongRecOn generalizing tokens before with
  | ind n ih =>
      subst hlength
      cases tokens with
      | nil =>
          rw [forms, List.nil_append]
          simp only [formsFrom, hlast]
          exact congrArg Except.ok (List.append_nil _).symm
      | cons t rest =>
          rcases eof_or_closing_or_nodeAhead t with hend | ⟨got, hgot⟩ | hahead
          · rw [forms, List.cons_append]
            simp only [formsFrom, hend]
            exact congrArg Except.ok (List.append_nil _).symm
          · rw [forms, List.cons_append]
            simp only [formsFrom, hgot]
            rfl
          · rw [nodeAgrees_cons hahead (cellsAgree hlast rest), forms_cons hahead, bind_assoc]
            refine bind_congr fun r => ?_
            rw [ih r.2.val.length r.2.property r.2.val (r.1 :: before) rfl, bind_assoc]
            refine bind_congr fun others => ?_
            rw [List.reverse_cons, List.append_assoc]
            rfl

/-- By descent every text has the tree that it has with a stack, or the same error. -/
theorem parse_eq (source : Bytes) (text : List Char) : parse source text = Root.parse source text := by
  obtain ⟨tokens, last, hscan, hlast, -⟩ := exists_tokens_scan source text
  have hhead (t : Token) : (tokens ++ [last]).headD t = tokens.headD last := by
    cases tokens with
    | nil => rfl
    | cons first rest => rfl
  have hforms := formsFrom_eq hlast tokens []
  simp only [parse, Root.parse, ofTokens, hscan, List.getLastD_concat, List.dropLast_concat, hhead, hforms, bind_assoc]
  rfl

end BraceLisp.Source.Descent
