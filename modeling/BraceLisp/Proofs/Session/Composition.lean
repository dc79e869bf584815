import BraceLisp.Eval.Depth
import BraceLisp.Proofs.Eval.Yields
import BraceLisp.Proofs.Source.Seam
import BraceLisp.Proofs.Text.Seam
import BraceLisp.Session.Basic
import BraceLisp.Text.Utf8.RoundTrip

/-!
# Lines and programs made of others

A line means what the same line means in parentheses, and a program of two parts, one under the other, means the two
parts one after the other. Both hold for all texts that can be parsed, since a line feed cuts the words of such a text
off from what follows, and for evaluation at every depth.
-/

namespace BraceLisp

open Source

/-! ## Evaluation -/

/-- Forms are evaluated one after another: first some of them, and then the others. -/
theorem evalEach_append (ev : Value → EvalM Value) (first second : List Value) :
    evalEach ev (first ++ second) = do
      let results ← evalEach ev first
      let more ← evalEach ev second
      return results ++ more := by
  induction first with
  | nil => simp [evalEach]
  | cons v first ih => simp [evalEach, ih]

/-! ## Texts -/

namespace Session

variable {source other line first second : Bytes} {root root' : Root}

theorem decode_lineFeed (text following : Bytes) :
    Utf8.decode (text ++ Bytes.of "\n" ++ following) = Utf8.decode text ++ '\n' :: Utf8.decode following := by
  have hlineFeed : Bytes.of "\n" = [10] := rfl
  rw [hlineFeed, List.append_assoc, List.singleton_append, Utf8.decode_append rfl]
  rfl

/-- A line that can be parsed can be parsed in parentheses. -/
theorem exists_parse_in_parentheses (h : parse source line = .ok root) (other : Bytes) :
    ∃ listed, parse other (Bytes.of "(" ++ line ++ Bytes.of "\n)") = .ok listed ∧ listed.read = .sexpr [root.read] := by
  obtain ⟨listed, hlisted, hprogram⟩ := exists_parse_between .paren (c := '\n') rfl h other
  have hdecode : Utf8.decode (Bytes.of "(" ++ line ++ Bytes.of "\n)") = '(' :: (Utf8.decode line ++ ['\n', ')']) := by
    have hopener : Utf8.decode (Bytes.of "(" ++ line) = '(' :: Utf8.decode line :=
      Utf8.decode_encode_append ['('] line
    have hcloser : Bytes.of "\n)" = Bytes.of "\n" ++ Bytes.of ")" := rfl
    rw [hcloser, ← List.append_assoc, decode_lineFeed, hopener]
    rfl
  refine ⟨listed, ?_, congrArg Value.sexpr hprogram⟩
  rw [parse, hdecode]
  exact hlisted

theorem exists_parse_append (hfirst : parse source first = .ok root) (hsecond : parse other second = .ok root')
    (both : Bytes) :
    ∃ joined, parse both (first ++ Bytes.of "\n" ++ second) = .ok joined ∧
      joined.program = root.program ++ root'.program := by
  rw [parse, decode_lineFeed]
  exact exists_parse_append_lineEnd rfl hfirst hsecond both

/-! ## Meanings -/

/--
A line means what it means in parentheses: what can be parsed can be parsed with parentheses around it, and then
evaluation comes to an end with some value, output and environment just when it does so for the line alone, one
level of depth sooner.
-/
theorem evalLine_in_parentheses (files : Files) (s : Session) (h : parse source line = .ok root) (other : Bytes) :
    (∃ listed, parse other (Bytes.of "(" ++ line ++ Bytes.of "\n)") = .ok listed) ∧
    (∀ depth, s.evalLine files (depth + 1) other (Bytes.of "(" ++ line ++ Bytes.of "\n)") =
      s.evalLine files depth source line) ∧
    ∀ v after,
      (∃ depth, s.evalLine files depth other (Bytes.of "(" ++ line ++ Bytes.of "\n)") = .ok (some (v, after))) ↔
        ∃ depth, s.evalLine files depth source line = .ok (some (v, after)) := by
  obtain ⟨listed, hlisted, hread⟩ := exists_parse_in_parentheses h other
  have hdepth (depth : Nat) : s.evalLine files (depth + 1) other (Bytes.of "(" ++ line ++ Bytes.of "\n)") =
      s.evalLine files depth source line := by
    rw [evalLine, evalLine, hlisted, h]
    simp only [Except.map, eval, hread, eval_sexpr_singleton]
  refine ⟨⟨listed, hlisted⟩, hdepth, fun v after => ⟨?_, ?_⟩⟩
  · rintro ⟨depth, hvalue⟩
    cases depth with
    | zero =>
        rw [evalLine, hlisted] at hvalue
        cases hvalue
    | succ depth =>
        rw [hdepth] at hvalue
        exact ⟨depth, hvalue⟩
  · rintro ⟨depth, hvalue⟩
    exact ⟨depth + 1, (hdepth depth).trans hvalue⟩

/-- A comment does not reach the parenthesis that closes its line. -/
theorem evalLine_in_parentheses_of_comment :
    ∃ v after, v.render = Bytes.of "{1 2}" ∧
      bare.evalLine (fun _ => .missing) 3 [] (Bytes.of "join {1} {2} ; lists") = .ok (some (v, after)) ∧
      bare.evalLine (fun _ => .missing) 4 [] (Bytes.of "(" ++ Bytes.of "join {1} {2} ; lists" ++ Bytes.of "\n)") =
        .ok (some (v, after)) := by
  have hrun : ((parse [] (Bytes.of "join {1} {2} ; lists")).toOption.bind fun root =>
      (bare.eval (fun _ => .missing) 3 root.read).map fun outcome => outcome.1.render) = some (Bytes.of "{1 2}") := by
    decide +kernel
  cases hparse : parse [] (Bytes.of "join {1} {2} ; lists") with
  | error e =>
      rw [hparse] at hrun
      cases hrun
  | ok root =>
      rw [hparse] at hrun
      obtain ⟨⟨v, after⟩, heval, hrender⟩ := Option.map_eq_some_iff.mp hrun
      have hline : bare.evalLine (fun _ => .missing) 3 [] (Bytes.of "join {1} {2} ; lists") =
          .ok (some (v, after)) := by
        rw [evalLine, hparse, Except.map, heval]
      exact ⟨v, after, hrender, hline, ((evalLine_in_parentheses _ bare hparse []).2.1 3).trans hline⟩

end Session

/--
Programs compose: two texts that can be parsed can be parsed one under the other, and evaluation of the forms comes
to an end just when it does so for those of the first text and, in the state that they leave, for those of the second.
The results are those of the first and then those of the second, and the states at the end are the same.
-/
theorem programs_compose (files : Files) {source other first second : Bytes} {root root' : Root}
    (hfirst : Session.parse source first = .ok root) (hsecond : Session.parse other second = .ok root')
    (both : Bytes) :
    ∃ joined, Session.parse both (first ++ Bytes.of "\n" ++ second) = .ok joined ∧
      (∀ depth, evalEach (eval files depth) joined.program = do
        let results ← evalEach (eval files depth) root.program
        let more ← evalEach (eval files depth) root'.program
        return results ++ more) ∧
      ∀ s results after,
        (∃ depth, evalEach (eval files depth) joined.program s = some (results, after)) ↔
          ∃ early between late,
            (∃ depth, evalEach (eval files depth) root.program s = some (early, between)) ∧
            (∃ depth, evalEach (eval files depth) root'.program between = some (late, after)) ∧
            results = early ++ late := by
  obtain ⟨joined, hjoined, hprogram⟩ := Session.exists_parse_append hfirst hsecond both
  have hdepth (depth : Nat) : evalEach (eval files depth) joined.program = do
      let results ← evalEach (eval files depth) root.program
      let more ← evalEach (eval files depth) root'.program
      return results ++ more := by
    rw [hprogram, evalEach_append]
  refine ⟨joined, hjoined, hdepth, fun s results after => ⟨?_, ?_⟩⟩
  · rintro ⟨depth, hresults⟩
    rw [hdepth] at hresults
    obtain ⟨early, between, hearly, hrest⟩ := EvalM.bind_eq_some_iff.mp hresults
    obtain ⟨late, after, hlate, hend⟩ := EvalM.bind_eq_some_iff.mp hrest
    obtain ⟨rfl, rfl⟩ := Prod.mk.inj (Option.some.inj hend)
    exact ⟨early, between, late, ⟨depth, hearly⟩, ⟨depth, hlate⟩, rfl⟩
  · rintro ⟨early, between, late, ⟨depth, hearly⟩, ⟨depth', hlate⟩, rfl⟩
    -- both parts come to the same ends when they may nest to the greater of the two depths
    have hdeep := eval_below_of_le files (Nat.le_max_left depth depth')
    have hdeep' := eval_below_of_le files (Nat.le_max_right depth depth')
    have hearly := evalEach_below hdeep root.program s _ hearly
    have hlate := evalEach_below hdeep' root'.program between _ hlate
    refine ⟨max depth depth', ?_⟩
    rw [hdepth]
    refine EvalM.bind_eq_some_iff.mpr ⟨early, between, hearly, ?_⟩
    exact EvalM.bind_eq_some_iff.mpr ⟨late, after, hlate, rfl⟩

/-- An unbound name and a minus sign above a number stay three forms, and all three are evaluated. -/
theorem programs_compose_after_error :
    ∃ joined depth results after,
      Session.parse [] (Bytes.of "x -" ++ Bytes.of "\n" ++ Bytes.of "2") = .ok joined ∧
      evalEach (eval (fun _ => .missing) depth) joined.program Session.bare.state = some (results, after) ∧
      results.map Value.isError = [true, false, false] ∧
      results.map Value.render = [Bytes.of "Error: Unbound Symbol 'x'", Bytes.of "<builtin>", Bytes.of "2"] := by
  have hrun : ((Session.parse [] (Bytes.of "x -")).toOption.bind fun root =>
      (evalEach (eval (fun _ => .missing) 1) root.program Session.bare.state).bind fun first =>
        (Session.parse [] (Bytes.of "2")).toOption.bind fun root' =>
          (evalEach (eval (fun _ => .missing) 1) root'.program first.2).map fun second =>
            ((first.1 ++ second.1).map Value.isError, (first.1 ++ second.1).map Value.render)) =
      some ([true, false, false], [Bytes.of "Error: Unbound Symbol 'x'", Bytes.of "<builtin>", Bytes.of "2"]) := by
    decide +kernel
  cases hfirst : Session.parse [] (Bytes.of "x -") with
  | error e =>
      rw [hfirst] at hrun
      cases hrun
  | ok root =>
      cases hsecond : Session.parse [] (Bytes.of "2") with
      | error e =>
          simp [hfirst, hsecond, Except.toOption] at hrun
      | ok root' =>
          simp only [hfirst, hsecond, Except.toOption, Option.bind_some] at hrun
          obtain ⟨⟨early, between⟩, hearly, hrest⟩ := Option.bind_eq_some_iff.mp hrun
          obtain ⟨⟨late, after⟩, hlate, hshown⟩ := Option.map_eq_some_iff.mp hrest
          obtain ⟨herrors, hrenders⟩ := Prod.mk.inj hshown
          obtain ⟨joined, hjoined, -, hends⟩ := programs_compose (fun _ => .missing) hfirst hsecond []
          obtain ⟨depth, hresults⟩ := (hends Session.bare.state (early ++ late) after).mpr
            ⟨early, between, late, ⟨1, hearly⟩, ⟨1, hlate⟩, rfl⟩
          exact ⟨joined, depth, early ++ late, after, hjoined, hresults, herrors, hrenders⟩

end BraceLisp
