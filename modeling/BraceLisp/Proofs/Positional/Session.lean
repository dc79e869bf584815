import BraceLisp.Positional.Session
import BraceLisp.Proofs.Positional.Eval

/-!
# Sessions never break down

A session by position makes of every input what it makes of it otherwise, and so does the prompt of every line,
as long as all trees in the cache can be read. In a session that can be reached from a start they always can.
-/

namespace BraceLisp.Positional

open Source

variable {α β : Type} {files : Files} {depth : Nat} {s : Session}

/-- A run that does not break down: it ends as the other does, and all trees that are cached then can be read. -/
def EndsAs (outcome : Option (Except Breakdown (α × Session))) (outcome' : Option (α × Session)) : Prop :=
  outcome = outcome'.map Except.ok ∧ ∀ a after, outcome' = some (a, after) → CacheReadable after.cache

theorem endsAs_some {a : α} (hs : CacheReadable s.cache) : EndsAs (some (.ok (a, s))) (some (a, s)) := by
  refine ⟨rfl, fun a' after h => ?_⟩
  obtain ⟨-, rfl⟩ := Prod.mk.inj (Option.some.inj h)
  exact hs

theorem endsAs_run {c : FragileM α} {m : EvalM α} (h : Agrees c m) (hs : CacheReadable s.cache) :
    EndsAs (run s c) (s.run m) := by
  obtain ⟨heq, hcache⟩ := h s.state hs
  rw [run, heq, firm, Session.run]
  cases hm : m s.state with
  | none =>
      refine ⟨rfl, ?_⟩
      intro a after h
      cases h
  | some outcome =>
      obtain ⟨a, t⟩ := outcome
      exact endsAs_some (hcache a t hm)

/-- What is made of a result afterwards. -/
theorem run_bind_pure (m : EvalM α) (f : α → β) :
    s.run (m >>= fun a => pure (f a)) = (s.run m).map fun (a, after) => (f a, after) := by
  have hbind : (m >>= fun a => pure (f a)) s.state = (m s.state).bind fun outcome => some (f outcome.1, outcome.2) := rfl
  rw [Session.run, Session.run, hbind]
  cases m s.state with
  | none => rfl
  | some outcome => rfl

/-- A text that cannot be parsed changes nothing; the forms of any other text are read, and then evaluated. -/
theorem endsAs_runForms {source : Bytes} {text : List Char} {c : List Value → FragileM (List Value)}
    {m : List Value → EvalM (List Value)} {outcome : Option (List Value × Session)}
    (hs : CacheReadable s.cache) (h : ∀ forms, Agrees (c forms) (m forms))
    (herror : ∀ e, Root.parse source text = .error e → outcome = some ([], s))
    (hok : ∀ root, Root.parse source text = .ok root → outcome = s.run (m root.program)) :
    EndsAs (runForms s source text c) outcome := by
  rw [runForms, parse_eq]
  cases hparsed : Root.parse source text with
  | error e =>
      rw [herror e hparsed]
      exact endsAs_some hs
  | ok root =>
      rw [hok root hparsed]
      dsimp only
      rw [readCells_of_parse hparsed]
      exact endsAs_run (h root.program) hs

/-- The forms are those of any prelude. -/
theorem endsAs_loadForms (source : Bytes) (text : List Char) (hs : CacheReadable s.cache) :
    EndsAs (runForms s source text fun forms => evalEach (eval files depth) forms >>= fun _ => pure [])
      ((s.loadForms files depth ((Root.parse source text).map Root.program)).map fun (_, after) => ([], after)) := by
  have hall (forms : List Value) := agrees_evalEach (agrees_eval files depth) forms
  refine endsAs_runForms hs (fun forms => (hall forms).bind fun _ => agrees_pure []) ?_ ?_
  · intro e hparsed
    rw [hparsed]
    rfl
  · intro root hparsed
    rw [run_bind_pure, hparsed, Except.map, Session.loadForms, Session.evalForms]
    cases s.run (BraceLisp.evalEach (BraceLisp.eval files depth) root.program) with
    | none => rfl
    | some outcome => rfl

/-- A session makes of an input by position what it makes of it otherwise. -/
theorem endsAs_respond (hs : CacheReadable s.cache) (input : Input) :
    EndsAs (respond files depth s input) (s.respond files depth input) := by
  have heval (v : Value) := agrees_eval files depth v
  have hall (forms : List Value) := agrees_evalEach heval forms
  cases input with
  | line source text =>
      refine endsAs_runForms hs (fun forms => (heval (.sexpr forms)).bind fun v => agrees_pure [v]) ?_ ?_
      · intro e hparsed
        simp only [Session.respond, Session.evalLine, Session.parse, hparsed, Except.map]
      · intro root hparsed
        rw [run_bind_pure]
        simp only [Session.respond, Session.evalLine, Session.parse, hparsed, Except.map]
        rfl
  | program source text =>
      refine endsAs_runForms hs hall ?_ ?_
      · intro e hparsed
        simp only [Session.respond, Session.evalProgram, Session.parse, hparsed, Except.map]
      · intro root hparsed
        simp only [Session.respond, Session.evalProgram, Session.parse, hparsed, Except.map]
        rfl
  | batch text =>
      refine endsAs_runForms hs (fun forms => (agrees_runProgram heval forms).bind fun _ => agrees_pure []) ?_ ?_
      · intro e hparsed
        simp only [Session.respond, Session.runBatch, Session.parse, hparsed, Except.map]
      · intro root hparsed
        rw [run_bind_pure]
        simp only [Session.respond, Session.runBatch, Session.parse, hparsed, Except.map, Option.map_map]
        rfl
  | load path =>
      have hload : Agrees (apply files (eval files depth) .load [.string path]) _ := agrees_apply heval _ _
      have h := endsAs_run (hload.bind fun v => agrees_pure [v]) hs
      rw [run_bind_pure] at h
      exact h
  | prelude =>
      rw [respond, Session.respond, Session.loadPrelude, Prelude.forms]
      exact endsAs_loadForms _ _ hs

/-- Every tree that a session keeps can be read. -/
theorem cacheReadable_of_reachable (h : s.Reachable) : CacheReadable s.cache := by
  have hbare : CacheReadable Session.bare.cache := List.forall_mem_nil _
  induction h with
  | start starts =>
      rcases Session.eq_bare_or_respond_of_start starts with rfl | hprelude
      · exact hbare
      · exact (endsAs_respond hbare .prelude).2 _ _ hprelude
  | input reachable responds ih => exact (endsAs_respond ih _).2 _ _ responds
  | output reachable output ih => exact ih

/-- No input breaks down in a session that can be reached. -/
theorem respond_eq (hs : s.Reachable) (input : Input) :
    respond files depth s input = (s.respond files depth input).map Except.ok :=
  (endsAs_respond (cacheReadable_of_reachable hs) input).1

/-! ## The prompt -/

theorem remark_eq (text : Bytes) : remark text = .ok (Repl.remark text) := by
  have hleft : ¬ Int64.ofNat Banner.bulletWidth < 0 := by decide
  have hmargin : (Int64.ofNat Banner.bulletWidth).toInt.toNat = Banner.bulletWidth := by decide
  have hwidth : Layout.widthBetween (Int64.ofNat Banner.bulletWidth) (Int64.ofInt Banner.rightMargin) =
      Banner.rightMargin - Banner.bulletWidth := by decide
  rw [remark, Layout.wrap?, if_neg hleft, hmargin, hwidth]
  rfl

theorem explain_eq {r : Repl} {e : Value} (h : r.lastError = some e) : explain r e = .ok r.explain := by
  simp only [explain, remark_eq, Repl.explain, h]
  rfl

theorem command_eq (r : Repl) (line : Bytes) : command r line = .ok (r.command line) := by
  unfold command
  split
  · rename_i e hwhy hlast
    rw [explain_eq hlast, Repl.command, hwhy]
    rfl
  · rename_i henv
    simp only [remark_eq, Repl.command, henv]
    rfl
  · rfl

theorem printValue_eq (r : Repl) (v : Value) : printValue r v = .ok (r.printValue v) := by
  rw [printValue, render_eq, Repl.printValue]
  cases v.isError with
  | true => rfl
  | false => rfl

/-- No line breaks down at the prompt of a session that can be reached. -/
theorem line_eq {r : Repl} (hr : r.session.Reachable) (input : Bytes) :
    line files depth r input = (r.line files depth input).map Except.ok := by
  unfold line Repl.line
  cases Layout.trim input with
  | nil => rfl
  | cons b rest =>
      by_cases hb : b = Repl.colon
      · simp only [hb, if_true, command_eq, Option.map_some]
      · simp only [hb, if_false, Session.evalLine, Session.parse, parse_eq]
        cases hparsed : Root.parse Repl.lineSource (Utf8.decode (b :: rest)) with
        | error e => rfl
        | ok root =>
            have heval := endsAs_run (agrees_eval files depth (.sexpr root.program)) (cacheReadable_of_reachable hr)
            simp only [readCells_of_parse hparsed, settled_ok, pure_bind, heval.1, Except.map, Option.map_map]
            refine congrArg (Option.map · _) (funext fun outcome => ?_)
            obtain ⟨v, session⟩ := outcome
            change (printValue { r with session } v >>= fun r => pure (false, r)) = _
            rw [printValue_eq]
            rfl

end BraceLisp.Positional
