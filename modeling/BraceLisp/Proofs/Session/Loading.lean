import BraceLisp.Proofs.Eval.InStep
import BraceLisp.Proofs.Files.Parser
import BraceLisp.Proofs.Source.Errors
import BraceLisp.Proofs.Source.Words
import BraceLisp.Session.Basic

/-!
# Loading files and running batches

A program does the same whether it is loaded from a file or run as a batch. The file goes through the parser's cache,
so the two runs find other trees kept there, and one of them may start behind what has been printed before; programs
see neither. A program that cannot be parsed is not run at all, and both tell the same of it, each under the name that
it has for the text.
-/

namespace BraceLisp

open Source EvalM

/-! ## What programs do not see -/

/-- Two states differ in what had been printed before, and in when files have been parsed. -/
structure State.Behind (files : Files) (earlier : Bytes) (s s' : State) : Prop where
  scope : s'.scope = s.scope
  output : s'.output.text = earlier ++ s.output.text
  cache : s.cache.SameTrees files s'.cache

theorem State.unseen_behind (files : Files) (earlier : Bytes) : State.Unseen files (State.Behind files earlier) where
  get? h name := congrArg (Scope.get? · name) h.scope.symm
  define h bindings := ⟨congrArg (Scope.define · bindings) h.scope, h.output, h.cache⟩
  assign h bindings := ⟨congrArg (Scope.assign · bindings) h.scope, h.output, h.cache⟩
  emit h text := by
    refine ⟨h.scope, ?_, h.cache⟩
    rw [Output.text_add, Output.text_add, h.output, List.append_assoc]
  root h path := (h.cache.parseFile path).1
  parseFile h path := ⟨h.scope, h.output, (h.cache.parseFile path).2⟩
  enter h frame := ⟨congrArg (Scope.enter · frame) h.scope, h.output, h.cache⟩
  leave _ inside _ _ := ⟨congrArg (fun scope => scope.leave.2) inside.scope, inside.output, inside.cache⟩

/-! ## Programs -/

def Value.errorMessage? : Value → Option Bytes
  | .error _ _ message => some message
  | _ => none

/-- Each error among some results has a line of its own, in their order. -/
theorem errorLines_eq (results : List Value) :
    errorLines results = (results.filterMap Value.errorMessage?).flatMap fun message =>
      Bytes.of "Error: " ++ message ++ Bytes.of "\n" := by
  induction results with
  | nil => rfl
  | cons v rest ih =>
      cases v with
      | error kind id message => exact congrArg (Bytes.of "Error: " ++ message ++ Bytes.of "\n" ++ ·) ih
      | _ => exact ih

theorem runProgram_apply (ev : Value → EvalM Value) (forms : List Value) (s : State) :
    runProgram ev forms s = (evalEach ev forms s).map fun x =>
      ((), { x.2 with output := x.2.output.add (errorLines x.1) }) := by
  simp only [runProgram, Bind.bind, StateT.bind]
  cases evalEach ev forms s with
  | none => rfl
  | some x => rfl

/--
A program does what its forms do alone in the same scope, with any parsed files that are faithful: it prints what they
print behind what was printed before, and then a line for each error.
-/
theorem runProgram_behind {files : Files} {cache cache' : ParseCache} (hcache : cache.Faithful files)
    (hcache' : cache'.Faithful files) (depth : Nat) (forms : List Value) (scope : Scope) (output : Output) :
    (∀ results t, evalEach (eval files depth) forms ⟨scope, .empty, cache⟩ = some (results, t) →
      ∃ t', runProgram (eval files depth) forms ⟨scope, output, cache'⟩ = some ((), t') ∧ t'.scope = t.scope ∧
        t'.output.text = output.text ++ t.output.text ++ errorLines results) ∧
    (evalEach (eval files depth) forms ⟨scope, .empty, cache⟩ = none →
      runProgram (eval files depth) forms ⟨scope, output, cache'⟩ = none) := by
  have hstates : State.Behind files output.text ⟨scope, .empty, cache⟩ ⟨scope, output, cache'⟩ :=
    ⟨rfl, (List.append_nil _).symm, .inr ⟨hcache, hcache'⟩⟩
  have hforms := evalEach_inStep (eval_inStep (State.unseen_behind files output.text) depth) forms
  rw [runProgram_apply]
  rcases hforms.outcome hstates with ⟨hs, hs'⟩ | ⟨results, t, _, t', hs, hs', rfl, hended⟩
  · rw [hs, hs']
    exact ⟨fun _ _ h => (nomatch h), fun _ => rfl⟩
  · rw [hs, hs']
    refine ⟨fun _ _ h => ?_, fun h => (nomatch h)⟩
    obtain ⟨rfl, rfl⟩ := Prod.mk.inj (Option.some.inj h)
    refine ⟨_, rfl, hended.scope, ?_⟩
    rw [Output.text_add, hended.output]

/-! ## Files -/

variable {files : Files} {cache : ParseCache} {path content : Bytes} {modified : Int}

/-- A file is asked of the cache; its program is run if there is one, and its error is returned if not. -/
theorem load_apply (files : Files) (ev : Value → EvalM Value) (path : Bytes) (s : State) :
    Builtin.load.apply files ev [.string path] s =
      match (s.cache.parseFile files path).1 with
      | .error e => some ((Fault.load (.text e.message)).toValue, { s with cache := (s.cache.parseFile files path).2 })
      | .ok parsed =>
          (runProgram ev parsed.root.program { s with cache := (s.cache.parseFile files path).2 }).map fun x =>
            (.sexpr [], x.2) := by
  have happly : Builtin.load.apply files ev [.string path] s = Builtin.loadFile files ev path s := rfl
  have hparse : parseFile files path s =
      some ((s.cache.parseFile files path).1, { s with cache := (s.cache.parseFile files path).2 }) := rfl
  rw [happly, Builtin.loadFile]
  simp only [Bind.bind, StateT.bind, hparse, Option.bind_some]
  cases (s.cache.parseFile files path).1 with
  | error e => rfl
  | ok parsed =>
      simp only [StateT.bind]
      cases runProgram ev parsed.root.program { s with cache := (s.cache.parseFile files path).2 } with
      | none => rfl
      | some x => rfl

/-- A file that can be parsed is loaded by running its program, with parsed files that are faithful as before. -/
theorem load_of_parse {root : Root} (hcache : cache.Faithful files) (hfile : files path = .file content modified)
    (hparse : Session.parse Session.batchSource content = .ok root) :
    ∃ cache' : ParseCache, cache'.Faithful files ∧ ∀ ev scope output,
      Builtin.load.apply files ev [.string path] ⟨scope, output, cache⟩ =
        (runProgram ev root.program ⟨scope, output, cache'⟩).map fun x => (.sexpr [], x.2) := by
  obtain ⟨hroot, hfaithful⟩ := hcache.parseFile path
  -- under the name of the file the text has another tree, but of the same program
  have hmeans := exists_parse_iff_means.mp ⟨root, hparse, rfl⟩
  obtain ⟨again, hagain, hprogram⟩ : ∃ again, Root.parse path (Utf8.decode content) = .ok again ∧ again.program = _ :=
    exists_parse_iff_means.mpr hmeans
  have hdirectly : ParseCache.parseDirectly files path = .ok again := by
    rw [ParseCache.parseDirectly, hfile]
    exact hagain
  rw [hdirectly] at hroot
  refine ⟨(cache.parseFile files path).2, hfaithful, fun ev scope output => ?_⟩
  rw [load_apply]
  cases hfound : (cache.parseFile files path).1 with
  | error e =>
      rw [hfound] at hroot
      cases hroot
  | ok parsed =>
      rw [hfound] at hroot
      have hforms : parsed.root.program = root.program := by
        rw [← hprogram, Except.ok.inj hroot]
      simp only [hforms]

/-- A file that cannot be parsed is not run, and its error is that of its text. -/
theorem load_of_error {e : ParseError} (hcache : cache.Faithful files) (hfile : files path = .file content modified)
    (hparse : Session.parse Session.batchSource content = .error e) (ev : Value → EvalM Value) (scope : Scope)
    (output : Output) :
    Builtin.load.apply files ev [.string path] ⟨scope, output, cache⟩ =
      some ((Fault.load (.text { e with source := path }.message)).toValue, ⟨scope, output, cache⟩) := by
  obtain ⟨hroot, -⟩ := hcache.parseFile path
  have hdirectly : ParseCache.parseDirectly files path = .error { e with source := path } := by
    rw [ParseCache.parseDirectly, hfile]
    exact (Root.parse_renamed hparse path).1
  rw [hdirectly] at hroot
  rw [load_apply]
  cases hfound : (cache.parseFile files path).1 with
  | error e' =>
      rw [hfound] at hroot
      obtain rfl := Except.error.inj hroot
      simp only [ParseCache.parseFile_of_error hfound]
  | ok parsed =>
      rw [hfound] at hroot
      cases hroot

/-! ## Batches -/

namespace Session

/-- The state after a text has been run as a batch, in whatever scope; `ev` evaluates. -/
def batchIn (ev : Value → EvalM Value) (s : State) (text : Bytes) : Except ParseError (Option State) :=
  (parse batchSource text).map fun root => (runProgram ev root.program s).map Prod.snd

/-- A session runs its batches in the global environment. -/
theorem runBatch_eq (files : Files) (depth : Nat) (s : Session) (text : Bytes) :
    s.runBatch files depth text = (batchIn (BraceLisp.eval files depth) s.state text).map (Option.map ofState) := by
  unfold runBatch batchIn
  cases parse batchSource text with
  | error e => rfl
  | ok root => simp only [Except.map, run, Option.map_map, Function.comp_def]

/--
A file and a batch of the same text agree, in every scope and with a parser after any course of actions in which
whatever is recognised as the same has the same content. If the text can be parsed and its forms can be evaluated to
some depth, both leave the scope that the forms leave, and both print what the forms print and then a line for each
error among their values, and loading returns the empty S-expression. If the forms cannot, neither comes to an end. If
the text cannot be parsed, nothing is evaluated and nothing changes, and both tell the same line, column and problem.
-/
theorem load_agrees_with_batch {disk : Disk Bytes} {actions : List FileAction} {directory : Bytes → FileStatus}
    {path text : Bytes} {modified : Int}
    (hconsistent : ∀ other,
      Sighting.Consistent ((FileParser.unused disk).sightings (actions ++ [.parse other (directory other)])))
    (hfile : ((FileParser.unused disk).run actions).disk.view path = .file text modified)
    (scope : Scope) (output : Output) :
    let parser := (FileParser.unused disk).run actions
    let files := parser.disk.view
    let s : State := ⟨scope, output, parser.cache⟩
    let load (ev : Value → EvalM Value) := Builtin.load.apply files ev [.string path] s
    (∀ root depth, parse batchSource text = .ok root →
      let ev := BraceLisp.eval files depth
      (∀ results t, evalEach ev root.program ⟨scope, .empty, parser.cache⟩ = some (results, t) →
        ∃ ran loaded, batchIn ev s text = .ok (some ran) ∧ load ev = some (.sexpr [], loaded) ∧
          ran.scope = t.scope ∧ loaded.scope = t.scope ∧ loaded.output = ran.output ∧
          ran.output.text = output.text ++ t.output.text ++
            (results.filterMap Value.errorMessage?).flatMap fun message =>
              Bytes.of "Error: " ++ message ++ Bytes.of "\n") ∧
      (evalEach ev root.program ⟨scope, .empty, parser.cache⟩ = none →
        batchIn ev s text = .ok none ∧ load ev = none)) ∧
    ∀ e ev, parse batchSource text = .error e →
      batchIn ev s text = .error e ∧ e.message = batchSource ++ e.told ∧
        load ev = some ((Fault.load (.text (path ++ e.told))).toValue, s) := by
  intro parser files s load
  have hfaithful : parser.cache.Faithful files := FileParser.faithful_run disk actions directory hconsistent
  constructor
  · intro root depth hparse ev
    obtain ⟨cache', hfaithful', hload⟩ := load_of_parse hfaithful hfile hparse
    have hbatch : batchIn ev s text = .ok ((runProgram ev root.program s).map Prod.snd) := by
      rw [batchIn, hparse]
      rfl
    obtain ⟨hends, hdives⟩ := runProgram_behind hfaithful hfaithful depth root.program scope output
    obtain ⟨hends', hdives'⟩ := runProgram_behind hfaithful hfaithful' depth root.program scope output
    constructor
    · intro results t hforms
      obtain ⟨ran, hran, hscope, houtput⟩ := hends results t hforms
      obtain ⟨loaded, hloaded, hscope', houtput'⟩ := hends' results t hforms
      refine ⟨ran, loaded, ?_, ?_, hscope, hscope', Output.ext_text (houtput'.trans houtput.symm), ?_⟩
      · rw [hbatch, hran]
        rfl
      · exact (hload ev scope output).trans (congrArg _ hloaded)
      · rw [houtput, errorLines_eq]
    · intro hforms
      constructor
      · rw [hbatch, hdives hforms]
        rfl
      · exact (hload ev scope output).trans (congrArg _ (hdives' hforms))
  · intro e ev hparse
    obtain ⟨hmessage, hother⟩ := Root.message_of_parse_error hparse path
    refine ⟨?_, hmessage, ?_⟩
    · rw [batchIn, hparse]
      rfl
    · rw [← hother]
      exact load_of_error hfaithful hfile hparse ev scope output

/--
A file that has been parsed before loads another, which changes what a name stands for; then it has an error in it, and
goes on to print the value of the name.
-/
theorem load_agrees_with_batch_after_error :
    ∃ (parser : FileParser) (scope : Scope) (ran loaded : State),
      let text := Bytes.of "(load \"b\")\n(head \x7b\x7d)\n(print x)"
      let ev := BraceLisp.eval parser.disk.view 4
      scope.get? (Bytes.of "x") = some (.number 1) ∧
      batchIn ev ⟨scope, .empty, parser.cache⟩ text = .ok (some ran) ∧
      Builtin.load.apply parser.disk.view ev [.string (Bytes.of "a")] ⟨scope, .empty, parser.cache⟩ =
        some (.sexpr [], loaded) ∧
      loaded.scope = ran.scope ∧ loaded.output = ran.output ∧
      ran.output.text = Bytes.of "2\nError: Function 'head' passed \x7b\x7d for argument 0.\n" := by
  obtain ⟨text, htext⟩ : ∃ text, text = Bytes.of "(load \"b\")\n(head \x7b\x7d)\n(print x)" := ⟨_, rfl⟩
  obtain ⟨actions, hactions⟩ : ∃ actions : List FileAction, actions =
      [.write (Bytes.of "a") text 1, .write (Bytes.of "b") (Bytes.of "(= \x7bx\x7d 2)") 1,
        .parse (Bytes.of "a") ⟨0, 0⟩] := ⟨_, rfl⟩
  obtain ⟨scope, hscope⟩ : ∃ scope : Scope, scope = ⟨[[(Bytes.of "x", .number 1)]], builtins⟩ := ⟨_, rfl⟩
  have hconsistent (other : Bytes) :
      Sighting.Consistent ((FileParser.unused .fresh).sightings (actions ++ [.parse other ⟨0, 0⟩])) := by
    by_cases hother : Bytes.of "a" = other
    · rw [hactions, htext, ← hother]
      decide +kernel
    · rw [FileParser.sightings_append, FileParser.sightings, FileParser.sightings, List.append_nil]
      have hseen : Sighting.Consistent ((FileParser.unused .fresh).sightings actions) ∧
          ∀ a ∈ (FileParser.unused .fresh).sightings actions, a.key.path = Bytes.of "a" := by
        rw [hactions, htext]
        decide +kernel
      exact FileParser.consistent_parse_of_new _ hseen.1 (fun a ha => by rwa [hseen.2 a ha]) _
  have hfile : ((FileParser.unused .fresh).run actions).disk.view (Bytes.of "a") = .file text 1 := by
    rw [hactions, htext]
    decide +kernel
  have hrun : ((parse batchSource text).toOption.bind fun root =>
      (evalEach (BraceLisp.eval ((FileParser.unused .fresh).run actions).disk.view 4) root.program
        ⟨scope, .empty, ((FileParser.unused .fresh).run actions).cache⟩).map fun x =>
          x.2.output.text ++ (x.1.filterMap Value.errorMessage?).flatMap fun message =>
            Bytes.of "Error: " ++ message ++ Bytes.of "\n") =
      some (Bytes.of "2\nError: Function 'head' passed \x7b\x7d for argument 0.\n") := by
    rw [hactions, hscope, htext]
    decide +kernel
  cases hparse : parse batchSource text with
  | error e =>
      rw [hparse] at hrun
      cases hrun
  | ok root =>
      rw [hparse] at hrun
      obtain ⟨⟨results, t⟩, hforms, hprinted⟩ := Option.map_eq_some_iff.mp hrun
      obtain ⟨ran, loaded, hran, hloaded, hleft, hleft', hsame, htold⟩ :=
        ((load_agrees_with_batch hconsistent hfile scope .empty).1 root 4 hparse).1 results t hforms
      refine ⟨_, scope, ran, loaded, ?_, htext ▸ hran, hloaded, hleft'.trans hleft.symm, hsame, htold.trans hprinted⟩
      rw [hscope]
      rfl

end Session

end BraceLisp
