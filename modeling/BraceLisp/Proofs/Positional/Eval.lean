import BraceLisp.Positional.Eval
import BraceLisp.Proofs.Eval.Invocation
import BraceLisp.Proofs.Files.ParseCache
import BraceLisp.Proofs.Positional.Read

/-!
# Evaluation never breaks down

Taken by position, evaluation does what it does by matching, as long as all trees in the cache can be read; and it
leaves a cache of which that is still true. Every construct of the language passes this on from the evaluator that
it is given.
-/

namespace BraceLisp.Positional

variable {α β : Type}

/-! ## Binding -/

def Binding.ofBound : Bound → Binding
  | .saturated own => .saturated own
  | .waiting formals own => .waiting formals own
  | .failed fault _ _ => .failed fault.toValue

theorem raise_failed (fault : Fault) :
    (raise fault.id.name fault.particulars >>= fun e => pure (Binding.failed e)) = .ok (.failed fault.toValue) := by
  rw [raise_eq]
  rfl

theorem bindRest_eq (formal : Value) (formals : List Value) (arg : Value) (args : List Value) (tooMany : Fault)
    (own : Frame) (hmark : formal.symbolName = variadicMark) :
    bindRest (formal :: formals) (arg :: args) own =
      .ok (.ofBound (Bound.bind tooMany (formal :: formals) (arg :: args) own)) := by
  match formals with
  | [] =>
      simp only [Bound.bind, hmark, if_true, bindRest, pop_zero]
      exact raise_failed .variadicRest
  | [last] =>
      simp only [Bound.bind, hmark, if_true, bindRest, pop_zero]
      rfl
  | last :: more :: rest =>
      simp only [Bound.bind, hmark, if_true, bindRest, pop_zero]
      exact raise_failed .variadicRest

theorem bindExhausted_eq (formals : List Value) (tooMany : Fault) (own : Frame) :
    bindExhausted formals own = .ok (.ofBound (Bound.bind tooMany formals [] own)) := by
  cases formals with
  | nil => rfl
  | cons formal formals =>
      change (if formal.symbolName ≠ variadicMark then _ else _) = _
      by_cases hmark : formal.symbolName = variadicMark
      · rw [if_neg (not_not_intro hmark)]
        match formals with
        | [] =>
            simp only [Bound.bind, hmark, if_true]
            exact raise_failed .variadicEnd
        | [last] =>
            simp only [Bound.bind, hmark, if_true]
            rfl
        | last :: more :: rest =>
            have hlength : (formal :: last :: more :: rest).length ≠ 2 := by simp
            simp only [Bound.bind, hmark, if_true]
            rw [if_pos hlength]
            exact raise_failed .variadicEnd
      · rw [if_pos hmark, Bound.bind.eq_def]
        simp only [hmark, if_false]
        rfl

/-- Formals and arguments are found where the binder looks for them. -/
theorem bindNext_eq (given total : Nat) (formals args : List Value) (own : Frame) :
    bindNext given total formals args own =
      .ok (.ofBound (Bound.bind (.callArity (.int given) (.int total)) formals args own)) := by
  induction formals generalizing args own with
  | nil =>
      cases args with
      | nil =>
          rw [bindNext]
          exact bindExhausted_eq [] _ own
      | cons arg args =>
          rw [bindNext]
          exact raise_failed (.callArity (.int given) (.int total))
  | cons formal formals ih =>
      cases args with
      | nil =>
          rw [bindNext]
          exact bindExhausted_eq (formal :: formals) _ own
      | cons arg args =>
          rw [bindNext]
          change (if formal.symbolName = variadicMark then _ else _) = _
          by_cases hmark : formal.symbolName = variadicMark
          · rw [if_pos hmark]
            exact bindRest_eq formal formals arg args _ own hmark
          · rw [if_neg hmark, Bound.bind.eq_def]
            simp only [hmark, if_false]
            exact ih args _

/-! ## Computations that agree -/

def CacheReadable (cache : ParseCache) : Prop :=
  ∀ entry ∈ cache.entries, readCells entry.root.forms = .ok entry.root.program

/--
From every state whose cached trees can be read, the one computation does what the other does and never breaks
down, and the trees that are cached then can still be read.
-/
def Agrees (c : FragileM α) (m : EvalM α) : Prop :=
  ∀ s, CacheReadable s.cache → c s = firm m s ∧ ∀ a t, m s = some (a, t) → CacheReadable t.cache

theorem agrees_pure (a : α) : Agrees (pure a) (pure a) := by
  intro s hs
  refine ⟨rfl, fun a' t ht => ?_⟩
  obtain ⟨rfl, rfl⟩ := Prod.mk.inj (Option.some.inj ht)
  exact hs

theorem settled_ok (a : α) : settled (.ok a) = pure a := rfl

theorem agrees_settled {outcome : Except Breakdown α} {a : α} (h : outcome = .ok a) :
    Agrees (settled outcome) (pure a) := by
  rw [h]
  exact agrees_pure a

/-- What leaves the cache as it is may be done as it stands. -/
theorem agrees_firm {m : EvalM α} (h : ∀ s a t, m s = some (a, t) → t.cache = s.cache) : Agrees (firm m) m := by
  intro s hs
  refine ⟨rfl, fun a t ht => ?_⟩
  rw [h s a t ht]
  exact hs

theorem agrees_modifyScope (f : Scope → Scope) : Agrees (firm (EvalM.modifyScope f)) (EvalM.modifyScope f) := by
  refine agrees_firm fun s a t ht => ?_
  obtain ⟨-, rfl⟩ := Prod.mk.inj (Option.some.inj ht)
  rfl

theorem agrees_emit (text : Bytes) : Agrees (firm (EvalM.emit text)) (EvalM.emit text) := by
  refine agrees_firm fun s a t ht => ?_
  obtain ⟨-, rfl⟩ := Prod.mk.inj (Option.some.inj ht)
  rfl

theorem agrees_leave : Agrees (firm EvalM.leave) EvalM.leave := by
  refine agrees_firm fun s a t ht => ?_
  obtain ⟨-, rfl⟩ := Prod.mk.inj (Option.some.inj ht)
  rfl

theorem Agrees.bind {c : FragileM α} {m : EvalM α} {f : α → FragileM β} {g : α → EvalM β} (hc : Agrees c m)
    (hf : ∀ a, Agrees (f a) (g a)) : Agrees (c >>= f) (m >>= g) := by
  intro s hs
  obtain ⟨heq, hcache⟩ := hc s hs
  have hbind : (c >>= f) s = (c s >>= fun x => f x.1 x.2) := rfl
  have hbind' : (m >>= g) s = (m s >>= fun x => g x.1 x.2) := rfl
  rw [firm, hbind, hbind', heq, firm]
  cases hm : m s with
  | none => exact ⟨rfl, fun _ _ ht => nomatch ht⟩
  | some outcome =>
      obtain ⟨a, t⟩ := outcome
      exact hf a t (hcache a t hm)

theorem parseFile_eq (files : Files) (path : Bytes) : parseFile files path = firm (EvalM.parseFile files path) := by
  funext s
  have hfirm : firm (EvalM.parseFile files path) s =
      some (.ok ((s.cache.parseFile files path).1, { s with cache := (s.cache.parseFile files path).2 })) := rfl
  rw [hfirm, ParseCache.parseFile, parseFile]
  cases (files path).contents path with
  | error reason => rfl
  | ok found =>
      obtain ⟨content, modified⟩ := found
      have hget (f : State → FragileM (Except Source.ParseError ParsedFile)) : (get >>= f) s = f s s := rfl
      refine (hget _).trans ?_
      dsimp only
      cases s.cache.find? ⟨path, content.length, modified⟩ with
      | some entry => rfl
      | none =>
          rw [parse_eq, settled_ok, pure_bind]
          cases Source.Root.parse path (Utf8.decode content) with
          | error e => rfl
          | ok root => rfl

/-- The tree of a file can be read when it has been found. -/
theorem Agrees.parseFile {files : Files} {path : Bytes} {f : Except Source.ParseError ParsedFile → FragileM β}
    {g : Except Source.ParseError ParsedFile → EvalM β} (herror : ∀ e, Agrees (f (.error e)) (g (.error e)))
    (hok : ∀ parsed, readCells parsed.root.forms = .ok parsed.root.program → Agrees (f (.ok parsed)) (g (.ok parsed))) :
    Agrees (parseFile files path >>= f) (EvalM.parseFile files path >>= g) := by
  rw [parseFile_eq]
  intro s hs
  have hfound : (∀ parsed, (s.cache.parseFile files path).1 = .ok parsed →
        readCells parsed.root.forms = .ok parsed.root.program) ∧
      CacheReadable (s.cache.parseFile files path).2 :=
    ParseCache.forall_parseFile hs fun content modified serial root _ hroot => readCells_of_parse hroot
  obtain ⟨hparsed, hcache⟩ := hfound
  have hrun : EvalM.parseFile files path s =
      some ((s.cache.parseFile files path).1, { s with cache := (s.cache.parseFile files path).2 }) := rfl
  have hbind : (EvalM.parseFile files path >>= g) s =
      g (s.cache.parseFile files path).1 { s with cache := (s.cache.parseFile files path).2 } := rfl
  have hbind' : (firm (EvalM.parseFile files path) >>= f) s =
      f (s.cache.parseFile files path).1 { s with cache := (s.cache.parseFile files path).2 } := rfl
  rw [firm, hbind, hbind']
  cases hresult : (s.cache.parseFile files path).1 with
  | error e => exact herror e _ hcache
  | ok parsed => exact hok parsed (hparsed parsed hresult) _ hcache

/-! ## Builtins -/

theorem agrees_guarded {check : Checked α} {outcome : Except Fault α} (hcheck : check = ofFault outcome)
    {go : α → FragileM Value} {go' : α → EvalM Value} (hgo : ∀ x, Agrees (go x) (go' x)) :
    Agrees (guarded check go) (Builtin.guarded outcome go') := by
  subst hcheck
  cases outcome with
  | ok x => exact hgo x
  | error fault => exact agrees_pure fault.toValue

theorem chooseBranch_eq (args : List Value) : chooseBranch args = ofFault (Builtin.chooseBranch args) := by
  rw [chooseBranch, checkCount_eq]
  match args with
  | [] => rfl
  | [v] => rfl
  | [v, w] => rfl
  | [v, w, u] =>
      have hfirst : cell [v, w, u] 0 = .ok v := rfl
      have hsecond : cell [v, w, u] 1 = .ok w := rfl
      have hthird : cell [v, w, u] 2 = .ok u := rfl
      have hall : Arguments.numberAndTwoLists Builtin.branch.name [v, w, u] =
          (Arguments.number Builtin.branch.name 0 v >>= fun n => Arguments.list Builtin.branch.name 1 w >>= fun yes =>
            Arguments.list Builtin.branch.name 2 u >>= fun no => pure (n, yes, no)) := rfl
      rw [(tests_number _).checkType_eq hfirst, (tests_list _).checkType_eq hsecond,
        (tests_list _).checkType_eq hthird, Builtin.chooseBranch, hall]
      cases hv : Arguments.number Builtin.branch.name 0 v with
      | error fault => rfl
      | ok n =>
          cases hw : Arguments.list Builtin.branch.name 1 w with
          | error fault => rfl
          | ok yes =>
              cases hu : Arguments.list Builtin.branch.name 2 u with
              | error fault => rfl
              | ok no =>
                  obtain rfl := Arguments.number_eq_ok.mp hv
                  obtain rfl := Arguments.list_eq_ok.mp hw
                  obtain rfl := Arguments.list_eq_ok.mp hu
                  change (liftM (pop [.number n, .qexpr yes, .qexpr no] (if n ≠ 0 then 1 else 2)) >>= fun found =>
                    pure found.1.cells : Checked (List Value)) = ofFault (.ok (if n = 0 then no else yes))
                  by_cases hn : n = 0
                  · rw [if_neg (not_not_intro hn), if_pos hn]
                    rfl
                  · rw [if_pos hn, if_neg hn]
                    rfl
  | v :: w :: u :: x :: rest =>
      have hlength : (v :: w :: u :: x :: rest).length ≠ 3 := by simp
      rw [if_neg hlength]
      rfl

theorem bindable_eq (b : Builtin) (symbols values : List Value) :
    (∃ fault, b.definitions (.qexpr symbols :: values) = .error fault ∧
      bindable b symbols values.length = ofFault (.error fault)) ∨
    symbols.length = values.length ∧
      b.definitions (.qexpr symbols :: values) = .ok ((symbols.map Value.symbolName).zip values) ∧
      bindable b symbols values.length = pure symbols := by
  have hlist : Arguments.list b.name 0 (.qexpr symbols) = .ok symbols := rfl
  rw [bindable, checkSymbols_eq, Builtin.definitions, hlist]
  cases hfirst : firstNonSymbol? symbols with
  | some symbol =>
      have hcomplain : complain (Bytes.of "built/var/symbols") [.text b.name, .text symbol.type.name] =
          (ofFault (.error (.varSymbols (.text b.name) (.text symbol.type.name))) : Checked Unit) :=
        complain_eq (.varSymbols (.text b.name) (.text symbol.type.name))
      refine .inl ⟨.varSymbols (.text b.name) (.text symbol.type.name), ?_, ?_⟩
      · simp only [bind, Except.bind, hfirst]
      · exact congrArg (· >>= fun _ => _) hcomplain
  | none =>
      by_cases hlength : symbols.length = values.length
      · refine .inr ⟨hlength, ?_, ?_⟩
        · simp only [bind, Except.bind, hfirst, hlength, if_true]
          rfl
        · rw [if_pos hlength]
          rfl
      · refine .inl ⟨.varCount (.text b.name) (.int values.length) (.int symbols.length), ?_, ?_⟩
        · simp only [bind, Except.bind, hfirst, hlength, if_false]
        · rw [if_neg hlength]
          exact complain_eq (.varCount (.text b.name) (.int values.length) (.int symbols.length))

/-- The symbols of a definition are those that it binds, to the values behind the list of them. -/
theorem definedSymbols_eq (b : Builtin) (args : List Value) :
    (∃ fault, b.definitions args = .error fault ∧ definedSymbols b args = ofFault (.error fault)) ∨
      ∃ symbols values, args = .qexpr symbols :: values ∧ symbols.length = values.length ∧
        b.definitions args = .ok ((symbols.map Value.symbolName).zip values) ∧
        definedSymbols b args = pure symbols := by
  cases args with
  | nil => exact .inl ⟨_, rfl, complain_eq (.varNone (.text b.name))⟩
  | cons names values =>
      have hcell : cell (names :: values) 0 = .ok names := rfl
      rw [definedSymbols, (tests_list b.name).checkType_eq hcell]
      cases hlist : Arguments.list b.name 0 names with
      | error fault =>
          refine .inl ⟨fault, ?_, rfl⟩
          rw [Builtin.definitions, hlist]
          rfl
      | ok symbols =>
          obtain rfl := Arguments.list_eq_ok.mp hlist
          rcases bindable_eq b symbols values with ⟨fault, hdefinitions, hbindable⟩ | ⟨hlength, hdefinitions, hbindable⟩
          · exact .inl ⟨fault, hdefinitions, hbindable⟩
          · exact .inr ⟨symbols, values, rfl, hlength, hdefinitions, hbindable⟩

section Bind

variable {bind : List (Bytes × Value) → Scope → Scope}

/-- Binding names one by one is binding them all. -/
theorem agrees_bindEach (hnil : ∀ scope, bind [] scope = scope)
    (hcons : ∀ entry rest scope, bind (entry :: rest) scope = bind rest (bind [entry] scope)) (first : Value)
    {symbols values : List Value} (hlength : symbols.length = values.length) :
    Agrees (bindEach bind (first :: values) symbols 0)
      (EvalM.modifyScope (bind ((symbols.map Value.symbolName).zip values))) := by
  suffices h : ∀ done rest, symbols.length = rest.length →
      Agrees (bindEach bind (first :: (done ++ rest)) symbols done.length)
        (EvalM.modifyScope (bind ((symbols.map Value.symbolName).zip rest))) from h [] values hlength
  clear hlength values
  induction symbols with
  | nil =>
      intro done rest _
      have hnone : bind (([].map Value.symbolName).zip rest) = id := funext hnil
      rw [hnone]
      exact agrees_pure ()
  | cons symbol symbols ih =>
      intro done rest hlength
      cases rest with
      | nil => cases hlength
      | cons v rest =>
          have hcell : cell (first :: (done ++ v :: rest)) (done.length + 1) = .ok v := cell_append_length done v rest
          have hrest := ih (done ++ [v]) rest (Nat.succ.inj hlength)
          rw [List.append_assoc, List.singleton_append, List.length_append, List.length_singleton] at hrest
          have hsplit : EvalM.modifyScope (bind (((symbol :: symbols).map Value.symbolName).zip (v :: rest))) =
              (EvalM.modifyScope (bind [(symbol.symbolName, v)]) >>= fun _ =>
                EvalM.modifyScope (bind ((symbols.map Value.symbolName).zip rest))) := by
            rw [List.map_cons, List.zip_cons_cons, funext (hcons _ _)]
            rfl
          rw [bindEach, hcell, hsplit]
          exact (agrees_modifyScope _).bind fun _ => hrest

/-- A definition takes each value from behind the list of names, where the checks have found it. -/
theorem agrees_definition (hnil : ∀ scope, bind [] scope = scope)
    (hcons : ∀ entry rest scope, bind (entry :: rest) scope = bind rest (bind [entry] scope)) (b : Builtin)
    (args : List Value) :
    Agrees (guarded (definedSymbols b args) fun symbols => bindEach bind args symbols 0 >>= fun _ => pure (.sexpr []))
      (Builtin.guarded (b.definitions args) fun bindings =>
        EvalM.modifyScope (bind bindings) >>= fun _ => pure (.sexpr [])) := by
  rcases definedSymbols_eq b args with ⟨fault, hdefinitions, hsymbols⟩ | ⟨symbols, values, rfl, hlength, hdefinitions, hsymbols⟩
  · rw [hdefinitions, hsymbols]
    exact agrees_pure fault.toValue
  · rw [hdefinitions, hsymbols]
    exact (agrees_bindEach hnil hcons _ hlength).bind fun _ => agrees_pure _

end Bind

section Step

variable {files : Files} {ev : Value → FragileM Value} {ev' : Value → EvalM Value}
variable (hev : ∀ v, Agrees (ev v) (ev' v))

include hev

theorem agrees_evalEach (forms : List Value) : Agrees (evalEach ev forms) (BraceLisp.evalEach ev' forms) := by
  suffices h : ∀ done, Agrees (forms.foldlM (fun results v => do return results ++ [← ev v]) done)
      (BraceLisp.evalEach ev' forms >>= fun results => pure (done ++ results)) by
    have hall := h []
    simp only [List.nil_append, bind_pure] at hall
    rw [evalEach, drain_eq_foldlM]
    exact hall
  intro done
  induction forms generalizing done with
  | nil =>
      rw [BraceLisp.evalEach, pure_bind, List.append_nil]
      exact agrees_pure done
  | cons v rest ih =>
      rw [List.foldlM_cons, BraceLisp.evalEach]
      simp only [bind_assoc, pure_bind]
      refine (hev v).bind fun r => ?_
      have hrest := ih (done ++ [r])
      simp only [List.append_assoc, List.singleton_append] at hrest
      exact hrest

theorem agrees_runProgram (forms : List Value) : Agrees (runProgram ev forms) (BraceLisp.runProgram ev' forms) := by
  refine (agrees_evalEach hev forms).bind fun results => ?_
  rw [renderLines_eq, settled_ok, pure_bind]
  exact agrees_emit (errorLines results)

theorem agrees_loadFile (path : Bytes) : Agrees (loadFile files ev path) (Builtin.loadFile files ev' path) := by
  refine Agrees.parseFile (fun e => ?_) (fun parsed hparsed => ?_)
  · exact agrees_settled (raise_eq (.load (.text e.message)))
  · change Agrees (settled (readCells parsed.root.forms) >>= fun forms => runProgram ev forms >>= fun _ => pure _) _
    rw [hparsed]
    exact (agrees_runProgram hev _).bind fun _ => agrees_pure _

theorem agrees_apply (b : Builtin) (args : List Value) : Agrees (apply files ev b args) (b.apply files ev' args) := by
  have hunit : Agrees (pure (Value.sexpr [])) (pure (Value.sexpr [])) := agrees_pure _
  cases b with
  | operation op => exact agrees_guarded (compute_eq op args) fun _ => agrees_pure _
  | eval => exact agrees_guarded (oneList_eq _ args) fun _ => hev _
  | branch => exact agrees_guarded (chooseBranch_eq args) fun _ => hev _
  | define => exact agrees_definition (fun _ => rfl) (fun _ _ _ => rfl) .define args
  | assign =>
      refine agrees_definition ?_ ?_ .assign args
      · rintro ⟨_ | _, _⟩
        · rfl
        · rfl
      · rintro _ _ ⟨_ | _, _⟩
        · rfl
        · rfl
  | print =>
      rw [apply, renderAll_eq, settled_ok, pure_bind]
      exact (agrees_emit (Builtin.printedLine args)).bind fun _ => hunit
  | load => exact agrees_guarded (oneString_eq _ args) fun path => agrees_loadFile hev path

/-- A closure or a builtin can be called. -/
theorem agrees_call {function : Value} (hfunction : function.type = .function) (args : List Value) :
    Agrees (call files ev function args)
      (BraceLisp.call files ev' function args >>= fun outcome => pure outcome.1) := by
  cases function with
  | builtin b =>
      simp only [BraceLisp.call, bind_assoc, pure_bind, bind_pure]
      exact agrees_apply hev b args
  | closure formals body own entered =>
      rw [call, bindNext_eq, settled_ok, pure_bind, ← Bound.ofCall, BraceLisp.call]
      cases Bound.ofCall formals.cells args own with
      | failed fault left own => exact agrees_pure _
      | waiting left own => exact agrees_pure _
      | saturated own =>
          simp only [bind_assoc, pure_bind]
          exact (agrees_modifyScope _).bind fun _ => (hev _).bind fun _ => agrees_leave.bind fun _ => agrees_pure _
  | _ => cases hfunction

omit hev in
theorem call_of_not_function {function : Value} (hfunction : function.type ≠ .function) (args : List Value) :
    BraceLisp.call files ev' function args =
      pure ((Fault.notFunction (.text function.type.name)).toValue, function) := by
  cases function with
  | builtin b => exact absurd rfl hfunction
  | closure formals body own entered => exact absurd rfl hfunction
  | _ => rfl

/-- Cells are found where evaluation looks for them, and so is the first error among their values. -/
theorem agrees_evalFrom (done rest : List Value) :
    Agrees (evalFrom ev (done ++ rest) done.length)
      (evalCells ev' rest >>= fun values => pure (values.map (done ++ ·))) := by
  induction rest generalizing done with
  | nil =>
      have hend : ¬ done.length < (done ++ []).length := by simp
      rw [evalFrom, if_neg hend]
      exact agrees_pure _
  | cons v rest ih =>
      have hlt : done.length < (done ++ v :: rest).length := by simp
      have hset (r : Value) : (done ++ v :: rest).set done.length r = done ++ r :: rest := by simp
      rw [evalFrom, if_pos hlt, cell_append_length, settled_ok, pure_bind, evalCells, bind_assoc]
      refine (hev v).bind fun r => ?_
      rw [hset]
      by_cases herror : r.isError
      · rw [if_pos herror, if_pos herror, pop, cell_append_length]
        exact agrees_pure _
      · have hrest := ih (done ++ [r])
        rw [List.append_assoc, List.singleton_append, List.length_append, List.length_singleton] at hrest
        rw [if_neg herror, if_neg herror, bind_assoc]
        refine Eq.mpr (congrArg (Agrees _) (congrArg (evalCells ev' rest >>= ·) (funext fun values => ?_))) hrest
        cases values with
        | ok rs => simp [Except.map]
        | error e => rfl

omit hev in
theorem agrees_lookup (name : Bytes) : Agrees (lookup name) (EvalM.lookup name) := by
  intro s hs
  have hget (next : State → FragileM Value) : (get >>= next) s = next s s := rfl
  have hget' (next : State → EvalM Value) : (get >>= next) s = next s s := rfl
  rw [firm, lookup, EvalM.lookup, hget, hget']
  cases s.scope.get? name with
  | some v => exact agrees_pure v s hs
  | none => exact agrees_settled (raise_eq (.unbound (.text name))) s hs

theorem agrees_reduce (v : Value) : Agrees (reduce files ev v) (BraceLisp.reduce files ev' v) := by
  cases v with
  | symbol name => exact agrees_lookup name
  | sexpr cells =>
      have hcells : Agrees (evalFrom ev cells 0) (evalCells ev' cells) := by
        have h := agrees_evalFrom hev [] cells
        have hid (values : Except Value (List Value)) : values.map ([] ++ ·) = values := by
          cases values with
          | ok rs => rfl
          | error e => rfl
        simp only [hid, bind_pure] at h
        exact h
      refine hcells.bind fun values => ?_
      match values with
      | .error e => exact agrees_pure e
      | .ok [] => exact agrees_pure _
      | .ok [v] => exact agrees_pure v
      | .ok (function :: arg :: args) =>
          change Agrees (if function.type ≠ .function then _ else _) _
          by_cases hfunction : function.type = .function
          · rw [if_neg (not_not_intro hfunction)]
            exact agrees_call hev hfunction (arg :: args)
          · have hraise := agrees_settled (raise_eq (.notFunction (.text function.type.name)))
            rw [if_pos hfunction]
            change Agrees _ (BraceLisp.call files ev' function (arg :: args) >>= fun outcome => pure outcome.1)
            rw [call_of_not_function hfunction]
            exact hraise
  | _ => exact agrees_pure _

end Step

/-- Evaluation by position agrees with evaluation, to every depth. -/
theorem agrees_eval (files : Files) (depth : Nat) (v : Value) :
    Agrees (eval files depth v) (BraceLisp.eval files depth v) := by
  induction depth generalizing v with
  | zero => exact fun s _ => ⟨rfl, fun _ _ ht => nomatch ht⟩
  | succ depth ih => exact agrees_reduce ih v

end BraceLisp.Positional
