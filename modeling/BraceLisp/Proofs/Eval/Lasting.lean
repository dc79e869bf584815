import BraceLisp.Proofs.Environment
import BraceLisp.Proofs.Eval.Arguments
import BraceLisp.Proofs.Eval.Invocation
import BraceLisp.Proofs.Value.Part

/-!
# What evaluation never loses

A property of values lasts if the values that evaluation makes itself have it, and if a closure with it keeps it
while arguments are bound. Whatever lasts holds of every part of every value for as long as a session goes on:
of results, of all that is bound in any frame, and of all code that is evaluated on the way.

One invariant carries all such properties. Every value bound in a frame, and every value bound for a closure at
any depth, is settled; and every part of it has the property. It is the first half that makes results normal: the
value of a symbol is one that was bound.
-/

namespace BraceLisp

namespace Value

def OwnSettled : Value → Prop
  | .closure _ _ own _ => ∀ entry ∈ own, entry.2.isSettled
  | _ => True

/-- A property that evaluation hands on from the values it is given to those it makes. -/
structure Lasting (p : Value → Prop) : Prop where
  plain : ∀ v : Value, v.isError = false → v.isClosure = false → p v
  fault : ∀ fault : Fault, p fault.toValue
  lambda : ∀ formals body : Value, p (.lambda formals body)
  rebound : ∀ {formals body : Value} {own : Frame} {entered : Bool}, p (.closure formals body own entered) →
    ∀ (left : Value) (bound : Frame), p (.closure left body bound entered)

/-- Every part of a value has a property, and all that is bound for closures in it is settled. -/
def Sound (p : Value → Prop) (v : Value) : Prop :=
  v.Every fun x => x.OwnSettled ∧ p x

def SoundResult (p : Value → Prop) (v : Value) : Prop :=
  v.isNormal ∧ v.Sound p

def SoundBound (p : Value → Prop) (v : Value) : Prop :=
  v.isSettled ∧ v.Sound p

theorem SoundBound.result {p : Value → Prop} {v : Value} (h : v.SoundBound p) : v.SoundResult p :=
  ⟨isNormal_of_isSettled h.1, h.2⟩

namespace Lasting

variable {p : Value → Prop} (lasting : Lasting p)

include lasting

/-- A value with no components that is neither an error nor a closure is sound. -/
theorem sound_atom {v : Value} (hv : v.components = []) (herror : v.isError = false)
    (hclosure : v.isClosure = false) : v.Sound p := by
  refine every_of_components_eq_nil hv ⟨?_, lasting.plain v herror hclosure⟩
  cases v with
  | closure => cases hclosure
  | _ => trivial

theorem sound_sexpr {cells : List Value} (h : ∀ c ∈ cells, c.Sound p) : (sexpr cells).Sound p :=
  every_iff.mpr ⟨⟨trivial, lasting.plain _ rfl rfl⟩, h⟩

theorem sound_qexpr {cells : List Value} (h : ∀ c ∈ cells, c.Sound p) : (qexpr cells).Sound p :=
  every_iff.mpr ⟨⟨trivial, lasting.plain _ rfl rfl⟩, h⟩

theorem soundBound_qexpr {cells : List Value} (h : ∀ c ∈ cells, c.Sound p) : (qexpr cells).SoundBound p :=
  ⟨rfl, lasting.sound_qexpr h⟩

theorem soundBound_number (n : Int64) : (number n).SoundBound p :=
  ⟨rfl, lasting.sound_atom rfl rfl rfl⟩

theorem soundBound_builtin (b : Builtin) : (builtin b).SoundBound p :=
  ⟨rfl, lasting.sound_atom rfl rfl rfl⟩

theorem soundResult_unit : (sexpr []).SoundResult p :=
  ⟨rfl, lasting.sound_sexpr (List.forall_mem_nil _)⟩

theorem soundResult_fault (fault : Fault) : fault.toValue.SoundResult p :=
  ⟨rfl, every_of_components_eq_nil rfl ⟨trivial, lasting.fault fault⟩⟩

theorem sound_lambda {formals body : Value} (hformals : formals.Sound p) (hbody : body.Sound p) :
    (Value.lambda formals body).Sound p :=
  every_closure.mpr ⟨⟨List.forall_mem_nil _, lasting.lambda formals body⟩, hformals, hbody, List.forall_mem_nil _⟩

/-- Sound data is sound as code. -/
theorem sound_code {code : List Value} (h : (qexpr code).SoundBound p) : (sexpr code).Sound p :=
  lasting.sound_sexpr (every_iff.mp h.2).2

theorem sound_withCells {v : Value} (hv : v.Sound p) {cells : List Value} (h : ∀ c ∈ cells, c.Sound p) :
    (v.withCells cells).Sound p := by
  cases v with
  | sexpr _ => exact lasting.sound_sexpr h
  | qexpr _ => exact lasting.sound_qexpr h
  | _ => exact hv

end Lasting

/-- All that is bound for a sound closure can be bound again. -/
theorem Sound.own {p : Value → Prop} {formals body : Value} {own : Frame} {entered : Bool}
    (h : (closure formals body own entered).Sound p) : ∀ entry ∈ own, entry.2.SoundBound p := by
  obtain ⟨⟨hsettled, -⟩, -, -, hown⟩ := every_closure.mp h
  exact fun entry hentry => ⟨hsettled entry hentry, hown entry hentry⟩

end Value

open Value

/-! ## Binding -/

namespace Bound

def own : Bound → Frame
  | .saturated own => own
  | .waiting _ own => own
  | .failed _ _ own => own

def left : Bound → List Value
  | .saturated _ => []
  | .waiting formals _ => formals
  | .failed _ formals _ => formals

/-- What is bound was bound before, or is an argument, or is a list of arguments. -/
theorem own_bind {q : Value → Prop} (hlist : ∀ vs : List Value, (∀ v ∈ vs, q v) → q (.qexpr vs))
    (tooMany : Fault) {formals args : List Value} {own : Frame} (hown : ∀ entry ∈ own, q entry.2)
    (hargs : ∀ v ∈ args, q v) : ∀ entry ∈ (bind tooMany formals args own).own, q entry.2 := by
  have hput (name : Bytes) (v : Value) (b : Frame) (hb : ∀ entry ∈ b, q entry.2) (hv : q v) :
      ∀ entry ∈ Bindings.put name v b, q entry.2 := by
    intro entry hentry
    rcases Bindings.mem_put hentry with h | rfl
    · exact hb entry h
    · exact hv
  induction formals generalizing args own with
  | nil =>
      cases args with
      | nil => exact hown
      | cons arg args => exact hown
  | cons formal formals ih =>
      cases args with
      | nil =>
          simp only [bind]
          split
          · split
            · exact hput _ _ _ hown (hlist [] hargs)
            · exact hown
          · exact hown
      | cons arg args =>
          obtain ⟨harg, hrest⟩ := List.forall_mem_cons.mp hargs
          simp only [bind]
          split
          · split
            · exact hput _ _ _ hown (hlist _ hargs)
            · exact hown
          · exact ih (hput _ _ _ hown harg) hrest

/-- The formals that are left are the last ones. -/
theorem left_bind_isSuffix (tooMany : Fault) (formals args : List Value) (own : Frame) :
    (bind tooMany formals args own).left <:+ formals := by
  induction formals generalizing args own with
  | nil =>
      cases args with
      | nil => exact List.nil_suffix
      | cons arg args => exact List.nil_suffix
  | cons formal formals ih =>
      cases args with
      | nil =>
          simp only [bind]
          split
          · split
            · exact List.nil_suffix
            · exact List.suffix_rfl
          · exact List.suffix_rfl
      | cons arg args =>
          simp only [bind]
          split
          · split
            · exact List.nil_suffix
            · exact List.suffix_cons _ _
          · exact (ih args _).trans (List.suffix_cons _ _)

theorem left_ofCall_isSuffix (formals args : List Value) (own : Frame) :
    (ofCall formals args own).left <:+ formals :=
  left_bind_isSuffix _ formals args own

end Bound

/-! ## Operations -/

variable {p : Value → Prop}

/-- What an operation computes from sound arguments can be returned. -/
theorem soundResult_compute (lasting : Lasting p) {op : Operation} {args : List Value} {v : Value}
    (hargs : ∀ a ∈ args, a.SoundBound p) (h : op.compute args = .ok v) : v.SoundResult p := by
  have hbool (b : Bool) : (ofBool b).SoundResult p := (lasting.soundBound_number _).result
  cases op with
  | list =>
      obtain rfl : qexpr args = v := Except.ok.inj h
      exact (lasting.soundBound_qexpr fun c hc => (hargs c hc).2).result
  | head =>
      simp only [Operation.compute, bind_eq_ok, Prod.exists, Arguments.oneNonemptyList_eq_ok] at h
      obtain ⟨x, rest, rfl, h⟩ := h
      obtain rfl : qexpr [x] = v := Except.ok.inj h
      have hcells := (hargs _ List.mem_cons_self).2.cells
      refine (lasting.soundBound_qexpr fun c hc => hcells c ?_).result
      exact List.mem_singleton.mp hc ▸ List.mem_cons_self
  | tail =>
      simp only [Operation.compute, bind_eq_ok, Prod.exists, Arguments.oneNonemptyList_eq_ok] at h
      obtain ⟨x, rest, rfl, h⟩ := h
      obtain rfl : qexpr rest = v := Except.ok.inj h
      have hcells := (hargs _ List.mem_cons_self).2.cells
      exact (lasting.soundBound_qexpr fun c hc => hcells c (List.mem_cons_of_mem _ hc)).result
  | join =>
      simp only [Operation.compute, bind_eq_ok,
        Arguments.each_eq_ok (fun _ _ _ => Arguments.list_eq_ok)] at h
      obtain ⟨lists, rfl, h⟩ := h
      obtain rfl : qexpr lists.flatten = v := Except.ok.inj h
      refine (lasting.soundBound_qexpr fun c hc => ?_).result
      obtain ⟨cells, hcells, hc⟩ := List.mem_flatten.mp hc
      exact (hargs _ (List.mem_map_of_mem hcells)).2.cells c hc
  | arith operator =>
      simp only [Operation.compute, bind_eq_ok] at h
      obtain ⟨numbers, -, n, -, h⟩ := h
      obtain rfl : number n = v := Except.ok.inj h
      exact (lasting.soundBound_number n).result
  | lambda =>
      simp only [Operation.compute, bind_eq_ok, Prod.exists, Arguments.twoLists_eq_ok] at h
      obtain ⟨formals, body, rfl, h⟩ := h
      have hformals := (hargs _ List.mem_cons_self).2
      have hbody := (hargs _ (List.mem_cons_of_mem _ List.mem_cons_self)).2
      unfold Operation.makeClosure at h
      split at h
      · cases h
      · obtain rfl : Value.lambda (.qexpr formals) (.qexpr body) = v := Except.ok.inj h
        exact ⟨rfl, lasting.sound_lambda hformals hbody⟩
  | order comparison =>
      simp only [Operation.compute, bind_eq_ok] at h
      obtain ⟨⟨x, y⟩, -, h⟩ := h
      exact Except.ok.inj h ▸ hbool _
  | equal =>
      simp only [Operation.compute, bind_eq_ok] at h
      obtain ⟨⟨v, w⟩, -, h⟩ := h
      exact Except.ok.inj h ▸ hbool _
  | notEqual =>
      simp only [Operation.compute, bind_eq_ok] at h
      obtain ⟨⟨v, w⟩, -, h⟩ := h
      exact Except.ok.inj h ▸ hbool _
  | raise =>
      simp only [Operation.compute, bind_eq_ok] at h
      obtain ⟨message, -, h⟩ := h
      cases h

/-! ## Source text -/

namespace Source.Node

mutual

theorem sound_of_read? (lasting : Lasting p) (node : Node) {v : Value} (h : node.read? = some v) :
    v.Sound p := by
  cases node with
  | comment t => simp [read?] at h
  | number t =>
      obtain rfl : readNumber t.literal = v := by simpa [read?] using h
      unfold readNumber
      split
      · exact (lasting.soundBound_number _).2
      · exact (lasting.soundResult_fault _).2
  | string t =>
      obtain rfl : readString t.literal = v := by simpa [read?] using h
      exact lasting.sound_atom rfl rfl rfl
  | symbol t =>
      obtain rfl : Value.symbol (Utf8.encode t.literal) = v := by simpa [read?] using h
      exact lasting.sound_atom rfl rfl rfl
  | list d t cells =>
      obtain rfl : d.list (readAll cells) = v := by simpa [read?] using h
      cases d with
      | paren => exact lasting.sound_sexpr (sound_of_mem_readAll lasting cells)
      | brace => exact lasting.sound_qexpr (sound_of_mem_readAll lasting cells)

theorem sound_of_mem_readAll (lasting : Lasting p) (nodes : List Node) : ∀ v ∈ readAll nodes, v.Sound p := by
  cases nodes with
  | nil =>
      rw [readAll]
      exact List.forall_mem_nil _
  | cons node rest =>
      rw [readAll]
      cases hnode : node.read? with
      | none => exact sound_of_mem_readAll lasting rest
      | some v =>
          exact List.forall_mem_cons.mpr
            ⟨sound_of_read? lasting node hnode, sound_of_mem_readAll lasting rest⟩

end

end Source.Node

/-! ## Computations -/

/-- Every value bound in the scope of a state can be bound again. -/
def State.Sound (p : Value → Prop) (s : State) : Prop :=
  s.scope.Binds (SoundBound p)

namespace EvalM

variable {α β : Type} {inv : State → Prop} {post : α → Prop}

/-- A computation keeps a condition on the state, and its result has a property. -/
def Gives (inv : State → Prop) (post : α → Prop) (m : EvalM α) : Prop :=
  ∀ s, inv s → ∀ r s', m s = some (r, s') → post r ∧ inv s'

theorem gives_pure {a : α} (h : post a) : Gives inv post (pure a) := by
  intro s hs r s' hr
  obtain ⟨rfl, rfl⟩ := Prod.mk.inj (Option.some.inj hr)
  exact ⟨h, hs⟩

theorem Gives.bind {m : EvalM α} {f : α → EvalM β} {final : β → Prop} (hm : m.Gives inv post)
    (hf : ∀ a, post a → (f a).Gives inv final) : Gives inv final (m >>= f) := by
  intro s hs r s' hr
  obtain ⟨a, s₁, ha, hr⟩ := bind_eq_some_iff.mp hr
  obtain ⟨hpost, hs₁⟩ := hm s hs a s₁ ha
  exact hf a hpost s₁ hs₁ r s' hr

theorem gives_modifyScope {f : Scope → Scope}
    (h : ∀ s : State, inv s → inv { s with scope := f s.scope }) : Gives inv (fun _ => True) (modifyScope f) := by
  intro s hs r s' hr
  obtain ⟨rfl, rfl⟩ := Prod.mk.inj (Option.some.inj hr)
  exact ⟨trivial, h s hs⟩

theorem gives_emit (text : Bytes) : Gives (State.Sound p) (fun _ => True) (emit text) := by
  intro s hs r s' hr
  obtain ⟨rfl, rfl⟩ := Prod.mk.inj (Option.some.inj hr)
  exact ⟨trivial, hs⟩

theorem gives_parseFile (files : Files) (path : Bytes) :
    Gives (State.Sound p) (fun _ => True) (parseFile files path) := by
  intro s hs r s' hr
  obtain ⟨rfl, rfl⟩ := Prod.mk.inj (Option.some.inj hr)
  exact ⟨trivial, hs⟩

theorem gives_leave : Gives (State.Sound p) (fun _ => True) leave := by
  intro s hs r s' hr
  obtain ⟨rfl, rfl⟩ := Prod.mk.inj (Option.some.inj hr)
  exact ⟨trivial, Scope.Binds.leave hs⟩

theorem gives_lookup (lasting : Lasting p) (name : Bytes) :
    Gives (State.Sound p) (SoundResult p) (lookup name) := by
  intro s hs r s' hr
  unfold lookup at hr
  obtain ⟨s₁, s₂, hget, hr⟩ := bind_eq_some_iff.mp hr
  obtain ⟨rfl, rfl⟩ := Prod.mk.inj (Option.some.inj hget)
  cases hname : s.scope.get? name with
  | some v =>
      simp only [hname] at hr
      exact gives_pure (hs.get? hname).result s hs r s' hr
  | none =>
      simp only [hname] at hr
      exact gives_pure (lasting.soundResult_fault _) s hs r s' hr

end EvalM

open EvalM

/-! ## Evaluation -/

variable {files : Files} {ev : Value → EvalM Value}

def SoundValues (p : Value → Prop) : Except Value (List Value) → Prop
  | .ok values => ∀ v ∈ values, v.SoundBound p
  | .error e => e.SoundResult p

section Step

variable (lasting : Lasting p) (hev : ∀ v, v.Sound p → (ev v).Gives (State.Sound p) (SoundResult p))

include hev

theorem evalEach_gives {forms : List Value} (h : ∀ v ∈ forms, v.Sound p) :
    (evalEach ev forms).Gives (State.Sound p) (fun values => ∀ v ∈ values, v.SoundResult p) := by
  induction forms with
  | nil => exact gives_pure (List.forall_mem_nil _)
  | cons v rest ih =>
      obtain ⟨hv, hrest⟩ := List.forall_mem_cons.mp h
      refine (hev v hv).bind fun r hr => (ih hrest).bind fun rs hrs => ?_
      exact gives_pure (List.forall_mem_cons.mpr ⟨hr, hrs⟩)

theorem runProgram_gives {forms : List Value} (h : ∀ v ∈ forms, v.Sound p) :
    (runProgram ev forms).Gives (State.Sound p) (fun _ => True) :=
  (evalEach_gives hev h).bind fun _ _ => gives_emit _

include lasting

theorem apply_gives (b : Builtin) {args : List Value} (hargs : ∀ a ∈ args, a.SoundBound p) :
    (b.apply files ev args).Gives (State.Sound p) (SoundResult p) := by
  have hfault (fault : Fault) : Gives (State.Sound p) (SoundResult p) (pure fault.toValue) :=
    gives_pure (lasting.soundResult_fault fault)
  have hunit : Gives (State.Sound p) (SoundResult p) (pure (.sexpr [])) :=
    gives_pure lasting.soundResult_unit
  have hcode {code : List Value} (h : .qexpr code ∈ args) :
      (ev (.sexpr code)).Gives (State.Sound p) (SoundResult p) :=
    hev _ (lasting.sound_code (hargs _ h))
  cases b with
  | operation op =>
      simp only [Builtin.apply, Builtin.guarded]
      cases hvalue : op.compute args with
      | error fault => exact hfault fault
      | ok v => exact gives_pure (soundResult_compute lasting hargs hvalue)
  | eval =>
      simp only [Builtin.apply, Builtin.guarded]
      cases hchecked : Arguments.oneList Builtin.eval.name args with
      | error fault => exact hfault fault
      | ok code => exact hcode (Arguments.mem_of_oneList hchecked)
  | branch =>
      simp only [Builtin.apply, Builtin.guarded]
      cases hchecked : Builtin.chooseBranch args with
      | error fault => exact hfault fault
      | ok code => exact hcode (Builtin.mem_of_chooseBranch hchecked)
  | define =>
      simp only [Builtin.apply, Builtin.guarded]
      cases hbindings : Builtin.define.definitions args with
      | error fault => exact hfault fault
      | ok bindings =>
          have hnew := Builtin.mem_of_mem_definitions hbindings
          exact (gives_modifyScope fun s hs => hs.define fun e he => hargs _ (hnew e he)).bind fun _ _ => hunit
  | assign =>
      simp only [Builtin.apply, Builtin.guarded]
      cases hbindings : Builtin.assign.definitions args with
      | error fault => exact hfault fault
      | ok bindings =>
          have hnew := Builtin.mem_of_mem_definitions hbindings
          exact (gives_modifyScope fun s hs => hs.assign fun e he => hargs _ (hnew e he)).bind fun _ _ => hunit
  | print => exact (gives_emit _).bind fun _ _ => hunit
  | load =>
      simp only [Builtin.apply, Builtin.guarded]
      cases hchecked : Arguments.oneString Builtin.load.name args with
      | error fault => exact hfault fault
      | ok path =>
          refine (gives_parseFile files path).bind fun parsed _ => ?_
          cases parsed with
          | error e => exact hfault _
          | ok parsed =>
              have hforms := Source.Node.sound_of_mem_readAll lasting parsed.root.forms
              exact (runProgram_gives hev hforms).bind fun _ _ => hunit

omit lasting in
theorem evalCells_gives {cells : List Value} (h : ∀ v ∈ cells, v.Sound p) :
    (evalCells ev cells).Gives (State.Sound p) (SoundValues p) := by
  induction cells with
  | nil => exact gives_pure (List.forall_mem_nil _)
  | cons v rest ih =>
      obtain ⟨hv, hrest⟩ := List.forall_mem_cons.mp h
      refine (hev v hv).bind fun r hr => ?_
      split
      · exact gives_pure hr
      · rename_i hnoError
        refine (ih hrest).bind fun values hvalues => ?_
        cases values with
        | error e => exact gives_pure hvalues
        | ok rs =>
            have hbound : r.SoundBound p := ⟨isSettled_of_isNormal hr.1 (by simpa using hnoError), hr.2⟩
            exact gives_pure (List.forall_mem_cons.mpr ⟨hbound, hvalues⟩)

omit hev in
/-- What is bound for a sound closure after a call with sound arguments. -/
theorem soundBound_ofCall {formals body : Value} {own : Frame} {entered : Bool} {args : List Value}
    (hfunction : (closure formals body own entered).Sound p) (hargs : ∀ a ∈ args, a.SoundBound p) :
    ∀ entry ∈ (Bound.ofCall formals.cells args own).own, entry.2.SoundBound p :=
  Bound.own_bind (fun _ h => lasting.soundBound_qexpr fun v hv => (h v hv).2) _ hfunction.own hargs

theorem call_gives {function : Value} {args : List Value} (hfunction : function.Sound p)
    (hargs : ∀ a ∈ args, a.SoundBound p) :
    (call files ev function args).Gives (State.Sound p) (fun r => r.1.SoundResult p) := by
  cases function with
  | builtin b => exact (apply_gives lasting hev b hargs).bind fun _ hr => gives_pure hr
  | closure formals body own entered =>
      obtain ⟨⟨-, hp⟩, hformals, hbody, -⟩ := every_closure.mp hfunction
      have hown := soundBound_ofCall lasting hfunction hargs
      have hleft := Bound.left_ofCall_isSuffix formals.cells args own
      simp only [call]
      cases hbound : Bound.ofCall formals.cells args own with
      | failed fault left own => exact gives_pure (lasting.soundResult_fault fault)
      | waiting left bound =>
          rw [hbound] at hown hleft
          have hcells : ∀ c ∈ left, c.Sound p := fun c hc => hformals.cells c (hleft.subset hc)
          refine gives_pure ⟨rfl, every_closure.mpr ⟨⟨fun e he => (hown e he).1, lasting.rebound hp _ _⟩,
            lasting.sound_withCells hformals hcells, hbody, fun e he => (hown e he).2⟩⟩
      | saturated bound =>
          rw [hbound] at hown
          refine (gives_modifyScope fun s hs => hs.enter hown).bind fun _ _ => ?_
          refine (hev _ (lasting.sound_sexpr hbody.cells)).bind fun r hr => ?_
          exact gives_leave.bind fun _ _ => gives_pure hr
  | _ => exact gives_pure (lasting.soundResult_fault _)

theorem reduce_gives {v : Value} (h : v.Sound p) :
    (reduce files ev v).Gives (State.Sound p) (SoundResult p) := by
  cases v with
  | symbol name => exact gives_lookup lasting name
  | sexpr cells =>
      refine (evalCells_gives hev h.cells).bind fun values hvalues => ?_
      match values, hvalues with
      | .error e, he => exact gives_pure he
      | .ok [], _ => exact gives_pure lasting.soundResult_unit
      | .ok [v], hv => exact gives_pure (hv v List.mem_cons_self).result
      | .ok (function :: arg :: args), hvalues =>
          obtain ⟨hfunction, hargs⟩ := List.forall_mem_cons.mp hvalues
          exact (call_gives lasting hev hfunction.2 hargs).bind fun _ hr => gives_pure hr
  | _ => exact gives_pure ⟨rfl, h⟩

end Step

/-- The result of evaluating a sound value in a sound state is sound and normal, and so is all that is bound then. -/
theorem eval_gives (lasting : Lasting p) (files : Files) (depth : Nat) {v : Value} (h : v.Sound p) :
    (eval files depth v).Gives (State.Sound p) (SoundResult p) := by
  induction depth generalizing v with
  | zero => exact fun _ _ _ _ hr => nomatch hr
  | succ depth ih => exact reduce_gives lasting (fun w hw => ih hw) h

/-! ## What is evaluated along the way -/

section Asks

variable (lasting : Lasting p) (hev : ∀ v, v.Sound p → (ev v).Gives (State.Sound p) (SoundResult p))

include hev

theorem CellsAsk.sound {cells : List Value} {w : Value} {s t : State} (hask : CellsAsk ev cells s w t)
    (h : ∀ v ∈ cells, v.Sound p) (hs : s.Sound p) : w.Sound p ∧ t.Sound p := by
  induction hask with
  | first => exact ⟨h _ List.mem_cons_self, hs⟩
  | later value noError asks ih =>
      obtain ⟨hv, hrest⟩ := List.forall_mem_cons.mp h
      exact ih hrest (hev _ hv _ hs _ _ value).2

theorem FormsAsk.sound {forms : List Value} {w : Value} {s t : State} (hask : FormsAsk ev forms s w t)
    (h : ∀ v ∈ forms, v.Sound p) (hs : s.Sound p) : w.Sound p ∧ t.Sound p := by
  induction hask with
  | first => exact ⟨h _ List.mem_cons_self, hs⟩
  | later value asks ih =>
      obtain ⟨hv, hrest⟩ := List.forall_mem_cons.mp h
      exact ih hrest (hev _ hv _ hs _ _ value).2

include lasting

theorem BuiltinAsks.sound {b : Builtin} {args : List Value} {w : Value} {s t : State}
    (hask : BuiltinAsks files ev b args s w t) (hargs : ∀ a ∈ args, a.SoundBound p) (hs : s.Sound p) :
    w.Sound p ∧ t.Sound p := by
  cases hask with
  | eval checked => exact ⟨lasting.sound_code (hargs _ (Arguments.mem_of_oneList checked)), hs⟩
  | branch checked => exact ⟨lasting.sound_code (hargs _ (Builtin.mem_of_chooseBranch checked)), hs⟩
  | load checked found asks =>
      have hs₁ := (gives_parseFile files _ _ hs _ _ found).2
      exact asks.sound hev (Source.Node.sound_of_mem_readAll lasting _) hs₁

theorem CallAsks.sound {function : Value} {args : List Value} {w : Value} {s t : State}
    (hask : CallAsks files ev function args s w t) (hfunction : function.Sound p)
    (hargs : ∀ a ∈ args, a.SoundBound p) (hs : s.Sound p) : w.Sound p ∧ t.Sound p := by
  cases hask with
  | builtin asks => exact asks.sound lasting hev hargs hs
  | closure saturated =>
      obtain ⟨-, -, hbody, -⟩ := every_closure.mp hfunction
      have hown := soundBound_ofCall lasting hfunction hargs
      rw [saturated] at hown
      exact ⟨lasting.sound_sexpr hbody.cells, hs.enter hown⟩

theorem Asks.sound {v w : Value} {s t : State} (hask : Asks files ev v s w t) (hv : v.Sound p)
    (hs : s.Sound p) : w.Sound p ∧ t.Sound p := by
  cases hask with
  | cell asks => exact asks.sound hev hv.cells hs
  | call values asks =>
      obtain ⟨hvalues, hs₁⟩ := evalCells_gives hev hv.cells _ hs _ _ values
      obtain ⟨hfunction, hargs⟩ := List.forall_mem_cons.mp hvalues
      exact asks.sound lasting hev hfunction.2 hargs hs₁

end Asks

/-- All that is evaluated while a sound value is evaluated in a sound state is sound. -/
theorem Invokes.sound (lasting : Lasting p) {depth left : Nat} {v w : Value} {s t : State}
    (hinvokes : Invokes files depth v s left w t) (hv : v.Sound p) (hs : s.Sound p) :
    w.Sound p ∧ t.Sound p := by
  induction hinvokes with
  | self => exact ⟨hv, hs⟩
  | nested asks invokes ih =>
      obtain ⟨hw, ht⟩ := asks.sound lasting (fun x hx => eval_gives lasting files _ hx) hv hs
      exact ih hw ht

end BraceLisp
