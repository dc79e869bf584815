import BraceLisp.Draft.Basic
import BraceLisp.Proofs.Source.RoundTrip
import BraceLisp.Value.Equal

/-!
# Equality and print

Two values are equal in the language if they are the same once all has been forgotten that equality does not look at:
where an error comes from, and what has been bound for a closure. Printing does not show it either, so equal values are
printed alike.

Values that are printed alike need not be equal: all builtins are, and a symbol may have any name. But of values that
can be spelled out in source text no two different ones are printed alike, since each can be read back.
-/

namespace BraceLisp

open Source

namespace Value

/-! ## What equality looks at -/

mutual

/-- A value without anything that equality does not look at. -/
def essence : Value → Value
  | .error _ _ message => .error .unknown [] message
  | .closure formals body _ _ => .lambda (essence formals) (essence body)
  | .sexpr cells => .sexpr (essenceAll cells)
  | .qexpr cells => .qexpr (essenceAll cells)
  | v => v

def essenceAll : List Value → List Value
  | [] => []
  | v :: rest => essence v :: essenceAll rest

end

mutual

/-- Equal values are those that have the same essence. -/
theorem equal_iff (v w : Value) : v.equal w ↔ v.essence = w.essence := by
  cases v with
  | closure formals body own entered =>
      cases w with
      | closure formals' body' own' entered' =>
          simp [equal, essence, Value.lambda, equal_iff formals formals', equal_iff body body']
      | _ => simp [equal, essence, Value.lambda]
  | sexpr cells =>
      cases w with
      | sexpr cells' => simp [equal, essence, equalAll_iff cells cells']
      | _ => simp [equal, essence, Value.lambda]
  | qexpr cells =>
      cases w with
      | qexpr cells' => simp [equal, essence, equalAll_iff cells cells']
      | _ => simp [equal, essence, Value.lambda]
  | _ => cases w <;> simp [equal, essence, Value.lambda]

theorem equalAll_iff (vs ws : List Value) : equalAll vs ws ↔ essenceAll vs = essenceAll ws := by
  match vs, ws with
  | [], [] => simp [equalAll]
  | [], w :: ws => simp [equalAll, essenceAll]
  | v :: vs, [] => simp [equalAll, essenceAll]
  | v :: vs, w :: ws => simp [equalAll, essenceAll, equal_iff v w, equalAll_iff vs ws]

end

mutual

theorem render_essence (v : Value) : v.essence.render = v.render := by
  cases v with
  | closure formals body own entered =>
      simp only [essence, Value.lambda, render, render_essence formals, render_essence body]
  | sexpr cells => simp only [essence, render, renderAll_essenceAll cells]
  | qexpr cells => simp only [essence, render, renderAll_essenceAll cells]
  | _ => rfl

theorem renderAll_essenceAll (vs : List Value) : renderAll (essenceAll vs) = renderAll vs := by
  cases vs with
  | nil => rfl
  | cons v rest => simp only [essenceAll, renderAll, render_essence v, renderAll_essenceAll rest]

end

/-! ## What is spelled out -/

/-- A name that is read as a single symbol, and as nothing else. -/
def IsName (name : Bytes) : Prop :=
  ∃ t atEnd, Token.scan [] (Utf8.decode name) = [t, atEnd] ∧ t.kind = .symbol ∧ Utf8.encode t.literal = name

/-- A value that is made of numbers, texts and names. -/
inductive Spelled : Value → Prop where
  | number (n : Int64) : Spelled (.number n)
  | string {s : Bytes} (valid : Utf8.isValid s) : Spelled (.string s)
  | symbol {name : Bytes} (named : IsName name) : Spelled (.symbol name)
  | sexpr {cells : List Value} (spelled : ∀ c ∈ cells, Spelled c) : Spelled (.sexpr cells)
  | qexpr {cells : List Value} (spelled : ∀ c ∈ cells, Spelled c) : Spelled (.qexpr cells)

variable {v w : Value}

theorem Spelled.isReadable (h : v.Spelled) : v.isReadable := by
  induction h with
  | number n => rfl
  | string valid => exact valid
  | symbol named =>
      obtain ⟨t, atEnd, hscan, hkind, rfl⟩ := named
      have ht : t ∈ Token.scan [] (Utf8.decode (Utf8.encode t.literal)) := hscan ▸ List.mem_cons_self
      rw [Value.isReadable, Utf8.isValid_encode, Utf8.decode_encode, Token.isSymbolName_literal ht hkind]
      rfl
  | sexpr spelled ih => exact areReadable_iff.mpr ih
  | qexpr spelled ih => exact areReadable_iff.mpr ih

/-- Values that can be written in source text are the same if they are printed alike, since both are read back. -/
theorem eq_of_render (hv : v.isReadable) (hw : w.isReadable) (h : v.render = w.render) : v = w := by
  obtain ⟨pieces, hwritten⟩ := Written.exists_render hv
  obtain ⟨pieces', hwritten'⟩ := Written.exists_render hw
  obtain ⟨root, hroot, -, hread⟩ := hwritten.parse []
  obtain ⟨root', hroot', -, hread'⟩ := hwritten'.parse []
  rw [h] at hroot
  obtain rfl := Except.ok.inj (hroot.symm.trans hroot')
  exact List.singleton_inj.mp (Value.sexpr.inj (hread.symm.trans hread'))

/-! ## Equality -/

/--
Equality is an equivalence, and a copy is equal to what it was made of. Equal values are printed alike; values that are
made of numbers, texts and names are equal if they are printed alike.
-/
theorem equality_sound :
    (∀ v : Value, v.equal v) ∧
    (∀ v w : Value, v.equal w → w.equal v) ∧
    (∀ u v w : Value, u.equal v → v.equal w → u.equal w) ∧
    (∀ d : Draft, d.finished.equal d.copy.finished) ∧
    (∀ v w : Value, v.equal w → v.render = w.render) ∧
    ∀ v w : Value, v.Spelled → w.Spelled → v.render = w.render → v.equal w := by
  have hrefl (v : Value) : v.equal v := (equal_iff v v).mpr rfl
  refine ⟨hrefl, fun v w h => ?_, fun u v w huv hvw => ?_, fun d => ?_, fun v w h => ?_, fun v w hv hw h => ?_⟩
  · exact (equal_iff w v).mpr ((equal_iff v w).mp h).symm
  · exact (equal_iff u w).mpr (((equal_iff u v).mp huv).trans ((equal_iff v w).mp hvw))
  · rw [Draft.finished_copy]
    exact hrefl d.finished
  · rw [← render_essence v, (equal_iff v w).mp h, render_essence w]
  · rw [eq_of_render hv.isReadable hw.isReadable h]
    exact hrefl w

/--
A closure is equal to the same closure before anything was bound for it, and both are printed alike. A list of a name
and a number is not printed like a list of the same name and a text.
-/
theorem equality_sound_of_closure :
    (Value.closure (.qexpr []) (.qexpr [.symbol (Bytes.of "x")]) [(Bytes.of "x", .number 1)] true).render =
      (Value.lambda (.qexpr []) (.qexpr [.symbol (Bytes.of "x")])).render ∧
    (Value.qexpr [.symbol (Bytes.of "x"), .number 1]).Spelled ∧
    (Value.qexpr [.symbol (Bytes.of "x"), .string (Bytes.of "1")]).Spelled ∧
    (Value.qexpr [.symbol (Bytes.of "x"), .number 1]).render ≠
      (Value.qexpr [.symbol (Bytes.of "x"), .string (Bytes.of "1")]).render := by
  have hname : IsName (Bytes.of "x") := ⟨_, _, rfl, rfl, rfl⟩
  have hnumber : (Value.qexpr [.symbol (Bytes.of "x"), .number 1]).Spelled :=
    .qexpr (List.forall_mem_cons.mpr ⟨.symbol hname, List.forall_mem_singleton.mpr (.number 1)⟩)
  have hstring : (Value.qexpr [.symbol (Bytes.of "x"), .string (Bytes.of "1")]).Spelled :=
    .qexpr (List.forall_mem_cons.mpr ⟨.symbol hname, List.forall_mem_singleton.mpr (.string (by decide))⟩)
  obtain ⟨-, -, -, -, hprinted, hspelled⟩ := equality_sound
  refine ⟨hprinted _ _ rfl, hnumber, hstring, fun h => ?_⟩
  cases hspelled _ _ hnumber hstring h

end Value

end BraceLisp
