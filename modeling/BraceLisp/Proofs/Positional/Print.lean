import BraceLisp.Eval.Builtin
import BraceLisp.Positional.Print

/-!
# Printing never breaks down

The two tables of escapes are the columns of one.
-/

namespace BraceLisp.Positional

theorem escapedChars_eq : escapedChars = Escape.table.map Prod.fst := rfl

theorem escapedForms_eq : escapedForms = Escape.table.map fun row => Utf8.encode ['\\', row.2] := by decide +kernel

theorem escapeAll_eq (text : List Char) : escapeAll text = .ok (Utf8.encode (text.flatMap Escape.escapeChar)) := by
  induction text with
  | nil => rfl
  | cons c rest ih =>
      have hform : lookup? escapedChars escapedForms (· == c) =
          .ok ((Escape.mark? c).map fun m => Utf8.encode ['\\', m]) := by
        rw [escapedChars_eq, escapedForms_eq, lookup?_map, Escape.mark?, Option.map_map]
        rfl
      have hchar : ((Escape.mark? c).map fun m => Utf8.encode ['\\', m]).getD (Utf8.encode [c]) =
          Utf8.encode (Escape.escapeChar c) := by
        rw [Escape.escapeChar]
        cases Escape.mark? c with
        | none => rfl
        | some m => rfl
      rw [escapeAll, hform, ih]
      change Except.ok (((Escape.mark? c).map fun m => Utf8.encode ['\\', m]).getD (Utf8.encode [c]) ++ _) = _
      rw [hchar, List.flatMap_cons]
      simp only [Utf8.encode, List.flatMap_append]

mutual

/-- Values are printed by position as they are printed. -/
theorem render_eq (v : Value) : render v = .ok v.render := by
  cases v with
  | string s =>
      rw [render, escapeAll_eq]
      rfl
  | closure formals body own entered =>
      rw [render, render_eq formals, render_eq body]
      rfl
  | sexpr cells =>
      rw [render, renderAll_eq cells]
      rfl
  | qexpr cells =>
      rw [render, renderAll_eq cells]
      rfl
  | _ => rfl

theorem renderAll_eq (vs : List Value) : renderAll vs = .ok (Value.renderAll vs) := by
  cases vs with
  | nil => rfl
  | cons v rest =>
      rw [renderAll, render_eq v, renderAll_eq rest]
      rfl

end

theorem renderLines_eq (vs : List Value) :
    renderLines vs = .ok (vs.flatMap fun v => v.render ++ Bytes.of "\n") := by
  induction vs with
  | nil => rfl
  | cons v rest ih =>
      rw [renderLines, render_eq, ih]
      rfl

end BraceLisp.Positional
