import BraceLisp.Proofs.Positional.Completion
import BraceLisp.Proofs.Session.Safety

/-!
# Completion at the prompt

However often the names of a session have been bound again or hidden, each is bound once in the global environment.
So the names that are offered for a stem are those that it is the proper beginning of, in the order of their bytes,
and each is offered once.
-/

namespace BraceLisp

/-! ## The names of a session -/

namespace Session

variable {files : Files} {depth : Nat} {s after : Session}

/-- What an input does to the global environment is to bind names in it. -/
theorem grows_globals_respond {input : Input} {values : List Value}
    (h : s.respond files depth input = some (values, after)) : Bindings.Grows s.globals after.globals := by
  by_cases hforms : ∃ forms t, s.Forms files input forms t
  · obtain ⟨forms, t, hforms⟩ := hforms
    obtain ⟨results, t', heval, hglobals, -⟩ := hforms.evalEach h
    have hroot := (evalEach_grows (eval_grows files depth) forms t results t' heval).root
    rw [hforms.scope, ← hglobals] at hroot
    exact hroot
  · rw [(globals_respond_of_no_forms hforms h).1]
    exact .refl _

/-- No name is bound twice in the global environment of a session. -/
theorem Reachable.nodup_names (h : s.Reachable) : (Bindings.names s.globals).Nodup := by
  induction h with
  | start starts =>
      have hbare : (Bindings.names bare.globals).Nodup :=
        Bindings.Grows.nodup_names (b := []) ⟨_, rfl⟩ List.nodup_nil
      rcases eq_bare_or_respond_of_start starts with rfl | hprelude
      · exact hbare
      · exact (grows_globals_respond hprelude).nodup_names hbare
  | input reachable responds ih => exact (grows_globals_respond responds).nodup_names ih
  | output reachable output ih => exact ih

end Session

/-! ## The names that are offered -/

namespace Completion

theorem sorted_perm (names : List Bytes) : (sorted names).Perm names :=
  List.mergeSort_perm names _

/-- Names that are all different are in strictly increasing order once they are sorted. -/
theorem pairwise_lt_sorted {names : List Bytes} (h : names.Nodup) : (sorted names).Pairwise (· < ·) := by
  have hsorted : (sorted names).Pairwise fun a b => decide (a ≤ b) := by
    refine List.pairwise_mergeSort (fun a b c hab hbc => ?_) (fun a b => ?_) names
    · exact decide_eq_true (List.le_trans (of_decide_eq_true hab) (of_decide_eq_true hbc))
    · exact (Bool.or_eq_true _ _).mpr ((List.le_total a b).imp decide_eq_true decide_eq_true)
  have hdistinct : (sorted names).Nodup := (sorted_perm names).nodup_iff.mpr h
  exact (hsorted.and hdistinct).imp fun ⟨hle, hne⟩ => Std.lt_of_le_of_ne (of_decide_eq_true hle) hne

/-- A stem with one of its endings is a name that it is the proper beginning of. -/
theorem map_append_endings {stem : Bytes} (h : stem ≠ []) (names : List Bytes) :
    (endings names stem).map (stem ++ ·) =
      (sorted names).filter fun name => decide (stem <+: name ∧ stem ≠ name) := by
  rw [endings, if_neg (by simpa using h)]
  induction sorted names with
  | nil => rfl
  | cons name rest ih =>
      rw [List.filterMap_cons, List.filter_cons, ending?]
      by_cases hbegins : stem <+: name ∧ stem ≠ name
      · have hending : stem.isPrefixOf name ∧ name ≠ stem :=
          ⟨List.isPrefixOf_iff_prefix.mpr hbegins.1, hbegins.2.symm⟩
        rw [if_pos hending, if_pos (decide_eq_true hbegins), List.map_cons, ih,
          List.prefix_iff_eq_append.mp hbegins.1]
      · have hending : ¬ (stem.isPrefixOf name ∧ name ≠ stem) := fun hending =>
          hbegins ⟨List.isPrefixOf_iff_prefix.mp hending.1, hending.2.symm⟩
        rw [if_neg hending, if_neg (mt of_decide_eq_true hbegins), ih]

/-- No name that a stem is the proper beginning of is left out, none is offered twice, and they come in order. -/
theorem endings_exact {names : List Bytes} (hnames : names.Nodup) {stem : Bytes} (h : stem ≠ []) :
    ((endings names stem).map (stem ++ ·)).Pairwise (· < ·) ∧
      ∀ name, name ∈ (endings names stem).map (stem ++ ·) ↔ name ∈ names ∧ stem <+: name ∧ stem ≠ name := by
  rw [map_append_endings h]
  refine ⟨(pairwise_lt_sorted hnames).filter _, fun name => ?_⟩
  rw [List.mem_filter, (sorted_perm names).mem_iff, decide_eq_true_iff]

end Completion

namespace Repl

/--
Completion at a prompt that can be reached never breaks down inside of a line, whatever numbers stand there for
characters. It finds the longest run of symbol characters that ends at the cursor. With an empty one it offers
nothing; with any other it offers the endings of those global names that the run is the proper beginning of, each
once, and the names are in the order of their bytes.
-/
theorem Reachable.completes_exactly {r : Repl} (h : r.Reachable) {line : List Int} {cursor : Int} (hlow : 0 ≤ cursor)
    (hhigh : cursor ≤ line.length) :
    ∃ before codes behind stem endings,
      Positional.StemAt line cursor before codes behind ∧ stem = Utf8.encode (codes.map Positional.toChar) ∧
      Positional.complete (Bindings.names r.session.globals) line cursor = .ok (stem, endings) ∧
      r.complete? (line.map Positional.toChar) cursor = some (stem, endings) ∧
      (stem = [] → endings = []) ∧
      (stem ≠ [] →
        (endings.map (stem ++ ·)).Pairwise (· < ·) ∧
        ∀ name, name ∈ endings.map (stem ++ ·) ↔
          name ∈ Bindings.names r.session.globals ∧ stem <+: name ∧ stem ≠ name) := by
  obtain ⟨before, codes, behind, hstem⟩ := Positional.exists_stemAt hlow hhigh
  refine ⟨before, codes, behind, _, _, hstem, rfl, hstem.complete_eq _, ?_, ?_, ?_⟩
  · have hinside : 0 ≤ cursor ∧ cursor.toNat ≤ (line.map Positional.toChar).length := by
      rw [List.length_map]
      omega
    simp only [complete?, Completion.complete?, if_pos hinside, hstem.stem_map_toChar]
  · intro hempty
    rw [Completion.endings, if_pos (List.isEmpty_iff.mpr hempty)]
  · exact Completion.endings_exact h.safe.session.nodup_names

/-- A name that was bound twice and one that was hidden are offered once each, behind the number of no character. -/
theorem completes_exactly_of_rebound_names :
    ∃ quit after quit' later before codes behind endings,
      (ofSession Session.bare false).line (fun _ => .missing) 8 (Bytes.of "def {fit fill} 1 2") = some (quit, after) ∧
      after.line (fun _ => .missing) 8 (Bytes.of "(\\ {fit} {def {fill} fit}) 3") = some (quit', later) ∧
      Positional.StemAt [-1, 102, 105, 41] 3 before codes behind ∧
      Positional.complete (Bindings.names later.session.globals) [-1, 102, 105, 41] 3 =
        .ok (Bytes.of "fi", endings) ∧
      (endings.map (Bytes.of "fi" ++ ·)).Pairwise (· < ·) ∧
      ∀ name, name ∈ endings.map (Bytes.of "fi" ++ ·) ↔ name ∈ [Bytes.of "fit", Bytes.of "fill"] := by
  have hrun : (((ofSession Session.bare false).line (fun _ => .missing) 8
      (Bytes.of "def {fit fill} 1 2")).bind fun first =>
        (first.2.line (fun _ => .missing) 8 (Bytes.of "(\\ {fit} {def {fill} fit}) 3")).map fun second =>
          (Bindings.names second.2.session.globals).filter fun name =>
            decide (Bytes.of "fi" <+: name ∧ Bytes.of "fi" ≠ name)) =
      some [Bytes.of "fit", Bytes.of "fill"] := by
    decide +kernel
  obtain ⟨⟨quit, after⟩, hfirst, hrest⟩ := Option.bind_eq_some_iff.mp hrun
  obtain ⟨⟨quit', later⟩, hsecond, hnames⟩ := Option.map_eq_some_iff.mp hrest
  have hbare : Session.start 0 false = some Session.bare := rfl
  have hreachable : later.Reachable := .line (.line (.start (.start hbare) false) hfirst) hsecond
  have hhigh : (3 : Int) ≤ [(-1 : Int), 102, 105, 41].length := by decide
  obtain ⟨before, codes, behind, stem, endings, hstem, -, hcomplete, hmodel, -, hexact⟩ :=
    hreachable.completes_exactly (by decide) hhigh
  obtain rfl : Bytes.of "fi" = stem := (Prod.mk.inj (Option.some.inj hmodel)).1
  obtain ⟨hsorted, hmem⟩ := hexact (by decide)
  refine ⟨quit, after, quit', later, before, codes, behind, endings, hfirst, hsecond, hstem, hcomplete, hsorted, ?_⟩
  intro name
  rw [hmem, ← hnames, List.mem_filter, decide_eq_true_iff]

end Repl

end BraceLisp
