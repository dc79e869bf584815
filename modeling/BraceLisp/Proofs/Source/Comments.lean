import BraceLisp.Proofs.Source.Words

/-!
# Comments among words

Comments have no part in what words mean: words mean some values just when they do so without the comments among
them, at whatever depth these stand.
-/

namespace BraceLisp.Source

def withoutComments (words : List Word) : List Word :=
  words.filter fun w => w.kind != .comment

theorem withoutComments_append (first second : List Word) :
    withoutComments (first ++ second) = withoutComments first ++ withoutComments second :=
  List.filter_append ..

theorem withoutComments_cons {w : Word} (h : w.kind ≠ .comment) (words : List Word) :
    withoutComments (w :: words) = w :: withoutComments words :=
  List.filter_cons_of_pos (by simpa using h)

namespace Means

variable {words first second : List Word} {values : List Value}

/-- A comment can stand anywhere among words and changes nothing about what they mean. -/
theorem insert_comment (h : Means (first ++ second) values) (literal : List Char) :
    Means (first ++ ⟨.comment, literal⟩ :: second) values := by
  generalize hwords : first ++ second = words at h
  induction h generalizing first second with
  | nil =>
      obtain ⟨rfl, rfl⟩ := List.append_eq_nil_iff.mp hwords
      exact .comment literal .nil
  | number text hrest ih =>
      cases first with
      | nil =>
          subst hwords
          exact .comment literal (.number text hrest)
      | cons w first =>
          obtain ⟨hw, htail⟩ := List.cons.inj hwords
          subst hw
          exact .number text (ih htail)
  | string text hrest ih =>
      cases first with
      | nil =>
          subst hwords
          exact .comment literal (.string text hrest)
      | cons w first =>
          obtain ⟨hw, htail⟩ := List.cons.inj hwords
          subst hw
          exact .string text (ih htail)
  | symbol text hrest ih =>
      cases first with
      | nil =>
          subst hwords
          exact .comment literal (.symbol text hrest)
      | cons w first =>
          obtain ⟨hw, htail⟩ := List.cons.inj hwords
          subst hw
          exact .symbol text (ih htail)
  | comment text hrest ih =>
      cases first with
      | nil =>
          subst hwords
          exact .comment literal (.comment text hrest)
      | cons w first =>
          obtain ⟨hw, htail⟩ := List.cons.inj hwords
          subst hw
          exact .comment text (ih htail)
  | list d opener closer hinner hrest ihinner ihrest =>
      cases first with
      | nil =>
          subst hwords
          exact .comment literal (.list d opener closer hinner hrest)
      | cons w first =>
          obtain ⟨hw, htail⟩ := List.cons.inj hwords
          subst hw
          -- the comment stands inside the list, or behind the delimiter that closes it
          rcases List.append_eq_append_iff.mp htail.symm with ⟨between, rfl, hsecond⟩ | ⟨more, rfl, hmore⟩
          · cases between with
            | nil =>
                obtain rfl := hsecond.symm
                have hlist := Means.list d opener closer (ihinner (List.append_nil _)) hrest
                simpa using hlist
            | cons w between =>
                obtain ⟨rfl, rfl⟩ := List.cons.inj hsecond
                have hlist := Means.list d opener closer hinner (ihrest rfl)
                simpa using hlist
          · subst hmore
            have hlist := Means.list d opener closer (ihinner rfl) hrest
            simpa using hlist

theorem of_withoutComments (h : Means (first ++ withoutComments words) values) : Means (first ++ words) values := by
  induction words generalizing first with
  | nil => exact h
  | cons w words ih =>
      by_cases hcomment : w.kind = .comment
      · obtain ⟨kind, literal⟩ := w
        obtain rfl : kind = .comment := hcomment
        exact (ih h).insert_comment literal
      · rw [withoutComments_cons hcomment] at h
        rw [← List.singleton_append, ← List.append_assoc] at h ⊢
        exact ih h

theorem withoutComments (h : Means words values) : Means (Source.withoutComments words) values := by
  induction h with
  | nil => exact .nil
  | number literal _ ih => exact .number literal ih
  | string literal _ ih => exact .string literal ih
  | symbol literal _ ih => exact .symbol literal ih
  | comment literal _ ih => exact ih
  | list d opener closer _ _ ihinner ihrest =>
      rw [withoutComments_cons Kind.noConfusion, withoutComments_append, withoutComments_cons Kind.noConfusion]
      exact .list d opener closer ihinner ihrest

end Means

/-- Words mean what they mean without their comments. -/
theorem means_withoutComments_iff {words : List Word} {values : List Value} :
    Means (withoutComments words) values ↔ Means words values :=
  ⟨fun h => @Means.of_withoutComments words [] values h, Means.withoutComments⟩

end BraceLisp.Source
