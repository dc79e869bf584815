import BraceLisp.Text.CharClass
import BraceLisp.Text.Decimal
import BraceLisp.Value.Number

/-!
# Decimal forms

The decimal form of an integer is a run of digits, with a minus sign in front of it if the integer is negative,
and is read back as that integer. Every 64-bit number is in range when it is read back.
-/

namespace BraceLisp

namespace Decimal

open CharClass

theorem isDigit_of_mem_ofNat {n : Nat} {c : Char} (h : c ∈ ofNat n) : isDigit c := by
  have hdigit := Nat.isDigit_of_mem_toDigits (by decide) (by decide) h
  obtain ⟨hleast, hgreatest⟩ := Char.isDigit_iff_toNat.mp hdigit
  exact (Bool.and_eq_true _ _).mpr ⟨decide_eq_true hleast, decide_eq_true hgreatest⟩

theorem exists_ofNat_eq_cons (n : Nat) : ∃ c rest, ofNat n = c :: rest :=
  List.exists_cons_of_ne_nil Nat.toDigits_ne_nil

theorem toNat_ofNat (n : Nat) : toNat (ofNat n) = n := Nat.ofDigitChars_ten_toDigits

/-- An integer is read back. -/
theorem toInt_ofInt (n : Int) : toInt (ofInt n) = n := by
  cases n with
  | ofNat n =>
      obtain ⟨c, rest, hcons⟩ := exists_ofNat_eq_cons n
      have hsign : c ≠ '-' := by
        rintro rfl
        exact absurd (isDigit_of_mem_ofNat (hcons ▸ List.mem_cons_self)) (by decide)
      have hvalue := toNat_ofNat n
      rw [hcons] at hvalue
      simp only [ofInt, hcons, toInt, hsign, if_false, hvalue]
      rfl
  | negSucc n =>
      simp only [ofInt, toInt, if_true, toNat_ofNat]
      rfl

end Decimal

/-- Every number is in range. -/
theorem Number.ofInt?_toInt (n : Int64) : ofInt? n.toInt = some n := by
  have hleast := n.le_toInt
  have hgreatest := n.toInt_lt
  have hrange : least ≤ n.toInt ∧ n.toInt ≤ greatest := by
    simp only [least, greatest]
    omega
  rw [ofInt?, if_pos hrange, Int64.ofInt_toInt]

end BraceLisp
