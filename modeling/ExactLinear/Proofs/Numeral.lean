import ExactLinear.Scalar.Decimal
import Mathlib.Data.Nat.Factorization.Basic
import Mathlib.Tactic.Ring

/- What numerals are: digits, of which the value is the scalar written. -/
namespace ExactLinear.Decimal

/-! Places. -/

/-- Whether a power of ten is a multiple of a number is seen below that number. -/
theorem dvd_pow_self_of_dvd_pow {d k : Nat} (h : d ∣ 10 ^ k) : d ∣ 10 ^ d := by
  have hten : ∀ n, (10 ^ n : Nat) ≠ 0 := fun n => pow_ne_zero n (by decide)
  have hd : d ≠ 0 := ne_zero_of_dvd_ne_zero (hten k) h
  rw [← Nat.factorization_le_iff_dvd hd (hten k), Nat.factorization_pow] at h
  rw [← Nat.factorization_le_iff_dvd hd (hten d), Nat.factorization_pow]
  intro p
  have hp := h p
  rw [Finsupp.smul_apply, smul_eq_mul] at hp ⊢
  rcases Nat.eq_zero_or_pos (Nat.factorization 10 p) with hzero | hpos
  · rw [hzero, Nat.mul_zero] at hp ⊢
    exact hp
  · exact (Nat.factorization_lt p hd).le.trans (Nat.le_mul_of_pos_right d hpos)

variable {q : Scalar}

theorem den_dvd_pow_places (hq : Terminating q) : q.den ∣ 10 ^ places q := by
  obtain ⟨-, k, hk⟩ := hq
  have hmem : q.den ∈ List.range (q.den + 1) := List.mem_range.mpr (Nat.lt_succ_self _)
  have hfound : ((List.range (q.den + 1)).find? fun k => Nat.pow 10 k % q.den == 0).isSome := by
    rw [List.find?_isSome]
    exact ⟨q.den, hmem, beq_iff_eq.mpr (Nat.mod_eq_zero_of_dvd (dvd_pow_self_of_dvd_pow hk))⟩
  obtain ⟨least, hleast⟩ := Option.isSome_iff_exists.mp hfound
  rw [places, hleast, Option.getD_some]
  exact Nat.dvd_of_mod_eq_zero (beq_iff_eq.mp (List.find?_some hleast :))

/-! Digits. -/

theorem length_lastDigits (k n : Nat) : (lastDigits k n).length = k := by
  induction k generalizing n with
  | zero => rfl
  | succ k ih => rw [lastDigits, List.length_append, ih, List.length_singleton]

theorem isDigit_of_mem_lastDigits {k n : Nat} : ∀ c ∈ lastDigits k n, c.isDigit = true := by
  induction k generalizing n with
  | zero => exact List.forall_mem_nil _
  | succ k ih =>
    rw [lastDigits, List.forall_mem_append]
    refine ⟨ih, ?_⟩
    intro c hc
    obtain rfl := List.mem_singleton.mp hc
    rw [Nat.isDigit_digitChar]
    exact decide_eq_true (Nat.mod_lt n (by decide))

theorem wholeDigits_ne_nil (q : Scalar) : wholeDigits q ≠ [] := Nat.toDigits_ne_nil

theorem isDigit_of_mem_wholeDigits : ∀ c ∈ wholeDigits q, c.isDigit = true :=
  fun _ hc => Nat.isDigit_of_mem_toDigits (by decide) (by decide) hc

theorem ofDigitChars_lastDigits (k n start : Nat) :
    Nat.ofDigitChars 10 (lastDigits k n) start = 10 ^ k * start + n % 10 ^ k := by
  induction k generalizing n with
  | zero => simp [lastDigits, Nat.mod_one]
  | succ k ih =>
    have hdigit := Nat.mod_lt n (show 10 > 0 by decide)
    rw [lastDigits, Nat.ofDigitChars_append, ih, Nat.ofDigitChars_cons_digitChar_of_lt_ten hdigit,
      Nat.ofDigitChars_nil, pow_succ', Nat.mod_mul]
    ring

/-- The digits of a numeral have the value that was written. -/
theorem value_digits (hq : Terminating q) : value (wholeDigits q) (fractionDigits q) = q := by
  have hdvd := den_dvd_pow_places hq
  have hpow : (10 : Nat) ^ places q = q.den * (10 ^ places q / q.den) :=
    (Nat.mul_div_cancel' hdvd).symm
  have hquotient : 10 ^ places q / q.den ≠ 0 := by
    intro hzero
    rw [hzero, Nat.mul_zero] at hpow
    exact pow_ne_zero _ (by decide) hpow
  have hdigits : Nat.ofDigitChars 10 (wholeDigits q ++ fractionDigits q) 0 = shifted q := by
    rw [Nat.ofDigitChars_append, wholeDigits, Nat.ofDigitChars_ten_toDigits, fractionDigits,
      ofDigitChars_lastDigits]
    exact Nat.div_add_mod _ _
  -- The factor that makes the denominator a power of ten is cancelled again.
  have hnum : (q.num.toNat : Int) = q.num := Int.toNat_of_nonneg (Rat.num_nonneg.mpr hq.1)
  rw [value, hdigits, fractionDigits, length_lastDigits, shifted]
  calc mkRat ((q.num.toNat * (10 ^ places q / q.den) : Nat) : Int) (10 ^ places q)
      = mkRat (q.num * (10 ^ places q / q.den : Nat)) (q.den * (10 ^ places q / q.den)) := by
        rw [← hpow, Nat.cast_mul, hnum]
    _ = q := by rw [Rat.mkRat_mul_right hquotient, Rat.mkRat_self]

end ExactLinear.Decimal
