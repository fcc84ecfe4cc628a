import ExactLinear.Proofs.LongestLexeme
import Mathlib.Algebra.BigOperators.Field
import Mathlib.Algebra.BigOperators.Fin
import Mathlib.Algebra.Field.Rat
import Mathlib.Tactic.Ring

/- What is read as a numeral, and as which scalar. A text is cut at its first point,
   so a second one is left in the fraction and refused there. All digits together
   are one natural number, in which each is worth a power of ten; the division
   moves them down to their places. -/
namespace ExactLinear.Decimal

/-! Positional notation: which texts are numerals, and what the digits of a numeral are worth, each
by the place at which it stands. How the value is worked out is not said here. -/

/-- The ten digits. -/
def Digit (c : Char) : Prop := '0' ≤ c ∧ c ≤ '9'

instance : DecidablePred Digit := fun _ => inferInstanceAs (Decidable (_ ∧ _))

/-- That a text is a numeral with the digits `whole` in front of the point and `fraction`
behind it. -/
inductive Written : List Char → List Char → List Char → Prop
  | whole {ds : List Char} : ds ≠ [] → (∀ d ∈ ds, Digit d) → Written ds ds []
  | pointed {ds fs : List Char} :
      ds ≠ [] → (∀ d ∈ ds, Digit d) → (∀ f ∈ fs, Digit f) → Written (ds ++ '.' :: fs) ds fs

/-- What a digit is worth by itself. -/
def digit (c : Char) : Scalar := ((c.toNat - '0'.toNat : Nat) : Scalar)

/-- The sum of each digit times its power of ten. The last digit in front of the point stands for
ones, the first one behind it for tenths. -/
def placeValue (whole fraction : List Char) : Scalar :=
  ∑ i : Fin whole.length, digit (whole.get i) * 10 ^ (whole.length - 1 - i.val) +
    ∑ j : Fin fraction.length, digit (fraction.get j) / 10 ^ (j.val + 1)

variable {text whole fraction ds : List Char}

/-! Digits. -/

theorem all_isDigit_iff : ds.all Char.isDigit = true ↔ ∀ d ∈ ds, Digit d := by
  simp only [List.all_eq_true, Lexeme.isDigit_iff, Digit]

theorem point_not_mem (hds : ∀ d ∈ ds, Digit d) : '.' ∉ ds :=
  fun hmem => absurd (hds _ hmem) (by decide)

theorem digits_zeros (k : Nat) : ∀ d ∈ List.replicate k '0', Digit d := by
  intro d hd
  rw [List.eq_of_mem_replicate hd]
  decide

theorem digits_zeros_append (k : Nat) (ds : List Char) :
    (∀ d ∈ List.replicate k '0' ++ ds, Digit d) ↔ ∀ d ∈ ds, Digit d := by
  rw [List.forall_mem_append]
  exact and_iff_right (digits_zeros k)

theorem digits_append_zeros (k : Nat) (ds : List Char) :
    (∀ d ∈ ds ++ List.replicate k '0', Digit d) ↔ ∀ d ∈ ds, Digit d := by
  rw [List.forall_mem_append]
  exact and_iff_left (digits_zeros k)

/-! The first point. -/

theorem splitAtPoint_append {front : List Char} (h : '.' ∉ front) (text : List Char) :
    splitAtPoint (front ++ text) = (front ++ (splitAtPoint text).1, (splitAtPoint text).2) := by
  have hall : ∀ c ∈ front, decide (c ≠ '.') = true := by
    intro c hc
    exact decide_eq_true fun e => h (e ▸ hc)
  rw [splitAtPoint, List.takeWhile_append_of_pos hall, List.dropWhile_append_of_pos hall,
    splitAtPoint]

theorem splitAtPoint_of_not_mem (h : '.' ∉ text) : splitAtPoint text = (text, []) := by
  have happend := splitAtPoint_append h []
  rwa [List.append_nil, show splitAtPoint [] = ([], []) from rfl, List.append_nil] at happend

theorem splitAtPoint_point (h : '.' ∉ whole) (fraction : List Char) :
    splitAtPoint (whole ++ '.' :: fraction) = (whole, fraction) := by
  rw [splitAtPoint_append h, show splitAtPoint ('.' :: fraction) = ([], fraction) from rfl,
    List.append_nil]

/-- The two ways to cut a text up. -/
theorem splitAtPoint_cases (text : List Char) :
    '.' ∉ text ∧ splitAtPoint text = (text, []) ∨
    ∃ whole fraction, '.' ∉ whole ∧ text = whole ++ '.' :: fraction ∧
      splitAtPoint text = (whole, fraction) := by
  by_cases h : '.' ∈ text
  · obtain ⟨whole, fraction, rfl, hwhole⟩ := List.eq_append_cons_of_mem h
    exact .inr ⟨whole, fraction, hwhole, rfl, splitAtPoint_point hwhole fraction⟩
  · exact .inl ⟨h, splitAtPoint_of_not_mem h⟩

/-! Numerals. -/

theorem read?_eq_some_iff (h : splitAtPoint text = (whole, fraction)) {q : Scalar} :
    read? text = some q ↔ (whole ≠ [] ∧ (∀ d ∈ whole, Digit d) ∧ ∀ d ∈ fraction, Digit d) ∧
      q = value whole fraction := by
  simp only [read?, h, all_isDigit_iff, Option.ite_none_right_eq_some, Option.some.injEq]
  exact and_congr_right fun _ => eq_comm

theorem Written.splitAtPoint_eq (h : Written text whole fraction) :
    splitAtPoint text = (whole, fraction) := by
  cases h with
  | whole hne hds => exact splitAtPoint_of_not_mem (point_not_mem hds)
  | pointed hne hds hfs => exact splitAtPoint_point (point_not_mem hds) _

theorem Written.digits (h : Written text whole fraction) :
    whole ≠ [] ∧ (∀ d ∈ whole, Digit d) ∧ ∀ d ∈ fraction, Digit d := by
  cases h with
  | whole hne hds => exact ⟨hne, hds, List.forall_mem_nil _⟩
  | pointed hne hds hfs => exact ⟨hne, hds, hfs⟩

theorem written_of_splitAtPoint (h : splitAtPoint text = (whole, fraction))
    (hdigits : whole ≠ [] ∧ (∀ d ∈ whole, Digit d) ∧ ∀ d ∈ fraction, Digit d) :
    Written text whole fraction := by
  obtain ⟨hne, hds, hfs⟩ := hdigits
  obtain ⟨-, hsplit⟩ | ⟨front, behind, -, rfl, hsplit⟩ := splitAtPoint_cases text
  · rw [hsplit] at h
    cases h
    exact .whole hne hds
  · rw [hsplit] at h
    cases h
    exact .pointed hne hds hfs

theorem read?_eq_some_iff_written {q : Scalar} :
    read? text = some q ↔
      ∃ whole fraction, Written text whole fraction ∧ q = value whole fraction := by
  constructor
  · intro h
    rcases hsplit : splitAtPoint text with ⟨whole, fraction⟩
    obtain ⟨hdigits, hq⟩ := (read?_eq_some_iff hsplit).mp h
    exact ⟨whole, fraction, written_of_splitAtPoint hsplit hdigits, hq⟩
  · rintro ⟨whole, fraction, h, hq⟩
    exact (read?_eq_some_iff h.splitAtPoint_eq).mpr ⟨h.digits, hq⟩

/-! Values. -/

theorem ofDigitChars_cons_eq (d : Char) (ds : List Char) :
    (Nat.ofDigitChars 10 (d :: ds) 0 : Scalar) =
      digit d * 10 ^ ds.length + Nat.ofDigitChars 10 ds 0 := by
  rw [Nat.ofDigitChars_cons, Nat.ofDigitChars_eq_ofDigitChars_zero, Nat.mul_zero, Nat.zero_add,
    digit]
  push_cast
  ring

/-- The number that digits are together. -/
theorem ofDigitChars_eq_sum (ds : List Char) :
    (Nat.ofDigitChars 10 ds 0 : Scalar) =
      ∑ i : Fin ds.length, digit (ds.get i) * 10 ^ (ds.length - 1 - i.val) := by
  induction ds with
  | nil => rfl
  | cons d ds ih =>
    rw [ofDigitChars_cons_eq, ih]
    symm
    refine (Fin.sum_univ_succ (n := ds.length) _).trans ?_
    refine congrArg₂ (· + ·) rfl (Finset.sum_congr rfl fun i _ => ?_)
    have hplace : (d :: ds).length - 1 - i.succ.val = ds.length - 1 - i.val := by
      rw [List.length_cons, Fin.val_succ]
      omega
    rw [hplace]
    rfl

/-- Digits behind the point are worth as much less as the point is moved. -/
theorem ofDigitChars_div_eq_sum (ds : List Char) :
    (Nat.ofDigitChars 10 ds 0 : Scalar) / 10 ^ ds.length =
      ∑ j : Fin ds.length, digit (ds.get j) / 10 ^ (j.val + 1) := by
  rw [ofDigitChars_eq_sum, Finset.sum_div]
  refine Finset.sum_congr rfl fun j _ => ?_
  have hlength : ds.length = (ds.length - 1 - j.val) + (j.val + 1) := by omega
  have hten : (10 : Scalar) ^ (ds.length - 1 - j.val) ≠ 0 := pow_ne_zero _ (by decide)
  calc digit (ds.get j) * 10 ^ (ds.length - 1 - j.val) / 10 ^ ds.length
      = digit (ds.get j) * 10 ^ (ds.length - 1 - j.val) /
          (10 ^ (j.val + 1) * 10 ^ (ds.length - 1 - j.val)) := by
        rw [← pow_add, add_comm (j.val + 1), ← hlength]
    _ = digit (ds.get j) / 10 ^ (j.val + 1) := mul_div_mul_right _ _ hten

/-- The value of a numeral is what its digits are worth at their places. -/
theorem value_eq_placeValue (whole fraction : List Char) :
    value whole fraction = placeValue whole fraction := by
  have hten : (10 : Scalar) ^ fraction.length ≠ 0 := pow_ne_zero _ (by decide)
  have hdigits : (Nat.ofDigitChars 10 (whole ++ fraction) 0 : Scalar) =
      10 ^ fraction.length * Nat.ofDigitChars 10 whole 0 + Nat.ofDigitChars 10 fraction 0 := by
    rw [Nat.ofDigitChars_append, Nat.ofDigitChars_eq_ofDigitChars_zero]
    push_cast
    rfl
  calc value whole fraction
      = (Nat.ofDigitChars 10 (whole ++ fraction) 0 : Scalar) / 10 ^ fraction.length := by
        have hpower : (Nat.pow 10 fraction.length : Scalar) = 10 ^ fraction.length :=
          Nat.cast_pow 10 _
        rw [value, Rat.mkRat_eq_div, hpower]
        rfl
    _ = (Nat.ofDigitChars 10 whole 0 : Scalar) +
          Nat.ofDigitChars 10 fraction 0 / 10 ^ fraction.length := by
        rw [hdigits, add_div, mul_div_cancel_left₀ _ hten]
    _ = placeValue whole fraction := by
        rw [ofDigitChars_div_eq_sum, ofDigitChars_eq_sum, placeValue]

/-! Zeros at the ends. -/

theorem value_zeros_append (k : Nat) (whole fraction : List Char) :
    value (List.replicate k '0' ++ whole) fraction = value whole fraction := by
  rw [value, value, List.append_assoc, Nat.ofDigitChars_append, Nat.ofDigitChars_replicate_zero,
    Nat.mul_zero]

theorem value_append_zeros (k : Nat) (whole fraction : List Char) :
    value whole (fraction ++ List.replicate k '0') = value whole fraction := by
  have hten : 10 ^ k ≠ 0 := pow_ne_zero k (by decide)
  have hdigits : Nat.ofDigitChars 10 (whole ++ (fraction ++ List.replicate k '0')) 0 =
      Nat.ofDigitChars 10 (whole ++ fraction) 0 * 10 ^ k := by
    rw [← List.append_assoc, Nat.ofDigitChars_append, Nat.ofDigitChars_replicate_zero,
      Nat.mul_comm]
  have hpower : Nat.pow 10 (fraction ++ List.replicate k '0').length =
      Nat.pow 10 fraction.length * 10 ^ k := by
    rw [List.length_append, List.length_replicate]
    exact pow_add 10 _ _
  rw [value, hdigits, hpower, Nat.cast_mul, Rat.mkRat_mul_right hten, value]

/-- Zeros in front of a text matter only if nothing else stands in front of its point. -/
theorem read?_zeros_append (k : Nat) {c : Char} (hc : c ≠ '.') (text : List Char) :
    read? (List.replicate k '0' ++ c :: text) = read? (c :: text) := by
  rcases hsplit : splitAtPoint (c :: text) with ⟨whole, fraction⟩
  have hlonger : splitAtPoint (List.replicate k '0' ++ c :: text) =
      (List.replicate k '0' ++ whole, fraction) := by
    rw [splitAtPoint_append (point_not_mem (digits_zeros k)), hsplit]
  have hne : whole ≠ [] := by
    have hwhole : (splitAtPoint (c :: text)).1 = c :: text.takeWhile (· ≠ '.') := by
      simp [splitAtPoint, hc]
    rw [hsplit] at hwhole
    exact ne_of_eq_of_ne hwhole (List.cons_ne_nil _ _)
  refine Option.ext fun q => ?_
  rw [read?_eq_some_iff hsplit, read?_eq_some_iff hlonger, value_zeros_append,
    digits_zeros_append, iff_true_intro hne,
    iff_true_intro (List.append_ne_nil_of_right_ne_nil _ hne)]

/-- A text with two points is refused, whatever stands behind the second. -/
theorem read?_two_points (h : '.' ∉ whole) (behind more : List Char) :
    read? (whole ++ '.' :: behind ++ '.' :: more) = none := by
  have hsplit := splitAtPoint_point h (behind ++ '.' :: more)
  rw [← List.cons_append, ← List.append_assoc] at hsplit
  refine Option.eq_none_iff_forall_ne_some.mpr fun q hq => ?_
  obtain ⟨⟨-, -, hfraction⟩, -⟩ := (read?_eq_some_iff hsplit).mp hq
  exact point_not_mem hfraction (List.mem_append_right _ List.mem_cons_self)

/-- Zeros at the end do not matter behind a point. -/
theorem read?_append_zeros (k : Nat) (whole fraction : List Char) :
    read? (whole ++ '.' :: (fraction ++ List.replicate k '0')) =
      read? (whole ++ '.' :: fraction) := by
  obtain ⟨hpoint, -⟩ | ⟨front, behind, hpoint, rfl, -⟩ := splitAtPoint_cases whole
  · refine Option.ext fun q => ?_
    rw [read?_eq_some_iff (splitAtPoint_point hpoint _),
      read?_eq_some_iff (splitAtPoint_point hpoint _), value_append_zeros, digits_append_zeros]
  · rw [read?_two_points hpoint, read?_two_points hpoint]

/-- Nor does a point that nothing stands behind. -/
theorem read?_append_point (h : '.' ∉ whole) : read? (whole ++ ['.']) = read? whole := by
  refine Option.ext fun q => ?_
  rw [read?_eq_some_iff (splitAtPoint_point h []),
    read?_eq_some_iff (splitAtPoint_of_not_mem h)]

/-! Natural numbers. -/

theorem text_ofCount (n : Nat) : Scalar.text (Scalar.ofCount n) = Nat.repr n := by
  have hden : (Scalar.ofCount n).den = 1 := Rat.den_natCast n
  have hnum : (Scalar.ofCount n).num = n := Rat.num_natCast n
  rw [Scalar.text, if_pos hden, hnum, Scalar.integerText, if_neg (Int.not_lt.mpr n.cast_nonneg)]
  rfl

theorem read?_repr (n : Nat) : read? (Nat.repr n).toList = some (Scalar.ofCount n) := by
  rw [Nat.toList_repr]
  have hdigits : ∀ d ∈ Nat.toDigits 10 n, Digit d := fun d hd =>
    Lexeme.isDigit_iff.mp (Nat.isDigit_of_mem_toDigits (by decide) (by decide) hd)
  refine read?_eq_some_iff_written.mpr ⟨_, [], .whole Nat.toDigits_ne_nil hdigits, ?_⟩
  rw [value, List.append_nil, Nat.ofDigitChars_ten_toDigits]
  exact (Rat.mkRat_one _).symm

/-- A text is read if it is digits with at most one point among or behind them, as the sum of each
digit times its power of ten, and otherwise refused. Zeros in front of the digits and behind those
after the point change nothing, and a natural number is read back as it is printed. -/
theorem numeral_laws :
    (∀ text q, read? text = some q ↔
      ∃ whole fraction, Written text whole fraction ∧ q = placeValue whole fraction) ∧
    (∀ text q, read? text = some q → 0 ≤ q ∧ Nat.Coprime q.num.natAbs q.den) ∧
    (∀ k c text, c ≠ '.' → read? (List.replicate k '0' ++ c :: text) = read? (c :: text)) ∧
    (∀ k whole fraction, read? (whole ++ '.' :: (fraction ++ List.replicate k '0')) =
      read? (whole ++ '.' :: fraction)) ∧
    (∀ k whole, '.' ∉ whole → read? (whole ++ '.' :: List.replicate k '0') = read? whole) ∧
    ∀ n, read? (Scalar.text (Scalar.ofCount n)).toList = some (Scalar.ofCount n) := by
  have hread : ∀ text q, read? text = some q ↔
      ∃ whole fraction, Written text whole fraction ∧ q = placeValue whole fraction := by
    intro text q
    simp only [read?_eq_some_iff_written, value_eq_placeValue]
  refine ⟨hread, fun text q hq => ⟨?_, q.reduced⟩, fun k c text hc => read?_zeros_append k hc text,
    read?_append_zeros, fun k whole hwhole => ?_, fun n => ?_⟩
  · obtain ⟨whole, fraction, -, rfl⟩ := read?_eq_some_iff_written.mp hq
    exact Rat.mkRat_nonneg (Int.natCast_nonneg _) _
  · exact (read?_append_zeros k whole []).trans (read?_append_point hwhole)
  · rw [text_ofCount, read?_repr]

/-- A point needs digits in front of it, and a second one is refused. -/
example : read? "007.50".toList = some (15 / 2) ∧ read? "7.".toList = some 7 ∧
    read? ".5".toList = none ∧ read? "1.2.3".toList = none := by
  decide +kernel

end ExactLinear.Decimal
