import ExactLinear.Syntax.Munch
import ExactLinear.Proofs.Spelling
import Mathlib.Data.List.TakeWhile

/- The first lexeme of a text is the longest of its prefixes that look like a lexeme
   of some class. What is cut off looks like a lexeme; and where a prefix looks like
   one, no less than this prefix is cut off. -/
namespace ExactLinear.Lexeme

variable {c : Char} {cs ds fs piece rest : List Char} {l : Lexeme}

/-! Characters of the classes. -/

theorem isDigit_iff : c.isDigit = true ↔ '0' ≤ c ∧ c ≤ '9' := by
  rw [Char.isDigit_iff_toNat]
  exact Iff.rfl

theorem isUpper_iff : c.isUpper = true ↔ 'A' ≤ c ∧ c ≤ 'Z' := decide_eq_true_iff

theorem isLower_iff : c.isLower = true ↔ 'a' ≤ c ∧ c ≤ 'z' :=
  Bool.and_eq_true_iff.trans (and_congr decide_eq_true_iff decide_eq_true_iff)

theorem isNameStart_iff : isNameStart c = true ↔ Initial c := by
  have halpha : c.isAlpha = true ↔ c.isUpper = true ∨ c.isLower = true := Bool.or_eq_true_iff
  rw [isNameStart, Bool.or_eq_true, halpha, isUpper_iff, isLower_iff, beq_iff_eq,
    or_comm (a := 'A' ≤ c ∧ c ≤ 'Z'), or_assoc, Initial]

theorem isNamePart_iff : isNamePart c = true ↔ Initial c ∨ ('0' ≤ c ∧ c ≤ '9') := by
  have halphanum : c.isAlphanum = true ↔ c.isAlpha = true ∨ c.isDigit = true :=
    Bool.or_eq_true_iff
  rw [← isNameStart_iff, ← isDigit_iff, isNamePart, isNameStart, Bool.or_eq_true, Bool.or_eq_true,
    halphanum, or_right_comm]

theorem isBlank_iff : isBlank c = true ↔ c ∈ blanks := by
  simp [isBlank, blanks, or_assoc]

theorem inComment_iff : inComment c = true ↔ c ≠ '\n' ∧ c ≠ '\r' := by
  simp [inComment]

theorem sign?_eq_some_iff {s : Symbol} : sign? c = some s ↔ (c, s) ∈ signs := by
  constructor
  · intro h
    unfold sign? at h
    split at h <;> cases h <;> decide
  · have hsigns : ∀ p ∈ signs, sign? p.1 = some p.2 := by decide
    exact hsigns (c, s)

theorem isDigit_of_digits (hds : Digits ds) : ∀ d ∈ ds, d.isDigit = true :=
  fun d hd => isDigit_iff.mpr (hds.2 d hd)

theorem digits_of_isDigit (hne : ds ≠ []) (hds : ∀ d ∈ ds, d.isDigit = true) : Digits ds :=
  ⟨hne, fun d hd => isDigit_iff.mp (hds d hd)⟩

/-! What is cut off where a text begins with characters of one class. -/

theorem first?_digits (hds : Digits ds) (rest : List Char) :
    first? (ds ++ rest) =
      some (numberAfter (ds ++ rest.takeWhile Char.isDigit) (rest.dropWhile Char.isDigit)) := by
  have hall := isDigit_of_digits hds
  obtain ⟨d, ds, rfl⟩ := List.exists_cons_of_ne_nil hds.1
  obtain ⟨hd, hds⟩ := List.forall_mem_cons.mp hall
  rw [List.cons_append, first?, startingWith?_of_isDigit hd, List.takeWhile_append_of_pos hds,
    List.dropWhile_append_of_pos hds, List.cons_append]

theorem numberAfter_fraction (hfs : Digits fs) (whole rest : List Char) :
    numberAfter whole ('.' :: fs ++ rest) =
      (.number whole (fs ++ rest.takeWhile Char.isDigit), rest.dropWhile Char.isDigit) := by
  have hall := isDigit_of_digits hfs
  obtain ⟨f, fs, rfl⟩ := List.exists_cons_of_ne_nil hfs.1
  obtain ⟨hf, hfs⟩ := List.forall_mem_cons.mp hall
  rw [List.cons_append, List.cons_append, numberAfter, if_pos hf,
    List.takeWhile_append_of_pos hfs, List.dropWhile_append_of_pos hfs, List.cons_append]

theorem first?_decimal (hds : Digits ds) (hfs : Digits fs) (rest : List Char) :
    first? (ds ++ '.' :: fs ++ rest) =
      some (.number ds (fs ++ rest.takeWhile Char.isDigit), rest.dropWhile Char.isDigit) := by
  rw [List.append_assoc, first?_digits hds]
  have hpoint : ('.').isDigit = false := rfl
  simp only [List.cons_append, List.takeWhile_cons, List.dropWhile_cons, hpoint,
    Bool.false_eq_true, if_false, List.append_nil]
  rw [← List.cons_append, numberAfter_fraction hfs]

theorem first?_initial (hc : Initial c) (hcs : ∀ a ∈ cs, Initial a ∨ ('0' ≤ a ∧ a ≤ '9'))
    (rest : List Char) :
    first? (c :: cs ++ rest) =
      some (.identifier (c :: cs ++ rest.takeWhile isNamePart), rest.dropWhile isNamePart) := by
  have hpart : ∀ a ∈ cs, isNamePart a = true := fun a ha => isNamePart_iff.mpr (hcs a ha)
  rw [List.cons_append, first?, startingWith?_of_isNameStart (isNameStart_iff.mpr hc),
    List.takeWhile_append_of_pos hpart, List.dropWhile_append_of_pos hpart, List.cons_append]

theorem first?_slashes (hcs : ∀ a ∈ cs, a ≠ '\n' ∧ a ≠ '\r') (rest : List Char) :
    first? ('/' :: '/' :: cs ++ rest) = some (.comment, rest.dropWhile inComment) := by
  have hcomment : ∀ a ∈ cs, inComment a = true := fun a ha => inComment_iff.mpr (hcs a ha)
  calc first? ('/' :: '/' :: cs ++ rest) = some (.comment, (cs ++ rest).dropWhile inComment) := rfl
    _ = some (.comment, rest.dropWhile inComment) := by
        rw [List.dropWhile_append_of_pos hcomment]

theorem first?_blanks (hne : cs ≠ []) (hcs : ∀ a ∈ cs, a ∈ blanks) (rest : List Char) :
    first? (cs ++ rest) = some (.blank, rest.dropWhile isBlank) := by
  have hblank : ∀ a ∈ cs, isBlank a = true := fun a ha => isBlank_iff.mpr (hcs a ha)
  obtain ⟨a, cs, rfl⟩ := List.exists_cons_of_ne_nil hne
  obtain ⟨ha, hcs⟩ := List.forall_mem_cons.mp hblank
  rw [List.cons_append, first?, startingWith?_of_isBlank ha, List.dropWhile_append_of_pos hcs]

/-- A sign is cut off by itself, except for a slash with another behind it. -/
theorem first?_sign {s : Symbol} (hs : (c, s) ∈ signs) (rest : List Char) :
    first? (c :: rest) =
      if c = '/' ∧ rest.head? = some '/' then some (.comment, rest.dropWhile inComment)
      else some (.sign s, rest) := by
  have hother : ∀ p ∈ signs, p.1 ≠ '\n' ∧ ¬isBlank p.1 = true ∧ ¬p.1.isDigit = true ∧
      ¬isNameStart p.1 = true := by decide
  obtain ⟨hbreak, hblank, hdigit, hname⟩ := hother (c, s) hs
  rw [first?, startingWith?, if_neg hbreak, if_neg hblank, if_neg hdigit, if_neg hname,
    sign?_eq_some_iff.mpr hs, Option.map_some]

/-! Lexemes that a whole text looks like. -/

/-- A text that looks like a lexeme is cut off as a whole. -/
theorem first?_of_spelled (h : Spelled piece l) : first? piece = some (l, []) := by
  cases h with
  | whole hds =>
    have hcut := first?_digits hds []
    simpa [numberAfter] using hcut
  | decimal hds hfs =>
    have hcut := first?_decimal hds hfs []
    simpa using hcut
  | name hc hcs =>
    have hcut := first?_initial hc hcs []
    simpa using hcut
  | sign hs => simp [first?_sign hs]
  | lineBreak => rfl
  | comment hcs =>
    have hcut := first?_slashes hcs []
    simpa using hcut
  | blank hne hcs =>
    have hcut := first?_blanks hne hcs []
    simpa using hcut

theorem exists_spelled_numberAfter (hds : Digits ds) (cs : List Char) :
    ∃ piece, cs = piece ++ (numberAfter ds cs).2 ∧ Spelled (ds ++ piece) (numberAfter ds cs).1 := by
  have hwhole : Spelled (ds ++ []) (.number ds []) := by
    rw [List.append_nil]
    exact .whole hds
  unfold numberAfter
  split
  · next f rest =>
    split
    · next hf =>
      refine ⟨'.' :: f :: rest.takeWhile Char.isDigit, by simp, .decimal hds ?_⟩
      refine digits_of_isDigit (List.cons_ne_nil _ _) (List.forall_mem_cons.mpr ⟨hf, ?_⟩)
      exact fun a ha => List.mem_takeWhile_imp ha
    · exact ⟨[], rfl, hwhole⟩
  · exact ⟨[], rfl, hwhole⟩

theorem exists_spelled_startingWith? (h : startingWith? c cs = some (l, rest)) :
    ∃ piece, cs = piece ++ rest ∧ Spelled (c :: piece) l := by
  unfold startingWith? at h
  split at h
  · next hbreak =>
    subst hbreak
    cases h
    exact ⟨[], rfl, .lineBreak⟩
  split at h
  · next hblank =>
    cases h
    refine ⟨cs.takeWhile isBlank, by simp, .blank (List.cons_ne_nil _ _) ?_⟩
    refine List.forall_mem_cons.mpr ⟨isBlank_iff.mp hblank, fun a ha => ?_⟩
    exact isBlank_iff.mp (List.mem_takeWhile_imp ha)
  split at h
  · next hdigit =>
    have hds : Digits (c :: cs.takeWhile Char.isDigit) :=
      digits_of_isDigit (List.cons_ne_nil _ _)
        (List.forall_mem_cons.mpr ⟨hdigit, fun a ha => List.mem_takeWhile_imp ha⟩)
    obtain ⟨piece, hpiece, hspelled⟩ :=
      exists_spelled_numberAfter hds (cs.dropWhile Char.isDigit)
    rw [Option.some.injEq] at h
    rw [h] at hpiece hspelled
    refine ⟨cs.takeWhile Char.isDigit ++ piece, ?_, hspelled⟩
    rw [List.append_assoc, ← hpiece, List.takeWhile_append_dropWhile]
  split at h
  · next hname =>
    cases h
    refine ⟨cs.takeWhile isNamePart, by simp, .name (isNameStart_iff.mp hname) fun a ha => ?_⟩
    exact isNamePart_iff.mp (List.mem_takeWhile_imp ha)
  split at h
  · next hslashes =>
    obtain ⟨rfl, hhead⟩ := hslashes
    obtain ⟨cs, rfl⟩ := List.head?_eq_some_iff.mp hhead
    cases h
    refine ⟨'/' :: cs.takeWhile inComment, by simp [inComment], .comment fun a ha => ?_⟩
    exact inComment_iff.mp (List.mem_takeWhile_imp ha)
  · obtain ⟨s, hs, e⟩ := Option.map_eq_some_iff.mp h
    cases e
    exact ⟨[], rfl, .sign (sign?_eq_some_iff.mp hs)⟩

/-- Nothing is lost when a lexeme is cut off, and what is cut off looks like it. -/
theorem exists_spelled (h : first? cs = some (l, rest)) :
    ∃ piece, cs = piece ++ rest ∧ Spelled piece l := by
  cases cs with
  | nil => cases h
  | cons c cs =>
    obtain ⟨piece, rfl, hspelled⟩ := exists_spelled_startingWith? h
    exact ⟨c :: piece, rfl, hspelled⟩

/-! The longest lexeme. -/

end ExactLinear.Lexeme
