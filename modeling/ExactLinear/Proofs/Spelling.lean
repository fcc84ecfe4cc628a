import ExactLinear.Syntax.Spelling

/- Where texts can be cut. A lexeme stays the same when text is added that it does
   not go on with; no lexeme goes on over a line break, so what two texts spell with
   a line break between them is what each of them spells. -/
namespace ExactLinear

namespace Lexeme

/-! Characters. -/

section
variable {c : Char}

theorem toNat_of_isDigit (h : c.isDigit = true) : 48 ≤ c.toNat ∧ c.toNat ≤ 57 :=
  Char.isDigit_iff_toNat.mp h

theorem toNat_of_isNameStart (h : isNameStart c = true) : 65 ≤ c.toNat ∧ c.toNat ≤ 122 := by
  rcases Bool.or_eq_true_iff.mp h with halpha | hunderscore
  · rcases Bool.or_eq_true_iff.mp halpha with hupper | hlower
    · obtain ⟨hA, hZ⟩ : _ ∧ _ := of_decide_eq_true hupper
      have hlow : 65 ≤ c.toNat := UInt32.le_iff_toNat_le.mp hA
      have hhigh : c.toNat ≤ 90 := UInt32.le_iff_toNat_le.mp hZ
      omega
    · obtain ⟨ha, hz⟩ := Bool.and_eq_true_iff.mp hlower
      have hlow : 97 ≤ c.toNat := UInt32.le_iff_toNat_le.mp (of_decide_eq_true ha)
      have hhigh : c.toNat ≤ 122 := UInt32.le_iff_toNat_le.mp (of_decide_eq_true hz)
      omega
  · obtain rfl := beq_iff_eq.mp hunderscore
    decide

/-- A character above the space neither breaks a line nor is blank. -/
theorem not_isBlank_of_lt (h : 32 < c.toNat) : c ≠ '\n' ∧ ¬isBlank c = true := by
  refine ⟨?_, ?_⟩
  · rintro rfl
    revert h
    decide
  · intro hblank
    simp only [isBlank, Bool.or_eq_true, beq_iff_eq] at hblank
    rcases hblank with ((rfl | rfl) | rfl) | rfl <;> revert h <;> decide

end

/-! Longer texts. -/

section
variable {p : Char → Bool} {tail : List Char}

theorem takeWhile_append_of_head (htail : ∀ c ∈ tail.head?, p c = false) (cs : List Char) :
    (cs ++ tail).takeWhile p = cs.takeWhile p := by
  induction cs with
  | nil => cases tail <;> simp_all
  | cons a cs ih => cases h : p a <;> simp [h, ih]

theorem dropWhile_append_of_head (htail : ∀ c ∈ tail.head?, p c = false) (cs : List Char) :
    (cs ++ tail).dropWhile p = cs.dropWhile p ++ tail := by
  induction cs with
  | nil => cases tail <;> simp_all
  | cons a cs ih => cases h : p a <;> simp [h, ih]

end

/-- Whether a lexeme could be longer if the character came right after it. -/
def takes : Lexeme → Char → Bool
  | .number _ _, c => c.isDigit || c == '.'
  | .identifier _, c => isNamePart c
  | .sign s, c => s == .slash && c == '/'
  | .lineBreak, _ => false
  | .comment, c => inComment c
  | .blank, c => isBlank c

section
variable {l : Lexeme} {tail : List Char}

theorem takes_lineFeed (l : Lexeme) : l.takes '\n' = false := by
  cases l with
  | sign s => exact Bool.and_false _
  | _ => rfl

theorem takes_return (hl : l ≠ .blank) : l.takes '\r' = false := by
  cases l with
  | sign s => exact Bool.and_false _
  | blank => exact absurd rfl hl
  | _ => rfl

/-- What a number is cut off from goes on with a digit or a point at most. -/
theorem numberAfter_append (hdigit : ∀ c ∈ tail.head?, c.isDigit = false)
    (hpoint : ∀ c ∈ tail.head?, c ≠ '.') (whole cs : List Char) :
    numberAfter whole (cs ++ tail) =
      ((numberAfter whole cs).1, (numberAfter whole cs).2 ++ tail) := by
  match cs with
  | [] =>
    cases tail with
    | nil => rfl
    | cons a tail =>
      have ha := hpoint a rfl
      simp [numberAfter, ha]
  | [a] =>
    cases tail with
    | nil => simp
    | cons b tail =>
      by_cases ha : a = '.'
      · simp [numberAfter, ha, hdigit b rfl]
      · simp [numberAfter, ha]
  | a :: b :: cs =>
    by_cases ha : a = '.'
    · subst ha
      cases hb : b.isDigit <;>
        simp [numberAfter, hb, takeWhile_append_of_head hdigit, dropWhile_append_of_head hdigit]
    · simp [numberAfter, ha]

theorem exists_numberAfter (whole cs : List Char) :
    ∃ fraction, (numberAfter whole cs).1 = .number whole fraction := by
  unfold numberAfter
  split
  · split
    · exact ⟨_, rfl⟩
    · exact ⟨_, rfl⟩
  · exact ⟨_, rfl⟩

theorem startingWith?_append {c : Char} {cs rest : List Char}
    (h : startingWith? c cs = some (l, rest)) (htail : ∀ a ∈ tail.head?, l.takes a = false) :
    startingWith? c (cs ++ tail) = some (l, rest ++ tail) := by
  unfold startingWith? at h ⊢
  by_cases hbreak : c = '\n'
  · rw [if_pos hbreak] at h ⊢
    cases h
    rfl
  rw [if_neg hbreak] at h ⊢
  by_cases hblank : isBlank c = true
  · rw [if_pos hblank] at h ⊢
    cases h
    have hstop : ∀ a ∈ tail.head?, isBlank a = false := htail
    rw [dropWhile_append_of_head hstop]
  rw [if_neg hblank] at h ⊢
  by_cases hdigit : c.isDigit = true
  · rw [if_pos hdigit] at h ⊢
    obtain ⟨fraction, hl⟩ := exists_numberAfter (c :: cs.takeWhile Char.isDigit)
      (cs.dropWhile Char.isDigit)
    simp only [Option.some.injEq] at h
    rw [h] at hl
    obtain rfl := hl
    have hstop : ∀ a ∈ tail.head?, a.isDigit = false := by
      intro a ha
      have := htail a ha
      simp_all [takes]
    have hpoint : ∀ a ∈ tail.head?, a ≠ '.' := by
      intro a ha
      have := htail a ha
      simp_all [takes]
    rw [takeWhile_append_of_head hstop, dropWhile_append_of_head hstop,
      numberAfter_append hstop hpoint, h]
  rw [if_neg hdigit] at h ⊢
  by_cases hname : isNameStart c = true
  · rw [if_pos hname] at h ⊢
    cases h
    have hstop : ∀ a ∈ tail.head?, isNamePart a = false := htail
    rw [dropWhile_append_of_head hstop, takeWhile_append_of_head hstop]
  rw [if_neg hname] at h ⊢
  by_cases hcomment : c = '/' ∧ cs.head? = some '/'
  · rw [if_pos hcomment] at h
    cases h
    have hstop : ∀ a ∈ tail.head?, inComment a = false := htail
    have hcomment' : c = '/' ∧ (cs ++ tail).head? = some '/' := by simp [hcomment]
    rw [if_pos hcomment', dropWhile_append_of_head hstop]
  rw [if_neg hcomment] at h
  obtain ⟨s, hs, e⟩ := Option.map_eq_some_iff.mp h
  cases e
  -- A slash does not become a comment, since the text added does not begin with another.
  have hcomment' : ¬(c = '/' ∧ (cs ++ tail).head? = some '/') := by
    rintro ⟨rfl, hhead⟩
    cases hs
    cases cs with
    | nil => exact absurd (htail '/' hhead) (by simp [takes])
    | cons a cs => exact hcomment ⟨rfl, hhead⟩
  rw [if_neg hcomment', hs]
  rfl

/-- A lexeme is the same when text is added that it does not go on with. -/
theorem first?_append {cs rest : List Char} (h : first? cs = some (l, rest))
    (htail : ∀ a ∈ tail.head?, l.takes a = false) :
    first? (cs ++ tail) = some (l, rest ++ tail) := by
  cases cs with
  | nil => cases h
  | cons c cs => exact startingWith?_append h htail

/-- Whether a lexeme begins with a character does not depend on what follows it. -/
theorem startingWith?_eq_none {c : Char} {cs : List Char} (h : startingWith? c cs = none)
    (cs' : List Char) : startingWith? c cs' = none := by
  unfold startingWith? at h ⊢
  by_cases hslash : c = '/'
  · subst hslash
    by_cases hhead : cs.head? = some '/' <;> simp [hhead, isBlank, isNameStart, sign?] at h
  grind [Option.map_eq_none_iff]

theorem startingWith?_of_isBlank {c : Char} (hc : isBlank c = true) (cs : List Char) :
    startingWith? c cs = some (.blank, cs.dropWhile isBlank) := by
  have hbreak : c ≠ '\n' := by
    rintro rfl
    cases hc
  rw [startingWith?, if_neg hbreak, if_pos hc]

theorem startingWith?_of_isDigit {c : Char} (hc : c.isDigit = true) (cs : List Char) :
    startingWith? c cs =
      some (numberAfter (c :: cs.takeWhile Char.isDigit) (cs.dropWhile Char.isDigit)) := by
  obtain ⟨hlow, -⟩ := toNat_of_isDigit hc
  obtain ⟨hbreak, hblank⟩ := not_isBlank_of_lt (Nat.lt_of_lt_of_le (by decide) hlow)
  rw [startingWith?, if_neg hbreak, if_neg hblank, if_pos hc]

theorem startingWith?_of_isNameStart {c : Char} (hc : isNameStart c = true) (cs : List Char) :
    startingWith? c cs =
      some (.identifier (c :: cs.takeWhile isNamePart), cs.dropWhile isNamePart) := by
  obtain ⟨hlow, -⟩ := toNat_of_isNameStart hc
  obtain ⟨hbreak, hblank⟩ := not_isBlank_of_lt (Nat.lt_of_lt_of_le (by decide) hlow)
  have hdigit : ¬c.isDigit = true := fun h => by
    have := toNat_of_isDigit h
    omega
  rw [startingWith?, if_neg hbreak, if_neg hblank, if_neg hdigit, if_pos hc]

theorem isBlank_of_startingWith? {c : Char} {cs rest : List Char}
    (h : startingWith? c cs = some (.blank, rest)) : isBlank c = true := by
  obtain ⟨fraction, hnumber⟩ := exists_numberAfter (c :: cs.takeWhile Char.isDigit)
    (cs.dropWhile Char.isDigit)
  unfold startingWith? at h
  grind [Option.map_eq_some_iff]

theorem sign?_ne_identifier (c : Char) (name : String) : sign? c ≠ some (.identifier name) := by
  unfold sign?
  split <;> simp

/-- The only lexemes for identifiers are the longest names. -/
theorem eq_of_startingWith?_identifier {c : Char} {cs rest : List Char} {name : String}
    (h : startingWith? c cs = some (l, rest)) (hl : l.symbol? = some (.identifier name)) :
    isNameStart c = true ∧ name = String.ofList (c :: cs.takeWhile isNamePart) := by
  obtain ⟨fraction, hnumber⟩ := exists_numberAfter (c :: cs.takeWhile Char.isDigit)
    (cs.dropWhile Char.isDigit)
  have hsign := sign?_ne_identifier c name
  unfold startingWith? at h
  grind [Option.map_eq_some_iff, symbol?]

/-- The first lexeme of a text, from that of a longer one. -/
theorem exists_first?_of_append {cs rest : List Char} (hcs : cs ≠ [])
    (h : first? (cs ++ tail) = some (l, rest)) :
    ∃ l' rest', first? cs = some (l', rest') := by
  cases hfirst : first? cs with
  | some cut => exact ⟨cut.1, cut.2, rfl⟩
  | none =>
    cases cs with
    | nil => exact absurd rfl hcs
    | cons c cs =>
      rw [List.cons_append, first?, startingWith?_eq_none hfirst] at h
      cases h

end

end Lexeme

namespace Spells
variable {cs cs' : List Char} {w w' : List Symbol}

theorem append_lineBreak (h : Spells cs w) (h' : Spells cs' w') :
    Spells (cs ++ '\n' :: cs') (w ++ .newLine :: w') := by
  induction h with
  | nil => exact .cons (l := .lineBreak) rfl h'
  | @cons cs rest l w hfirst _ ih =>
    rw [List.append_assoc]
    refine .cons (Lexeme.first?_append hfirst ?_) ih
    rintro a ⟨⟩
    exact l.takes_lineFeed

theorem of_append_lineBreak (h : Spells (cs ++ '\n' :: cs') w) :
    ∃ v v', Spells cs v ∧ Spells cs' v' ∧ w = v ++ .newLine :: v' := by
  generalize hall : cs ++ '\n' :: cs' = all at h
  induction h generalizing cs with
  | nil => simp at hall
  | @cons all rest l w hfirst hrest ih =>
    subst hall
    by_cases hcs : cs = []
    · subst hcs
      cases hfirst
      exact ⟨[], w, .nil, hrest, rfl⟩
    · obtain ⟨l', rest', hcut⟩ := Lexeme.exists_first?_of_append hcs hfirst
      rw [Lexeme.first?_append hcut (by rintro a ⟨⟩; exact l'.takes_lineFeed)] at hfirst
      cases hfirst
      obtain ⟨v, v', hv, hv', rfl⟩ := ih rfl
      exact ⟨_, v', .cons hcut hv, hv', by simp⟩

/-- A carriage return at the end spells nothing. -/
theorem of_append_return (h : Spells (cs ++ ['\r']) w) : Spells cs w := by
  generalize hall : cs ++ ['\r'] = all at h
  induction h generalizing cs with
  | nil => simp at hall
  | @cons all rest l w hfirst hrest ih =>
    subst hall
    by_cases hcs : cs = []
    · subst hcs
      cases hfirst
      cases hrest with
      | nil => exact .nil
      | cons hfirst' => cases hfirst'
    · obtain ⟨l', rest', hcut⟩ := Lexeme.exists_first?_of_append hcs hfirst
      by_cases hl : l' = .blank
      · -- Blanks go on over the carriage return if they reach it.
        subst hl
        obtain ⟨a, as, rfl⟩ := List.exists_cons_of_ne_nil hcs
        have ha := Lexeme.isBlank_of_startingWith? hcut
        rw [List.cons_append, Lexeme.first?, Lexeme.startingWith?_of_isBlank ha] at hfirst
        rw [Lexeme.first?, Lexeme.startingWith?_of_isBlank ha] at hcut
        cases hfirst
        cases hcut
        have hfirst := Lexeme.startingWith?_of_isBlank ha as
        rw [List.dropWhile_append] at hrest ih
        cases hrest' : as.dropWhile Lexeme.isBlank with
        | nil =>
          rw [hrest'] at hrest hfirst
          exact .cons hfirst hrest
        | cons b bs =>
          rw [hrest'] at ih hfirst
          exact .cons hfirst (ih rfl)
      · rw [Lexeme.first?_append hcut (by rintro a ⟨⟩; exact Lexeme.takes_return hl)] at hfirst
        cases hfirst
        exact .cons hcut (ih rfl)

end Spells

end ExactLinear
