import ExactLinear.Proofs.Grammar
import ExactLinear.Syntax.Line
import ExactLinear.Syntax.Reading.Statement

/- Facts about the routines' common parts: what skipping separators leaves, and
   which operator stands at the front of a list of tokens. -/
namespace ExactLinear.Reading

open Grammar

/-- Any list of symbols is that of some tokens. -/
theorem exists_tokens (w : List Symbol) : ∃ ts : List Token, ts.map Token.symbol = w :=
  ⟨w.map (Token.mk · 0), by simp [Function.comp_def]⟩

/-! Separators. -/

/-- What is skipped is line breaks. -/
theorem exists_breaks_append {ts rest : List Token} (h : skipNewLines ts = rest) :
    ∃ b, ts = b ++ rest ∧ Breaks (b.map Token.symbol) := by
  subst h
  fun_induction skipNewLines ts with
  | case1 => exact ⟨[], rfl, List.forall_mem_nil _⟩
  | case2 t rest ht ih =>
    obtain ⟨b, hb, hbreaks⟩ := ih
    exact ⟨t :: b, congrArg (t :: ·) hb, List.forall_mem_cons.mpr ⟨ht, hbreaks⟩⟩
  | case3 => exact ⟨[], rfl, List.forall_mem_nil _⟩

theorem exists_separators_append {ts rest : List Token} (h : skipSeparators ts = rest) :
    ∃ b, ts = b ++ rest ∧ Separators (b.map Token.symbol) := by
  subst h
  fun_induction skipSeparators ts with
  | case1 => exact ⟨[], rfl, List.forall_mem_nil _⟩
  | case2 t rest ht ih =>
    obtain ⟨b, hb, hseparators⟩ := ih
    exact ⟨t :: b, congrArg (t :: ·) hb, List.forall_mem_cons.mpr ⟨ht, hseparators⟩⟩
  | case3 => exact ⟨[], rfl, List.forall_mem_nil _⟩

theorem skipNewLines_append {b : List Token} (hb : Breaks (b.map Token.symbol))
    (ts : List Token) : skipNewLines (b ++ ts) = skipNewLines ts := by
  induction b with
  | nil => rfl
  | cons t b ih =>
    obtain ⟨ht, hb⟩ := List.forall_mem_cons.mp hb
    rw [List.cons_append, skipNewLines, if_pos ht, ih hb]

theorem skipNewLines_cons {t : Token} (ht : t.symbol ≠ .newLine) (rest : List Token) :
    skipNewLines (t :: rest) = t :: rest := by
  rw [skipNewLines, if_neg ht]

theorem skipSeparators_append {b : List Token} (hb : Separators (b.map Token.symbol))
    (ts : List Token) : skipSeparators (b ++ ts) = skipSeparators ts := by
  induction b with
  | nil => rfl
  | cons t b ih =>
    obtain ⟨ht, hb⟩ := List.forall_mem_cons.mp hb
    rw [List.cons_append, skipSeparators, if_pos ht, ih hb]

theorem skipSeparators_cons {t : Token} (ht : t.symbol.isSeparator = false) (rest : List Token) :
    skipSeparators (t :: rest) = t :: rest := by
  rw [skipSeparators, if_neg (by simp [ht])]

/-- A list is closed at once, or its items begin where the line breaks end. -/
theorem listUpTo_cases {α : Type} {n : Nat} (close : Symbol) (missing : ParseCause) (line : Nat)
    (item : Reader α n) (ts : List Token) (h : ts.length < n) :
    (∃ t rest shorter, skipNewLines ts = t :: rest ∧ t.symbol = close ∧
      listUpTo close missing line item ts h = .ok [] rest shorter) ∨
    ∃ h' hle, (∀ t rest, skipNewLines ts = t :: rest → t.symbol ≠ close) ∧
      listUpTo close missing line item ts h =
        (items close missing line item (skipNewLines ts) h').widen hle := by
  have hle := skipNewLines_length_le ts
  have h' := Nat.lt_of_le_of_lt hle h
  generalize hskip : skipNewLines ts = us at hle h'
  unfold listUpTo
  split
  · next hnil =>
    obtain rfl : us = [] := hskip.symm.trans hnil
    refine .inr ⟨h', Nat.zero_le _, ?_, rfl⟩
    intro t' rest' e
    cases e
  · next t rest hcons =>
    obtain rfl : us = t :: rest := hskip.symm.trans hcons
    split
    · next hclose =>
      have shorter := Nat.lt_succ_of_lt (length_lt_of_skipNewLines hcons)
      exact .inl ⟨t, rest, shorter, rfl, hclose, rfl⟩
    · next hclose =>
      refine .inr ⟨h', Nat.le_succ_of_le hle, ?_, rfl⟩
      intro t' rest' e
      cases e
      exact hclose

/-! Operators. -/

theorem operatorAt?_eq_some {accepts : BinaryOp → Bool} {ts rest : List Token} {op : BinaryOp}
    {line : Nat} (h : operatorAt? accepts ts = some (op, line, rest)) :
    ∃ t, ts = t :: rest ∧ t.line = line ∧ t.symbol.operator?.filter accepts = some op := by
  cases ts with
  | nil => cases h
  | cons t ts =>
    obtain ⟨op', hop, e⟩ := Option.map_eq_some_iff.mp h
    cases e
    exact ⟨t, rfl, rfl, hop⟩

/-- That a routine's test for operators and the operators of a form are the same. -/
def Accepts (accepts : BinaryOp → Bool) (operator : Symbol → BinaryOp → Prop) : Prop :=
  ∀ s op, s.operator?.filter accepts = some op ↔ operator s op

theorem accepts_isAdditive : Accepts isAdditive Additive := by
  intro s op
  refine ⟨?_, ?_⟩
  · intro h
    cases s <;> simp [Symbol.operator?, Option.filter, isAdditive] at h
    · exact h ▸ .plus
    · exact h ▸ .minus
  · rintro (_ | _) <;> rfl

theorem accepts_isMultiplicative : Accepts isMultiplicative Multiplicative := by
  intro s op
  refine ⟨?_, ?_⟩
  · intro h
    cases s <;> simp [Symbol.operator?, Option.filter, isMultiplicative] at h
    · exact h ▸ .star
    · exact h ▸ .slash
  · rintro (_ | _) <;> rfl

/-! Statements. -/

theorem braceAt?_eq_some {ts rest : List Token} {line : Nat}
    (h : braceAt? ts = some (line, rest)) :
    ∃ t, ts = t :: rest ∧ t.line = line ∧ t.symbol = .openBrace := by
  cases ts with
  | nil => cases h
  | cons t ts =>
    simp only [braceAt?] at h
    split at h
    · next hbrace =>
      cases h
      exact ⟨t, rfl, rfl, hbrace⟩
    · cases h

theorem afterStatement_false_eq_none {ts : List Token} :
    afterStatement false ts = none ↔ Ended (ts.map Token.symbol) := by
  cases ts with
  | nil => simp [afterStatement, Ended]
  | cons t ts => by_cases h : t.symbol.isSeparator <;> simp [afterStatement, Ended, h]

theorem afterStatement_true_eq_none {ts : List Token} :
    afterStatement true ts = none ↔
      ∃ t rest, ts = t :: rest ∧ (t.symbol.isSeparator = true ∨ t.symbol = .closeBrace) := by
  cases ts with
  | nil => simp [afterStatement]
  | cons t ts =>
    by_cases h : t.symbol.isSeparator
    · simp [afterStatement, h]
    · by_cases hbrace : t.symbol = .closeBrace <;> simp [afterStatement, h, hbrace]

/-- Only in a block, and only at the very end, more symbols may end a statement. -/
theorem eq_nil_of_afterStatement {inBlock : Bool} {ts : List Token} {e : ParseError}
    (h : afterStatement inBlock ts = some e) (he : e.cause = .endOfInput) :
    inBlock = true ∧ ts = [] := by
  cases ts with
  | nil =>
    cases inBlock with
    | true => exact ⟨rfl, rfl⟩
    | false => cases h
  | cons t ts =>
    simp only [afterStatement] at h
    split at h
    · cases h
    · split at h
      · cases h
      · cases h
        cases he

theorem body_closeBrace {n : Nat} (inner : Reader Statement n) (line : Nat) {t : Token}
    {rest : List Token} (h : (t :: rest).length < n) (ht : t.symbol = .closeBrace) :
    body inner line (t :: rest) h = .ok [] rest (Nat.lt_add_right 1 (Nat.lt_succ_self _)) := by
  have hskip := skipSeparators_cons (t := t) (by simp [ht, Symbol.isSeparator]) rest
  unfold body
  split
  · next hnil => simp [hskip] at hnil
  · next u us hcons =>
    rw [hskip] at hcons
    cases hcons
    rw [if_pos ht]

theorem statements_nil (lastLine : Nat) : statements lastLine [] = .ok [] := by
  rw [statements]
  rfl

end ExactLinear.Reading
