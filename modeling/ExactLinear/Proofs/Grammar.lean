import ExactLinear.Syntax.Grammar

/- Facts about derivations: further ways to build them, and which symbols they
   begin and end with. -/
namespace ExactLinear.Grammar

variable {α : Type}

theorem breaks_nil : Breaks [] := List.forall_mem_nil _

theorem Filled.of_listed {item : Form α} {close : Symbol} {w : List Symbol} {x : α} {xs : List α}
    (h : Listed item close w (x :: xs)) : Filled item close w (x :: xs) := by
  cases h with
  | filled h => exact h

namespace Unary
variable {expr : Form Expr} {w : List Symbol} {e : Expr}

theorem of_primary (h : Primary expr w e) : Unary expr w e := .primary breaks_nil h

theorem newLine (h : Unary expr w e) : Unary expr (.newLine :: w) e := by
  cases h with
  | neg hb hw => exact .neg (List.forall_mem_cons.mpr ⟨rfl, hb⟩) hw
  | primary hb hw => exact .primary (List.forall_mem_cons.mpr ⟨rfl, hb⟩) hw

end Unary

theorem exists_expression : ∃ w e, Expression w e :=
  ⟨[.number 0], _, .intro (.single (.single (.of_primary .number)))⟩

theorem separators_nil : Separators [] := List.forall_mem_nil _

theorem ended_nil : Ended [] := by simp [Ended]

theorem ended_cons {s : Symbol} {w : List Symbol} : Ended (s :: w) ↔ s.isSeparator = true := by
  simp [Ended]

theorem Breaks.separators {w : List Symbol} (h : Breaks w) : Separators w := by
  intro s hs
  rw [h s hs]
  rfl

theorem Ended.of_append {w w' : List Symbol} (h : Ended (w ++ w')) : Ended w := by
  cases w with
  | nil => exact ended_nil
  | cons s w => exact ended_cons.mpr (ended_cons.mp h)

theorem Statements.single {statement : Form ExactLinear.Statement} {b w : List Symbol}
    {s : ExactLinear.Statement} (hb : Separators b) (h : statement w s) :
    Statements statement (b ++ w) [s] := by
  have hnil : Statements statement [] [] := .nil separators_nil
  simpa using Statements.cons hb h ended_nil hnil

/-- Each of the statements is derived from a part of the symbols. -/
theorem Statements.exists_of_mem {statement : Form ExactLinear.Statement} {w : List Symbol}
    {s : ExactLinear.Statement} {ss : List ExactLinear.Statement} (h : Statements statement w ss)
    (hs : s ∈ ss) : ∃ v, v <:+: w ∧ statement v s := by
  induction h with
  | nil => cases hs
  | @cons b v w' t ss _ ht _ _ ih =>
    rcases List.mem_cons.mp hs with rfl | hs
    · exact ⟨v, List.infix_append b v w', ht⟩
    · obtain ⟨v', hinfix, hv'⟩ := ih hs
      exact ⟨v', hinfix.trans (List.suffix_append (b ++ v) w').isInfix, hv'⟩

/-- The statements of a block, with the brace that closes it. -/
def Body (statement : Form ExactLinear.Statement) : Form (List ExactLinear.Statement) :=
  fun w ss => ∃ v, w = v ++ [.closeBrace] ∧ Statements statement v ss

/-! First symbols. -/

/-- Whether operands can begin with a symbol. -/
def startsOperand : Symbol → Bool
  | .number _ | .identifier _ | .minus | .openParen | .openBracket => true
  | _ => false

/-- Whether statements can begin with a symbol. -/
def startsStatement (s : Symbol) : Bool := startsOperand s || s == .openBrace

/-- After the line breaks in front of it, whatever is of the form begins with a symbol of the
given kind. -/
def Opens (kind : Symbol → Bool) (G : Form α) : Prop :=
  ∀ w v, G w v → ∃ b s w', w = b ++ s :: w' ∧ Breaks b ∧ kind s = true ∧ G (s :: w') v

theorem opens_items {kind : Symbol → Bool} {item : Form α} {close : Symbol}
    (hitem : Opens kind item) : Opens kind (Items item close) := by
  intro w xs h
  cases h with
  | last hx hb' =>
    obtain ⟨b, s, w', rfl, hb, hs, hw⟩ := hitem _ _ hx
    exact ⟨b, s, _, by simp, hb, hs, .last hw hb'⟩
  | next hx hb' hb'' hxs =>
    obtain ⟨b, s, w', rfl, hb, hs, hw⟩ := hitem _ _ hx
    exact ⟨b, s, _, by simp, hb, hs, .next hw hb' hb'' hxs⟩

section
variable {expr : Form Expr}

theorem opens_row : Opens startsOperand (Row expr) := by
  intro w es h
  cases h with
  | intro h => exact ⟨[], _, _, rfl, breaks_nil, rfl, .intro h⟩

theorem Primary.exists_cons {w : List Symbol} {e : Expr} (h : Primary expr w e) :
    ∃ s w', w = s :: w' ∧ startsOperand s = true ∧ s ≠ .minus := by
  cases h with
  | number => exact ⟨_, _, rfl, rfl, nofun⟩
  | name => exact ⟨_, _, rfl, rfl, nofun⟩
  | call => exact ⟨_, _, rfl, rfl, nofun⟩
  | group => exact ⟨_, _, rfl, rfl, nofun⟩
  | matrix => exact ⟨_, _, rfl, rfl, nofun⟩

theorem opens_unary : Opens startsOperand (Unary expr) := by
  intro w e h
  cases h with
  | neg hb hw => exact ⟨_, _, _, rfl, hb, rfl, .neg breaks_nil hw⟩
  | primary hb hw =>
    obtain ⟨s, w', rfl, hs, -⟩ := hw.exists_cons
    exact ⟨_, s, w', rfl, hb, hs, .of_primary hw⟩

theorem opens_chain {operator : Symbol → BinaryOp → Prop} {operand : Form Expr}
    {kind : Symbol → Bool} (hoperand : Opens kind operand) :
    Opens kind (Chain operator operand) := by
  intro w e h
  induction h with
  | single h =>
    obtain ⟨b, s, w', rfl, hb, hs, hw⟩ := hoperand _ _ h
    exact ⟨b, s, w', rfl, hb, hs, .single hw⟩
  | apply _ hop hr ih =>
    obtain ⟨b, s, w', rfl, hb, hs, hw⟩ := ih
    exact ⟨b, s, _, List.append_assoc .., hb, hs, .apply hw hop hr⟩

end

theorem opens_expression : Opens startsOperand Expression := by
  intro w e h
  cases h with
  | intro h =>
    obtain ⟨b, s, w', hw, hb, hs, h'⟩ := opens_chain (opens_chain opens_unary) _ _ h
    exact ⟨b, s, w', hw, hb, hs, .intro h'⟩

theorem opens_statement : Opens startsStatement Statement := by
  intro w s h
  cases h with
  | assign hx he => exact ⟨[], _, _, rfl, breaks_nil, rfl, .assign hx he⟩
  | block hss => exact ⟨[], _, _, rfl, breaks_nil, rfl, .block hss⟩
  | evaluate he =>
    obtain ⟨b, s, w', rfl, hb, hs, h'⟩ := opens_expression _ _ he
    exact ⟨b, s, w', rfl, hb, by simp [startsStatement, hs], .evaluate h'⟩

/-! Last symbols. -/

/-- There is a last symbol, and it does not separate statements. -/
def Firm (w : List Symbol) : Prop := ∃ w' s, w = w' ++ [s] ∧ s.isSeparator = false

theorem Firm.append {w : List Symbol} (h : Firm w) (v : List Symbol) : Firm (v ++ w) := by
  obtain ⟨w', s, rfl, hs⟩ := h
  exact ⟨v ++ w', s, (List.append_assoc ..).symm, hs⟩

theorem Firm.cons {w : List Symbol} (h : Firm w) (s : Symbol) : Firm (s :: w) := h.append [s]

/-- Whatever is of the form ends in this way. -/
def Ends (G : Form α) : Prop := ∀ w v, G w v → Firm w

section
variable {expr : Form Expr} {item : Form α} {close : Symbol}

theorem ends_items (hclose : close.isSeparator = false) : Ends (Items item close) := by
  intro w xs h
  induction h with
  | last => exact ⟨_, close, rfl, hclose⟩
  | next _ _ _ _ ih => exact ((ih.append _).cons _).append _

theorem ends_filled (hclose : close.isSeparator = false) : Ends (Filled item close) := by
  intro w xs h
  cases h with
  | intro _ h => exact (ends_items hclose _ _ h).append _

theorem ends_listed (hclose : close.isSeparator = false) : Ends (Listed item close) := by
  intro w xs h
  cases h with
  | empty => exact ⟨_, close, rfl, hclose⟩
  | filled h => exact ends_filled hclose _ _ h

theorem ends_primary : Ends (Primary expr) := by
  intro w e h
  cases h with
  | number => exact ⟨[], _, rfl, rfl⟩
  | name => exact ⟨[], _, rfl, rfl⟩
  | call _ h => exact ((ends_listed rfl _ _ h).cons _).cons _
  | group => exact ⟨_ :: _, _, rfl, rfl⟩
  | matrix h => exact (ends_filled rfl _ _ h).cons _

theorem ends_unary : Ends (Unary expr) := by
  intro w e h
  induction h with
  | neg _ _ ih => exact (ih.cons _).append _
  | primary _ h => exact (ends_primary _ _ h).append _

theorem ends_chain {operator : Symbol → BinaryOp → Prop} {operand : Form Expr}
    (hoperand : Ends operand) : Ends (Chain operator operand) := by
  intro w e h
  cases h with
  | single h => exact hoperand _ _ h
  | apply _ _ h => exact ((hoperand _ _ h).cons _).append _

end

theorem ends_expression : Ends Expression := by
  intro w e h
  cases h with
  | intro h => exact ends_chain (ends_chain ends_unary) _ _ h

theorem ends_statement : Ends Statement := by
  intro w s h
  cases h with
  | assign _ he => exact ((ends_expression _ _ he).cons _).cons _
  | block => exact ⟨_ :: _, _, rfl, rfl⟩
  | evaluate he => exact ends_expression _ _ he

/-! Programs one after the other. -/

theorem Ended.append {w w' : List Symbol} (h : Ended w) (h' : Ended w') : Ended (w ++ w') := by
  cases w with
  | nil => exact h'
  | cons s w => exact ended_cons.mpr (ended_cons.mp h)

theorem Statements.of_separators {statement : Form ExactLinear.Statement} {b w : List Symbol}
    {ss : List ExactLinear.Statement} (hb : Separators b) (h : Statements statement w ss) :
    Statements statement (b ++ w) ss := by
  cases h with
  | nil hb' => exact .nil (List.forall_mem_append.mpr ⟨hb, hb'⟩)
  | cons hb' hs hended hss =>
    rw [← List.append_assoc, ← List.append_assoc]
    exact .cons (List.forall_mem_append.mpr ⟨hb, hb'⟩) hs hended hss

theorem Statements.append {statement : Form ExactLinear.Statement} {w w' : List Symbol}
    {ss ss' : List ExactLinear.Statement} (h : Statements statement w ss) (hended : Ended w')
    (h' : Statements statement w' ss') : Statements statement (w ++ w') (ss ++ ss') := by
  induction h with
  | nil hb => exact h'.of_separators hb
  | cons hb hs hended' _ ih =>
    rw [List.append_assoc]
    exact .cons hb hs (hended'.append hended) ih

/-- A separator at the end is none of the last statement. -/
theorem Program.of_append_separator {w : List Symbol} {s : Symbol}
    {p : List ExactLinear.Statement} (h : Program (w ++ [s]) p) (hs : s.isSeparator = true) :
    Program w p := by
  generalize hall : w ++ [s] = all at h
  induction h generalizing w with
  | nil hb =>
    subst hall
    exact .nil (List.forall_mem_append.mp hb).1
  | @cons b v v' t ts hb ht hended hts ih =>
    rcases List.eq_nil_or_concat v' with rfl | ⟨u, last, rfl⟩
    · -- The separator would be the last symbol of the statement.
      obtain ⟨v, last, rfl, hlast⟩ := ends_statement _ _ ht
      simp only [List.append_nil, ← List.append_assoc] at hall
      obtain ⟨-, hlast'⟩ := List.append_inj' hall rfl
      cases hlast'
      rw [hs] at hlast
      cases hlast
    · rw [List.concat_eq_append, ← List.append_assoc] at hall
      obtain ⟨rfl, hlast⟩ := List.append_inj' hall rfl
      cases hlast
      rw [List.concat_eq_append] at hended
      exact .cons hb ht hended.of_append (ih (List.concat_eq_append ..).symm)

end ExactLinear.Grammar
