import ExactLinear.Proofs.Evaluation.Outcome
import ExactLinear.Proofs.Printed
import ExactLinear.Proofs.Session
import ExactLinear.Proofs.Writing.Program

/- Printed values are read back. The text of a scalar spells an expression for it, and
   so does the text of a matrix once it is typed in again; both expressions have the
   values that were printed. -/
namespace ExactLinear

/-! Values of the expressions. -/

namespace Environment
variable (env : Environment)

theorem evaluate_natural (n : Nat) :
    env.evaluate (.natural n) = .ok (.scalar (Scalar.ofCount n)) := by
  rw [Expr.natural, evaluate]

theorem evaluate_integer (z : Int) : env.evaluate (.integer z) = .ok (.scalar (z : Rat)) := by
  unfold Expr.integer
  split
  · next hneg =>
    have habs : (z.natAbs : Int) = -z := Int.ofNat_natAbs_of_nonpos (Int.le_of_lt hneg)
    have hvalue : -Scalar.ofCount z.natAbs = (z : Rat) := by
      rw [Scalar.ofCount, ← Rat.intCast_natCast, habs, Rat.intCast_neg, Rat.neg_neg]
    rw [evaluate, evaluate_natural, ← hvalue]
    rfl
  · next hpos =>
    have habs : (z.natAbs : Int) = z := Int.natAbs_of_nonneg (Int.not_lt.mp hpos)
    have hvalue : Scalar.ofCount z.natAbs = (z : Rat) := by
      rw [Scalar.ofCount, ← Rat.intCast_natCast, habs]
    rw [evaluate_natural, hvalue]

theorem evaluate_fraction (q : Scalar) : env.evaluate (.fraction q) = .ok (.scalar q) := by
  unfold Expr.fraction
  split
  · next hden => rw [evaluate_integer, (Rat.den_eq_one_iff q).mp hden]
  · have hden : Scalar.ofCount q.den ≠ 0 := Nat.cast_ne_zero.mpr q.den_nz
    have hdivide : Scalar.divide (q.num : Rat) (Scalar.ofCount q.den) = .ok q := by
      rw [Scalar.divide, if_neg hden]
      exact congrArg Except.ok (Rat.num_div_den q)
    rw [evaluate, evaluate_integer, evaluate_natural]
    simp only [Except.bind, BinaryOp.apply, hdivide, ofAlgebra, onLine]

theorem evaluate_ofMat (A : Mat) : env.evaluate (.ofMat A) = .ok (.matrix A) := by
  have hrows : env.evaluateRows (A.toRows.map fun row => row.map Expr.fraction) = .ok A.toRows := by
    rw [evaluateRows_eq_ok_iff]
    simp only [List.map_map, Function.comp_def, evaluate_fraction]
  rw [Expr.ofMat, evaluate, hrows]
  simp only [Except.bind, Mat.ofRows_toRows, ofAlgebra, onLine]

end Environment

/-! Numbers. -/

namespace Decimal

theorem num_natural (n : Nat) : (Scalar.ofCount n).num = n := Rat.num_natCast n

theorem den_natural (n : Nat) : (Scalar.ofCount n).den = 1 := Rat.den_natCast n

theorem terminating_natural (n : Nat) : Terminating (Scalar.ofCount n) := by
  refine ⟨?_, 0, ?_⟩
  · rw [← Rat.num_nonneg, num_natural]
    exact Int.natCast_nonneg n
  · exact den_natural n ▸ Nat.one_dvd _

/-- The numeral of a natural number is the number as it is printed. -/
theorem numeral_natural (n : Nat) : numeral (Scalar.ofCount n) = Nat.toDigits 10 n := by
  have hplaces : places (Scalar.ofCount n) = 0 := by
    rw [places, den_natural]
    rfl
  have hshifted : shifted (Scalar.ofCount n) = n := by
    rw [shifted, hplaces, num_natural, den_natural, Int.toNat_natCast]
    exact Nat.mul_one n
  rw [numeral, if_pos hplaces, wholeDigits, hshifted, hplaces, List.append_nil]
  exact congrArg (Nat.toDigits 10) (Nat.div_one n)

end Decimal

/-! What the expressions are written with. -/

namespace Expr

theorem writable_natural (n : Nat) : (natural n).Writable :=
  .literal (Decimal.terminating_natural n)

theorem writable_integer (z : Int) : (integer z).Writable := by
  unfold integer
  split
  · exact .neg (writable_natural _)
  · exact writable_natural _

theorem writable_fraction (q : Scalar) : (fraction q).Writable := by
  unfold fraction
  split
  · exact writable_integer _
  · exact .binary (writable_integer _) (writable_natural _)

theorem writable_ofMat (A : Mat) : (ofMat A).Writable := by
  have hrows : A.toRows ≠ [] := by
    rw [← List.length_pos_iff]
    exact A.grid.length_toRows.symm ▸ A.rows_pos
  refine .rows (by simpa using hrows) (List.forall_mem_map.mpr fun row hrow => ?_)
    (List.forall_mem_map.mpr fun row _ => List.forall_mem_map.mpr fun q _ => writable_fraction q)
  have hlength : row.length = A.cols := Grid.length_of_mem_toRows hrow
  rw [ne_eq, List.map_eq_nil_iff, ← ne_eq, ← List.length_pos_iff, hlength]
  exact A.cols_pos

theorem level_integer (z : Int) : 2 ≤ (integer z).level := by
  unfold integer
  split
  · exact Nat.le_refl 2
  · exact Nat.le_succ 2

end Expr

namespace Layout

/-- No parentheses and no spaces but the needed ones. -/
def plain : Layout := minimal (fun _ => false) fun _ _ => 0

theorem plain_enclose {least : Nat} {e : Expr} (h : least ≤ e.level) (w : List Symbol) :
    plain.enclose least e w = w := by
  have hplain : ¬(e.level < least ∨ plain.parenthesized e = true) := by
    intro hor
    rcases hor with hlt | hparenthesized
    · exact absurd hlt (Nat.not_lt.mpr h)
    · cases hparenthesized
  rw [enclose, if_neg hplain]

theorem plain_expression (e : Expr) : plain.expression 0 e = plain.bare e :=
  plain_enclose (Nat.zero_le _) _

/-! Texts. -/

/-- That a text spells symbols wherever what comes after a number in an expression follows it. -/
def Writes (text : List Char) (w : List Symbol) : Prop :=
  ∀ ⦃cs v⦄, Spells cs v → (∀ c ∈ cs.head?, c = '/' ∨ c = ',' ∨ c = ']') →
    Spells (text ++ cs) (w ++ v)

theorem writes_natural (n : Nat) : Writes (Nat.repr n).toList (plain.bare (.natural n)) := by
  intro cs v hcs hhead
  have hspellable : (Symbol.number (Scalar.ofCount n)).Spellable := Decimal.terminating_natural n
  have hcut : ∀ c ∈ cs.head?, (Symbol.number (Scalar.ofCount n)).lexeme.takes c = false := by
    intro c hc
    rcases hhead c hc with rfl | rfl | rfl <;> rfl
  rw [Nat.toList_repr, ← Decimal.numeral_natural]
  exact .symbol hspellable hcs hcut

/-- A slash in front of a number begins no comment. -/
theorem takes_slash_natural (n : Nat) (cs : List Char) :
    ∀ c ∈ ((Nat.repr n).toList ++ cs).head?, Symbol.slash.lexeme.takes c = false := by
  have hspellable : (Symbol.number (Scalar.ofCount n)).Spellable := Decimal.terminating_natural n
  have hapart : Symbol.slash.runsInto (.number (Scalar.ofCount n)) = false := rfl
  have hhead := Symbol.takes_eq_false hspellable hapart
  obtain ⟨d, ds, hds⟩ := List.exists_cons_of_ne_nil (Nat.toDigits_ne_nil (n := n) (b := 10))
  rw [Symbol.spelling, Decimal.numeral_natural, hds] at hhead
  rw [Nat.toList_repr, hds]
  exact hhead

theorem writes_integer (z : Int) : Writes (Scalar.integerText z).toList (plain.bare (.integer z)) := by
  unfold Scalar.integerText Expr.integer
  split
  · intro cs v hcs hhead
    have hnatural := writes_natural z.natAbs hcs hhead
    rw [bare, plain_enclose (Nat.le_succ 2), String.toList_append]
    exact .symbol (s := .minus) trivial hnatural fun _ _ => rfl
  · exact writes_natural _

theorem writes_fraction (q : Scalar) : Writes (Scalar.text q).toList (plain.bare (.fraction q)) := by
  unfold Scalar.text Expr.fraction
  split
  · exact writes_integer _
  · intro cs v hcs hhead
    have hden := writes_natural q.den hcs hhead
    have hslash : Spells ('/' :: ((Nat.repr q.den).toList ++ cs))
        (.slash :: (plain.bare (.natural q.den) ++ v)) :=
      .symbol (s := .slash) trivial hden (takes_slash_natural q.den cs)
    have hleft : plain.enclose BinaryOp.div.level (.integer q.num) (plain.bare (.integer q.num)) =
        plain.bare (.integer q.num) := plain_enclose (Nat.le_of_succ_le (Expr.level_integer _)) _
    have hright : plain.enclose (BinaryOp.div.level + 1) (.natural q.den)
        (plain.bare (.natural q.den)) = plain.bare (.natural q.den) :=
      plain_enclose (Nat.le_succ 2) _
    rw [bare, hleft, hright]
    simpa [BinaryOp.symbol] using writes_integer q.num hslash (by simp)

/-- Items that are written one by one, written as a list. -/
theorem writes_bracketed {α : Type} {f : α → List Char} {g : α → List Symbol} {xs : List α}
    (h : ∀ x ∈ xs, Writes (f x) (g x)) :
    Writes (Retyped.bracketed (xs.map f)) (.openBracket :: listed .closeBracket (xs.map g)) := by
  intro cs v hcs _
  refine .symbol (s := .openBracket) trivial ?_ fun _ _ => rfl
  have hclose : Spells (']' :: cs) (.closeBracket :: v) :=
    .symbol (s := .closeBracket) trivial hcs fun _ _ => rfl
  induction xs with
  | nil => exact hclose
  | cons x xs ih =>
    obtain ⟨hx, hxs⟩ := List.forall_mem_cons.mp h
    cases xs with
    | nil => simpa [listed] using hx hclose (by simp)
    | cons y ys =>
      have hcomma := Spells.symbol (s := .comma) trivial ((ih hxs).spaces 1) fun _ _ => rfl
      simpa [listed, Symbol.spelling] using hx hcomma (by simp [Symbol.spelling])

theorem writes_ofMat (A : Mat) :
    Writes (Retyped.matrix A.text).toList (plain.bare (.ofMat A)) := by
  have hrow : ∀ row ∈ A.toRows,
      Writes (Retyped.bracketed (row.map fun q => (Scalar.text q).toList))
        (plain.row (row.map Expr.fraction)) := by
    intro qs _
    rw [row, List.map_map]
    refine writes_bracketed fun q _ => ?_
    rw [Function.comp_apply, plain_expression]
    exact writes_fraction q
  rw [A.retyped_text, Expr.ofMat, bare, rowsOf_eq, List.map_map]
  exact writes_bracketed hrow

end Layout

namespace Environment

/-- A text that is written for an expression runs as the expression is evaluated. -/
theorem run_of_writes {env : Environment} {text : String} {e : Expr} {value : Value}
    (htext : Layout.Writes text.toList (Layout.plain.bare e)) (he : e.Writable)
    (hvalue : env.evaluate e = .ok value) : env.run text = (env, .ok (some value)) := by
  have hspells : Spells text.toList (Layout.plain.statements [.evaluate e 1]) := by
    have hwritten := htext .nil (by simp)
    rw [List.append_nil, List.append_nil] at hwritten
    show Spells text.toList (Layout.plain.expression 0 e)
    rwa [Layout.plain_expression]
  have hprogram : Grammar.Program (Layout.plain.statements [.evaluate e 1])
      ([.evaluate e 1].map Statement.unlined) :=
    Layout.statements_derived
      (List.forall_mem_singleton.mpr (Layout.statement_derived (.evaluate he)))
  have hrun : env.executeAll none [.evaluate e 1] = (env, .ok (some value)) := by
    simp [executeAll, execute, hvalue, Except.map]
  exact run_eq_ok_iff.mpr ⟨_, _, hspells, hprogram, executeAll_unlined_eq_ok.mpr hrun⟩

/-- The text of a scalar has the scalar as its value, and the text of a matrix, typed in again,
the matrix. Nothing is bound. -/
theorem run_text (env : Environment) :
    (∀ q, env.run (Scalar.text q) = (env, .ok (some (.scalar q)))) ∧
      ∀ A : Mat, env.run (Retyped.matrix A.text) = (env, .ok (some (.matrix A))) := by
  refine ⟨?_, ?_⟩
  · intro q
    exact run_of_writes (Layout.writes_fraction q) (Expr.writable_fraction q)
      (env.evaluate_fraction q)
  · intro A
    exact run_of_writes (Layout.writes_ofMat A) (Expr.writable_ofMat A) (env.evaluate_ofMat A)

end Environment

end ExactLinear
