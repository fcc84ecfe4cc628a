import ExactLinear.Mat.Arithmetic

/- Operations on matrices of which no shape is known. Each of them has a result exactly
   if the shapes fit and is refused for the shapes otherwise (`Gives`), and that is so
   again of one after another. Two computations that are refused alike and have the
   same result when there is one agree (`Agree`). -/
namespace ExactLinear

variable {α β : Type} {fits p q : Prop} {x y : Except AlgebraError α}

/-- That a computation has a result with a property if the shapes fit, and is refused for the
shapes otherwise. -/
structure Gives (fits : Prop) (x : Except AlgebraError α) (P : α → Prop) : Prop where
  result : fits → ∃ a, x = .ok a ∧ P a
  refusal : ¬fits → ∃ e, x = .error (.shape e)

/-- That two computations have the same result if the shapes fit, and are both refused for the
shapes otherwise. -/
structure Agree (fits : Prop) (x y : Except AlgebraError α) : Prop where
  result : fits → ∃ a, x = .ok a ∧ y = .ok a
  refusal : ¬fits → (∃ e, x = .error (.shape e)) ∧ ∃ e, y = .error (.shape e)

namespace Gives
variable {P : α → Prop} {Q : β → Prop}

theorem congr (h : Gives p x P) (hpq : p ↔ q) : Gives q x P := by
  rw [← hpq]
  exact h

theorem mono {P' : α → Prop} (h : Gives p x P) (hP : ∀ a, P a → P' a) : Gives p x P' := by
  refine ⟨fun hp => ?_, h.refusal⟩
  obtain ⟨a, ha, hPa⟩ := h.result hp
  exact ⟨a, ha, hP a hPa⟩

/-- The first computation has to succeed for the second one to be made. -/
theorem bind {f : α → Except AlgebraError β} (h : Gives p x P) (hf : ∀ a, P a → Gives q (f a) Q) :
    Gives (p ∧ q) (x.bind f) Q := by
  by_cases hp : p
  · obtain ⟨a, rfl, ha⟩ := h.result hp
    refine ⟨fun hpq => (hf a ha).result hpq.2, fun hpq => ?_⟩
    exact (hf a ha).refusal fun hq => hpq ⟨hp, hq⟩
  · obtain ⟨e, rfl⟩ := h.refusal hp
    exact ⟨fun hpq => absurd hpq.1 hp, fun _ => ⟨e, rfl⟩⟩

theorem map (h : Gives p x P) (g : α → β) : Gives p (x.map g) fun b => ∃ a, P a ∧ g a = b := by
  refine ⟨fun hp => ?_, fun hp => ?_⟩
  · obtain ⟨a, rfl, ha⟩ := h.result hp
    exact ⟨g a, rfl, a, ha, rfl⟩
  · obtain ⟨e, rfl⟩ := h.refusal hp
    exact ⟨e, rfl⟩

/-- Two computations that fit in the same cases agree if they are the same in these. -/
theorem agree {P' : α → Prop} (h : Gives fits x P) (h' : Gives fits y P')
    (heq : fits → x = y) : Agree fits x y := by
  refine ⟨fun hfits => ?_, fun hfits => ⟨h.refusal hfits, h'.refusal hfits⟩⟩
  obtain ⟨a, ha, -⟩ := h.result hfits
  exact ⟨a, ha, (heq hfits).symm.trans ha⟩

end Gives

/-! Each operation. -/

namespace Mat

/-- That a matrix has the given numbers of rows and columns. -/
def HasShape (rows cols : Nat) (A : Mat) : Prop := A.rows = rows ∧ A.cols = cols

theorem hasShape (A : Mat) : HasShape A.rows A.cols A := ⟨rfl, rfl⟩

namespace HasShape
variable {A B : Mat} {m n k l : Nat}

theorem gives_add (hA : HasShape m n A) (hB : HasShape k l B) :
    Gives (k = m ∧ l = n) (A.add B) (HasShape m n) := by
  obtain ⟨rfl, rfl⟩ := hA
  obtain ⟨rfl, rfl⟩ := hB
  exact ⟨fun h => ⟨_, dif_pos h, rfl, rfl⟩, fun h => ⟨_, dif_neg h⟩⟩

theorem gives_mul (hA : HasShape m k A) (hB : HasShape l n B) :
    Gives (l = k) (A.mul B) (HasShape m n) := by
  obtain ⟨rfl, rfl⟩ := hA
  obtain ⟨rfl, rfl⟩ := hB
  exact ⟨fun h => ⟨_, dif_pos h, rfl, rfl⟩, fun h => ⟨_, dif_neg h⟩⟩

theorem gives_augment (hA : HasShape m n A) (hB : HasShape k l B) :
    Gives (k = m) (A.augment B) (HasShape m (n + l)) := by
  obtain ⟨rfl, rfl⟩ := hA
  obtain ⟨rfl, rfl⟩ := hB
  exact ⟨fun h => ⟨_, dif_pos h, rfl, rfl⟩, fun h => ⟨_, dif_neg h⟩⟩

end HasShape

end Mat

/-! Operations on matrices whose shapes fit. -/

namespace Mat
variable {m n k : Nat} {hm : 0 < m} {hn : 0 < n} {hk : 0 < k}

theorem add_mk (G H : Grid m n) :
    (⟨m, n, hm, hn, G⟩ : Mat).add ⟨m, n, hm, hn, H⟩ = .ok ⟨m, n, hm, hn, G.add H⟩ :=
  dif_pos ⟨rfl, rfl⟩

theorem mul_mk (G : Grid m k) (H : Grid k n) :
    (⟨m, k, hm, hk, G⟩ : Mat).mul ⟨k, n, hk, hn, H⟩ = .ok ⟨m, n, hm, hn, G.mul H⟩ :=
  dif_pos rfl

theorem scale_mk (q : Scalar) (G : Grid m n) :
    (⟨m, n, hm, hn, G⟩ : Mat).scale q = ⟨m, n, hm, hn, G.scale q⟩ := rfl

theorem augment_mk (G : Grid m n) (H : Grid m k) :
    (⟨m, n, hm, hn, G⟩ : Mat).augment ⟨m, k, hm, hk, H⟩ =
      .ok ⟨m, n + k, hm, Nat.add_pos_left hn k, G.augment H⟩ :=
  dif_pos rfl

end Mat

end ExactLinear
