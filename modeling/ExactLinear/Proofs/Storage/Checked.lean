import ExactLinear.Storage.Checked
import Mathlib.Data.List.FinRange

/- Checked computations that do not stop the program. An attempt is never more than
   refused, and one attempt after another is an attempt; a loop whose steps succeed
   succeeds. -/
namespace ExactLinear.Storage

variable {ε α α' β β' ι : Type}

/-! One after the other. -/

@[simp] theorem ok_bind (a : α) (f : α → Checked ε β) :
    ((.ok a : Checked ε α) >>= f) = f a := rfl

@[simp] theorem error_bind (stop : Stop ε) (f : α → Checked ε β) :
    ((.error stop : Checked ε α) >>= f) = .error stop := rfl

@[simp] theorem pure_eq_ok (a : α) : (pure a : Checked ε α) = .ok a := rfl

@[simp] theorem attempt_ok (a : α) : (attempt (.ok a) : Checked ε α) = .ok a := rfl

@[simp] theorem attempt_error (e : ε) :
    (attempt (.error e) : Checked ε α) = .error (.refusal e) := rfl

/-- An attempt whose result is used by another one. -/
theorem attempt_bind {x : Except ε α} {g : α → α'} {f : α → Except ε β} {k : β → β'}
    {F : α' → Checked ε β'} (h : ∀ a, F (g a) = attempt ((f a).map k)) :
    (attempt (x.map g) >>= F) = attempt ((x.bind f).map k) := by
  cases x with
  | ok a => exact h a
  | error e => rfl

theorem attempt_ne_panic {r : Except ε α} (p : Panic) : attempt r ≠ .error (.panic p) := by
  cases r <;> simp [attempt]

/-! Lists. -/

theorem item_eq_ok {xs : List α} {index : Nat} {x : α} (h : xs[index]? = some x) :
    (item xs index : Checked ε α) = .ok x := by
  rw [item, h]

theorem slice_eq_ok {xs : List α} {first last : Nat} (h : first ≤ last) (hlast : last ≤ xs.length) :
    (slice xs first last : Checked ε (List α)) = .ok ((xs.drop first).take (last - first)) :=
  if_pos ⟨h, hlast⟩

theorem difference_eq_ok {a b : Nat} (h : b ≤ a) : (difference a b : Checked ε Nat) = .ok (a - b) :=
  if_pos h

/-! Loops. -/

theorem mapM_eq_ok {f : ι → Checked ε α} {g : ι → α} {xs : List ι}
    (h : ∀ x ∈ xs, f x = .ok (g x)) : xs.mapM f = .ok (xs.map g) := by
  induction xs with
  | nil => rfl
  | cons x xs ih =>
    obtain ⟨hx, hxs⟩ := List.forall_mem_cons.mp h
    rw [List.mapM_cons, hx, ih hxs]
    rfl

/-- A loop that changes a stored state as another one changes what is stored. -/
theorem foldlM_eq_ok {f : β → ι → Checked ε β} {g : α → ι → α} {k : α → β}
    (h : ∀ a x, f (k a) x = .ok (k (g a x))) (xs : List ι) (a : α) :
    xs.foldlM f (k a) = .ok (k (xs.foldl g a)) := by
  induction xs generalizing a with
  | nil => rfl
  | cons x xs ih =>
    rw [List.foldlM_cons, h a x]
    exact ih (g a x)

/-- A loop over all pairs of two lists of numbers that are in range. -/
theorem mapM_pairs {m n : Nat} {f : Nat → Nat → Checked ε α} {g : Fin m → Fin n → α}
    (h : ∀ i j, f i.val j.val = .ok (g i j)) (is : List (Fin m)) (js : List (Fin n)) :
    (pairs (is.map Fin.val) (js.map Fin.val)).mapM (fun p => f p.1 p.2) =
      .ok (is.flatMap fun i => js.map (g i)) := by
  have hpairs : pairs (is.map Fin.val) (js.map Fin.val) =
      (is.flatMap fun i => js.map fun j => (i, j)).map fun p => (p.1.val, p.2.val) := by
    simp [pairs, List.flatMap_map, List.map_flatMap, Function.comp_def]
  have hmap : (is.flatMap fun i => js.map fun j => (i, j)).map (fun p => g p.1 p.2) =
      is.flatMap fun i => js.map (g i) := by
    simp [List.map_flatMap, Function.comp_def]
  rw [hpairs, List.mapM_map, mapM_eq_ok fun p _ => h p.1 p.2, hmap]

theorem range_eq_append {k n : Nat} (h : k ≤ n) : List.range n = List.range k ++ interval k n := by
  have happend := List.range'_append_1 (s := 0) (m := k) (n := n - k)
  rw [Nat.zero_add, Nat.add_sub_cancel' h] at happend
  rw [List.range_eq_range', List.range_eq_range', interval, happend]

theorem le_of_mem_interval {i k n : Nat} (h : i ∈ interval k n) : k ≤ i :=
  (List.mem_range'_1.mp h).1

theorem filter_finRange (p : Nat → Bool) (n : Nat) :
    ((List.finRange n).filter fun i => p i.val).map Fin.val = (List.range n).filter p := by
  rw [← List.map_coe_finRange_eq_range, List.filter_map]
  rfl

/-- The numbers from `k` on are those of the indices that are not below `k`. -/
theorem interval_eq_filter {k n : Nat} (h : k ≤ n) :
    interval k n = ((List.finRange n).filter fun i => decide (k ≤ i.val)).map Fin.val := by
  have hbelow : (List.range k).filter (fun i => decide (k ≤ i)) = [] :=
    List.filter_eq_nil_iff.mpr fun i hi => by simpa using List.mem_range.mp hi
  have habove : (interval k n).filter (fun i => decide (k ≤ i)) = interval k n :=
    List.filter_eq_self.mpr fun i hi => decide_eq_true (le_of_mem_interval hi)
  rw [filter_finRange fun i => decide (k ≤ i), range_eq_append h, List.filter_append, hbelow,
    habove, List.nil_append]

theorem range_eq_filter {k n : Nat} (h : k ≤ n) :
    List.range k = ((List.finRange n).filter fun i => decide (i.val < k)).map Fin.val := by
  have hbelow : (List.range k).filter (fun i => decide (i < k)) = List.range k :=
    List.filter_eq_self.mpr fun i hi => decide_eq_true (List.mem_range.mp hi)
  have habove : (interval k n).filter (fun i => decide (i < k)) = [] :=
    List.filter_eq_nil_iff.mpr fun i hi => by simpa using le_of_mem_interval hi
  rw [filter_finRange fun i => decide (i < k), range_eq_append h, List.filter_append, hbelow,
    habove, List.append_nil]

end ExactLinear.Storage
