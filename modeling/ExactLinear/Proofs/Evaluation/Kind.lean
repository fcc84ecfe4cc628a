import ExactLinear.Proofs.Evaluation.Operation

/- Kinds are sound. An expression that has a value has a kind by the rules, and it is
   the kind of the value. An expression that has a kind can fail only over numbers
   and shapes, that is, in the algebra, or at a size for an identity that is no
   integer. -/
namespace ExactLinear

namespace Environment

/-- How the evaluation of an expression with a kind can fail. -/
inductive Fails (env : Environment) (e : Expr) : RuntimeError → Prop
  | algebra {cause : AlgebraError} {line : Nat} : Fails env e ⟨.algebra cause, line⟩
  | size {argument : Expr} {line : Nat} {size : Scalar} :
      e.Contains (.call .identity [argument] line) →
      env.evaluate argument = .ok (.scalar size) → size.den ≠ 1 →
      Fails env e ⟨.typeMismatch (.sizeNotInteger size), line⟩

variable {env : Environment} {e : Expr} {k : Kind} {value : Value} {error : RuntimeError}

/-- What fails in a child fails in its parent. -/
theorem Fails.under {child : Expr} (h : env.Fails child error) (hchild : child ∈ e.children) :
    env.Fails e error := by
  cases h with
  | algebra => exact .algebra
  | size hcall harg hden => exact .size (.under hchild hcall) harg hden

theorem Fails.ofYields {r : Except RuntimeCause Value} {line : Nat} (h : Yields k r)
    (hr : onLine line r = .error error) : env.Fails e error := by
  cases h with
  | value => cases hr
  | algebra =>
    cases hr
    exact .algebra

/-! From values to kinds. -/

theorem hasKind_of_evaluate (h : env.evaluate e = .ok value) :
    e.HasKind env.kindOf? value.kind := by
  induction e using Expr.induction generalizing value with
  | literal v line =>
    cases h
    exact .literal
  | var name line =>
    rw [evaluate] at h
    split at h
    · next hget =>
      cases h
      exact .var (by rw [kindOf?, hget, Option.map_some])
    · cases h
  | neg operand line ih =>
    simp only [evaluate, bind_eq_ok_iff, onLine_eq_ok_iff] at h
    obtain ⟨v, hv, hneg⟩ := h
    have hne := Value.kind_ne_boolean_of_negate hneg
    rw [(Value.yields_negate hne).kind_eq hneg]
    exact .neg (ih hv) hne
  | binary op left right line ihl ihr =>
    simp only [evaluate, bind_eq_ok_iff, onLine_eq_ok_iff] at h
    obtain ⟨l, hl, r, hr, happly⟩ := h
    obtain ⟨k, hk⟩ := exists_combines happly
    rw [hk.yields.kind_eq happly]
    exact .binary (ihl hl) (ihr hr) hk
  | call f arguments line ih =>
    rw [evaluate] at h
    split at h
    · next harity =>
      simp only [bind_eq_ok_iff, onLine_eq_ok_iff] at h
      obtain ⟨values, hvalues, happly⟩ := h
      rw [length_eq_of_evaluateAll hvalues] at harity
      have hkinds := Builtin.kind_of_apply harity happly
      rw [Builtin.kind_eq_of_apply harity hkinds happly]
      refine .call (length_eq_of_evaluateAll hvalues ▸ harity) fun e he => ?_
      obtain ⟨v, hv, hev⟩ := exists_of_mem_arguments hvalues he
      rw [← hkinds v hv]
      exact ih e he hev
    · cases h
  | rows entries line ih =>
    simp only [evaluate, bind_eq_ok_iff, onLine_eq_ok_iff] at h
    obtain ⟨rows, hrows, hmat⟩ := h
    rw [(Yields.ofAlgebra .matrix (fun _ => rfl) _).kind_eq hmat]
    refine .rows fun row hrow e he => ?_
    obtain ⟨q, hq⟩ := exists_of_mem_entries hrows hrow he
    exact ih row hrow e he hq

/-! From kinds to values. -/

theorem kind_eq_of_hasKind (h : e.HasKind env.kindOf? k) (hv : env.evaluate e = .ok value) :
    value.kind = k := by
  induction h generalizing value with
  | literal =>
    cases hv
    rfl
  | var hk =>
    rw [evaluate] at hv
    split at hv
    · next hget =>
      cases hv
      rw [kindOf?, hget] at hk
      exact Option.some.inj hk
    · cases hv
  | neg _ hne ih =>
    simp only [evaluate, bind_eq_ok_iff, onLine_eq_ok_iff] at hv
    obtain ⟨v, hv, hneg⟩ := hv
    obtain rfl := ih hv
    exact (Value.yields_negate hne).kind_eq hneg
  | binary _ _ hk ihl ihr =>
    simp only [evaluate, bind_eq_ok_iff, onLine_eq_ok_iff] at hv
    obtain ⟨l, hl, r, hr, happly⟩ := hv
    rw [← ihl hl, ← ihr hr] at hk
    exact hk.yields.kind_eq happly
  | call harity _ ih =>
    simp only [evaluate, harity, if_true, bind_eq_ok_iff, onLine_eq_ok_iff] at hv
    obtain ⟨values, hvalues, happly⟩ := hv
    have hkinds := forall_kind_of_evaluateAll hvalues ih
    rw [length_eq_of_evaluateAll hvalues] at harity
    exact Builtin.kind_eq_of_apply harity hkinds happly
  | rows =>
    simp only [evaluate, bind_eq_ok_iff, onLine_eq_ok_iff] at hv
    obtain ⟨rows, -, hmat⟩ := hv
    exact (Yields.ofAlgebra .matrix (fun _ => rfl) _).kind_eq hmat

theorem fails_of_hasKind (h : e.HasKind env.kindOf? k) (herror : env.evaluate e = .error error) :
    env.Fails e error := by
  induction h generalizing error with
  | literal => cases herror
  | var hk =>
    rw [evaluate] at herror
    split at herror
    · cases herror
    · next hget =>
      rw [kindOf?, hget] at hk
      cases hk
  | neg hoperand hne ih =>
    simp only [evaluate, bind_eq_error_iff] at herror
    rcases herror with herror | ⟨v, hv, herror⟩
    · exact (ih herror).under List.mem_cons_self
    · obtain rfl := kind_eq_of_hasKind hoperand hv
      exact .ofYields (Value.yields_negate hne) herror
  | binary hleft hright hk ihl ihr =>
    simp only [evaluate, bind_eq_error_iff] at herror
    rcases herror with herror | ⟨l, hl, herror | ⟨r, hr, herror⟩⟩
    · exact (ihl herror).under List.mem_cons_self
    · exact (ihr herror).under (List.mem_cons_of_mem _ List.mem_cons_self)
    · rw [← kind_eq_of_hasKind hleft hl, ← kind_eq_of_hasKind hright hr] at hk
      exact .ofYields hk.yields herror
  | call harity harguments ih =>
    simp only [evaluate, harity, if_true, bind_eq_error_iff] at herror
    rcases herror with herror | ⟨values, hvalues, herror⟩
    · obtain ⟨e, he, herror⟩ := evaluateAll_eq_error herror
      exact (ih e he herror).under he
    · have hkinds := forall_kind_of_evaluateAll hvalues fun e he v hv =>
        kind_eq_of_hasKind (harguments e he) hv
      have hlength := length_eq_of_evaluateAll hvalues
      rw [hlength] at harity
      -- Number and kinds of the arguments are right, so the call ends in the algebra or at a size.
      rcases Builtin.apply_cases harity hkinds with hyields | ⟨rfl, size, rfl, hden, hfail⟩
      · exact .ofYields hyields herror
      · obtain ⟨argument, rfl⟩ := List.length_eq_one_iff.mp hlength
        rw [hfail] at herror
        cases herror
        obtain ⟨_, hv, heval⟩ := exists_of_mem_arguments hvalues List.mem_cons_self
        obtain rfl := List.mem_singleton.mp hv
        exact .size .self heval hden
  | rows hentries ih =>
    simp only [evaluate, bind_eq_error_iff] at herror
    rcases herror with herror | ⟨rows, -, herror⟩
    · obtain ⟨row, hrow, e, he, herror | ⟨v, hv, hne⟩⟩ := evaluateRows_eq_error herror
      · exact (ih row hrow e he herror).under (List.mem_flatten.mpr ⟨row, hrow, he⟩)
      · exact absurd (kind_eq_of_hasKind (hentries row hrow e he) hv) hne
    · exact .ofYields (.ofAlgebra .matrix (fun _ => rfl) _) herror

/-- An expression that has a value has one kind, that of the value. An expression that has a kind
never fails over a name or a number of arguments, and over kinds only at a call of `identity`
whose argument is no integer. -/
theorem evaluate_kind (env : Environment) (e : Expr) :
    (∀ value, env.evaluate e = .ok value → ∀ k, e.HasKind env.kindOf? k ↔ k = value.kind) ∧
      ∀ k, e.HasKind env.kindOf? k → ∀ error, env.evaluate e = .error error →
        (∀ name, error.cause ≠ .undefinedVariable name) ∧
        (∀ f found, error.cause ≠ .arity f found) ∧
        ∀ mismatch, error.cause = .typeMismatch mismatch →
          ∃ argument size, e.Contains (.call .identity [argument] error.line) ∧
            env.evaluate argument = .ok (.scalar size) ∧ size.den ≠ 1 ∧
            mismatch = .sizeNotInteger size := by
  refine ⟨?_, ?_⟩
  · intro value hvalue k
    refine ⟨fun hk => (kind_eq_of_hasKind hk hvalue).symm, ?_⟩
    intro hk
    rw [hk]
    exact hasKind_of_evaluate hvalue
  · intro k hk error herror
    cases fails_of_hasKind hk herror with
    | algebra => simp
    | size hcall harg hden =>
      refine ⟨by simp, by simp, ?_⟩
      intro mismatch hcause
      cases hcause
      exact ⟨_, _, hcall, harg, hden, rfl⟩

/-- `identity(1/2)` has a kind, and fails at its own call. -/
theorem evaluate_kind_half :
    (Expr.call .identity [.literal (.scalar (1 / 2)) 1] 1).HasKind empty.kindOf? .matrix ∧
      ∃ argument size,
        (Expr.call .identity [.literal (.scalar (1 / 2)) 1] 1).Contains
          (.call .identity [argument] 1) ∧
        empty.evaluate argument = .ok (.scalar size) ∧ size.den ≠ 1 ∧
        TypeMismatch.sizeNotInteger (1 / 2) = .sizeNotInteger size := by
  have hkind : (Expr.call .identity [.literal (.scalar (1 / 2)) 1] 1).HasKind empty.kindOf?
      .matrix := .call rfl (List.forall_mem_singleton.mpr .literal)
  have hfail : empty.evaluate (.call .identity [.literal (.scalar (1 / 2)) 1] 1) =
      .error ⟨.typeMismatch (.sizeNotInteger (1 / 2)), 1⟩ := by decide +kernel
  obtain ⟨-, -, hsize⟩ := (evaluate_kind empty _).2 .matrix hkind _ hfail
  exact ⟨hkind, hsize _ rfl⟩

end Environment

end ExactLinear
