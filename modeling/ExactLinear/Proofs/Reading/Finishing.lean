import ExactLinear.Proofs.Reading.Run
import ExactLinear.Syntax.RecursiveDescent

/- Computations on tokens that come to an end. A computation is given a limit for the
   depth of its calls. `Finishes x ts r` says that `x`, given the tokens `ts`, comes to
   an end with the result `r` whenever the limit is high enough, and that what is left
   then is a suffix of `ts`, after a failure too. There is one rule for each way in which
   computations are put together; a loop comes to an end when every round that asks for
   another one leaves fewer tokens than it was given. -/
namespace ExactLinear

variable {α β σ : Type}

namespace Result

/-- The tokens not consumed. -/
def rest : Result α → List Token
  | ok _ rest | fail _ rest => rest

/-- The value or the error. -/
def outcome : Result α → Except ParseError α
  | ok value _ => .ok value
  | fail e _ => .error e

theorem map_eq_andThen (f : α → β) (r : Result α) :
    r.map f = r.andThen fun value rest => ok (f value) rest := by
  cases r <;> rfl

/-- The same result, with another error in its place after a failure. -/
def mapError (f : ParseError → ParseError) : Result α → Result α
  | ok value rest => ok value rest
  | fail e rest => fail (f e) rest

theorem mapError_eq_ok {f : ParseError → ParseError} {r : Result α} {value : α}
    {rest : List Token} (h : r.mapError f = .ok value rest) : r = .ok value rest := by
  cases r with
  | ok first after => exact h
  | fail e after => cases h

theorem map_map {γ : Type} (f : α → β) (g : β → γ) (r : Result α) :
    (r.map f).map g = r.map (g ∘ f) := by
  cases r <;> rfl

theorem andThen_eq_ok {r : Result α} {f : α → List Token → Result β} {value : β}
    {rest : List Token} (h : r.andThen f = .ok value rest) :
    ∃ first after, r = .ok first after ∧ f first after = .ok value rest := by
  cases r with
  | ok first after => exact ⟨first, after, rfl, h⟩
  | fail e after => cases h

theorem map_eq_ok {r : Result α} {f : α → β} {value : β} {rest : List Token}
    (h : r.map f = .ok value rest) : ∃ first, r = .ok first rest ∧ f first = value := by
  cases r with
  | ok first after =>
    cases h
    exact ⟨first, rfl, rfl⟩
  | fail e after => cases h

theorem map_nil_append (r : Result (List α)) : r.map ([] ++ ·) = r := by
  cases r <;> rfl

theorem map_append_cons (before : List α) (value : α) (r : Result (List α)) :
    (r.map (value :: ·)).map (before ++ ·) = r.map (before ++ [value] ++ ·) := by
  cases r <;> simp

end Result

namespace Parser

/-- The result of a computation on `ts`, unless it gives up. -/
def exec (x : Parser α) (ts : List Token) : Option (Result α) :=
  (x.run.run ts).map fun
    | (.ok value, rest) => .ok value rest
    | (.error e, rest) => .fail e rest

theorem exec_bind (x : Parser α) (f : α → Parser β) (ts : List Token) :
    exec (x >>= f) ts = (exec x ts).bind fun
      | .ok value rest => exec (f value) rest
      | .fail e rest => some (.fail e rest) := by
  rw [exec, exec, ExceptT.run_bind, StateT.run_bind]
  cases x.run.run ts with
  | none => rfl
  | some result => obtain ⟨_ | _, rest⟩ := result <;> rfl

theorem exec_mapError (x : Parser α) (f : ParseError → ParseError) (ts : List Token) :
    exec (tryCatch x fun e => throw (f e)) ts = (exec x ts).map (Result.mapError f) := by
  rw [exec, exec, ExceptT.run_tryCatch, StateT.run_bind]
  cases x.run.run ts with
  | none => rfl
  | some result => obtain ⟨_ | _, rest⟩ := result <;> rfl

/-- The result of a look at what follows a statement. -/
def statementEnd (inBlock : Bool) (ts : List Token) : Result Unit :=
  match Reading.afterStatement inBlock ts with
  | none => .ok () ts
  | some e => .fail e ts

theorem statementEnd_eq_ok {inBlock : Bool} {ts rest : List Token} {u : Unit}
    (h : statementEnd inBlock ts = .ok u rest) : rest = ts := by
  unfold statementEnd at h
  split at h <;> cases h
  rfl

/-- What follows a round with a result: the rest of the loop, of which `F` says the results. -/
def Round.follow (F : σ → List Token → Result α) : Round σ α → List Token → Result α
  | .again state, rest => F state rest
  | .done value, rest => .ok value rest

/-- On `ts` the computation comes to an end with the result `r`, however high the limit is from some
depth on, and `r` leaves a suffix of `ts`. -/
structure Finishes (x : Nat → Parser α) (ts : List Token) (r : Result α) : Prop where
  exec_eq : ∃ depth, ∀ d, depth ≤ d → exec (x d) ts = some r
  suffix : r.rest <:+ ts

/-- On `ts` the computation comes to an end with the result `r`, and a success leaves a proper
suffix of `ts`. -/
structure Consumes (x : Nat → Parser α) (ts : List Token) (r : Result α) : Prop
    extends Finishes x ts r where
  shorter : ∀ value rest, r = .ok value rest → rest.length < ts.length

/-- On `ts` the round of a loop comes to an end, and when it asks for another one, a proper suffix
of `ts` is left. -/
def Advances (round : Nat → Parser (Round σ α)) (ts : List Token) : Prop :=
  ∃ r, Finishes round ts r ∧
    ∀ state rest, r = .ok (.again state) rest → rest.length < ts.length

namespace Finishes
variable {x : Nat → Parser α} {f : Nat → α → Parser β} {ts us : List Token} {r : Result α}
  {s : Result β}

/-- A computation in which nothing is called. -/
theorem of_exec_eq {y : Parser α} (hy : exec y ts = some r) (hr : r.rest <:+ ts) :
    Finishes (fun _ => y) ts r :=
  ⟨⟨0, fun _ _ => hy⟩, hr⟩

theorem pure (value : α) (ts : List Token) :
    Finishes (fun _ => Pure.pure value) ts (.ok value ts) :=
  of_exec_eq rfl List.suffix_rfl

theorem throw (e : ParseError) (ts : List Token) :
    Finishes (fun _ => (MonadExcept.throw e : Parser α)) ts (.fail e ts) :=
  of_exec_eq rfl List.suffix_rfl

theorem fail (cause : ParseCause) (line : Nat) (ts : List Token) :
    Finishes (fun _ => (Parser.fail cause line : Parser α)) ts (.fail ⟨cause, line⟩ ts) :=
  throw _ ts

theorem bind_fail {e : ParseError} (hx : Finishes x ts (.fail e us)) :
    Finishes (fun d => x d >>= f d) ts (.fail e us) := by
  obtain ⟨⟨depth, hdepth⟩, hsuffix⟩ := hx
  refine ⟨⟨depth, fun d hd => ?_⟩, hsuffix⟩
  rw [exec_bind, hdepth d hd]
  rfl

/-- A first step that succeeds. -/
theorem step {value : α} (hx : Finishes x ts (.ok value us))
    (h : Finishes (fun d => f d value) us s) : Finishes (fun d => x d >>= f d) ts s := by
  obtain ⟨⟨depth, hdepth⟩, hsuffix⟩ := hx
  obtain ⟨⟨depth', hdepth'⟩, hsuffix'⟩ := h
  refine ⟨⟨max depth depth', fun d hd => ?_⟩, hsuffix'.trans hsuffix⟩
  rw [exec_bind, hdepth d (Nat.le_trans (Nat.le_max_left _ _) hd)]
  exact hdepth' d (Nat.le_trans (Nat.le_max_right _ _) hd)

theorem bind {g : α → List Token → Result β} (hx : Finishes x ts r)
    (hf : ∀ value rest, r = .ok value rest →
      Finishes (fun d => f d value) rest (g value rest)) :
    Finishes (fun d => x d >>= f d) ts (r.andThen g) := by
  cases r with
  | ok value rest => exact hx.step (hf value rest rfl)
  | fail e rest => exact hx.bind_fail

theorem map (hx : Finishes x ts r) (g : α → β) :
    Finishes (fun d => x d >>= fun value => Pure.pure (g value)) ts (r.map g) := by
  rw [Result.map_eq_andThen]
  exact hx.bind fun value rest _ => pure (g value) rest

theorem mapError (hx : Finishes x ts r) (f : ParseError → ParseError) :
    Finishes (fun d => tryCatch (x d) fun e => MonadExcept.throw (f e)) ts (r.mapError f) := by
  obtain ⟨⟨depth, hdepth⟩, hsuffix⟩ := hx
  refine ⟨⟨depth, fun d hd => ?_⟩, by cases r <;> exact hsuffix⟩
  rw [exec_mapError, hdepth d hd]
  rfl

/-- A computation that does the same on the tokens of a suffix. -/
theorem of_suffix {y : Nat → Parser α} (hx : Finishes x us r)
    (hexec : ∀ d, exec (y d) ts = exec (x d) us) (hus : us <:+ ts) : Finishes y ts r := by
  obtain ⟨⟨depth, hdepth⟩, hsuffix⟩ := hx
  exact ⟨⟨depth, fun d hd => (hexec d).trans (hdepth d hd)⟩, hsuffix.trans hus⟩

/-- A call takes one more level than what the routine does. -/
theorem call {p : Routine α} (h : Finishes (fun d => perform (fun q => parse d q) p) ts r) :
    Finishes (parse · p) ts r := by
  obtain ⟨⟨depth, hdepth⟩, hsuffix⟩ := h
  refine ⟨⟨depth + 1, fun d hd => ?_⟩, hsuffix⟩
  cases d with
  | zero => exact absurd hd (Nat.not_succ_le_zero depth)
  | succ d => exact hdepth d (Nat.le_of_succ_le_succ hd)

/-! Steps. -/

theorem get (ts : List Token) :
    Finishes (fun _ => (MonadState.get : Parser (List Token))) ts (.ok ts ts) :=
  of_exec_eq rfl List.suffix_rfl

theorem set (h : us <:+ ts) :
    Finishes (fun _ => (MonadStateOf.set us : Parser Unit)) ts (.ok () us) :=
  of_exec_eq rfl h

theorem peek (ts : List Token) : Finishes (fun _ => Parser.peek) ts (.ok ts.head? ts) :=
  of_exec_eq rfl List.suffix_rfl

theorem next (ts : List Token) : Finishes (fun _ => Parser.next) ts (.ok ts.head? ts.tail) :=
  of_exec_eq rfl (List.tail_suffix ts)

theorem opening (t : Token) (rest : List Token) :
    Finishes (fun _ => Parser.opening) (t :: rest) (.ok t.line rest) :=
  of_exec_eq rfl (List.suffix_cons t rest)

theorem dropNewLines (ts : List Token) :
    Finishes (fun _ => Parser.dropNewLines) ts (.ok () (Reading.skipNewLines ts)) := by
  obtain ⟨b, hb, -⟩ := Reading.exists_breaks_append (rfl : Reading.skipNewLines ts = _)
  exact of_exec_eq rfl ⟨b, hb.symm⟩

theorem dropSeparators (ts : List Token) :
    Finishes (fun _ => Parser.dropSeparators) ts (.ok () (Reading.skipSeparators ts)) := by
  obtain ⟨b, hb, -⟩ := Reading.exists_separators_append (rfl : Reading.skipSeparators ts = _)
  exact of_exec_eq rfl ⟨b, hb.symm⟩

theorem expectEnd (inBlock : Bool) (ts : List Token) :
    Finishes (fun _ => Parser.expectEnd inBlock) ts (statementEnd inBlock ts) := by
  refine step (get ts) ?_
  rw [statementEnd]
  cases Reading.afterStatement inBlock ts with
  | none => exact pure () ts
  | some e => exact throw e ts

/-! Loops. -/

section
variable {n : Nat} {l : Loop σ α} {R : σ → List Token → Result (Round σ α)}
  (hround : ∀ state ts, ts.length < n →
    Finishes (parse · (.round l state)) ts (R state ts))
  (hshorter : ∀ state ts state' rest, R state ts = .ok (.again state') rest →
    rest.length < ts.length)

include hround hshorter

/-- The rounds of the loop have the results `R`, and one that asks for another leaves fewer tokens
than it was given. Then the loop comes to an end, and what holds of the result of the last round
and is handed from each round to the one before it holds of the result of the loop. -/
theorem exists_loop {P : σ → List Token → Result α → Prop}
    (hlast : ∀ state ts value rest, R state ts = .ok (.done value) rest →
      P state ts (.ok value rest))
    (hfail : ∀ state ts e rest, R state ts = .fail e rest → P state ts (.fail e rest))
    (hback : ∀ state ts state' rest r, R state ts = .ok (.again state') rest →
      P state' rest r → P state ts r)
    (state : σ) (ts : List Token) (hts : ts.length < n) :
    ∃ r, Finishes (parse · (.loop l state)) ts r ∧ P state ts r := by
  induction hsize : ts.length using Nat.strongRecOn generalizing state ts with
  | ind size ih =>
    subst hsize
    have h := hround state ts hts
    cases hr : R state ts with
    | fail e rest =>
      rw [hr] at h
      exact ⟨_, call h.bind_fail, hfail state ts e rest hr⟩
    | ok step rest =>
      rw [hr] at h
      cases step with
      | done value => exact ⟨_, call (h.step (pure value rest)), hlast state ts value rest hr⟩
      | again state' =>
        have hshort := hshorter state ts state' rest hr
        obtain ⟨r, hrest, hP⟩ := ih _ hshort state' rest (Nat.lt_trans hshort hts) rfl
        exact ⟨r, call (h.step hrest), hback state ts state' rest r hr hP⟩

/-- A loop has the result that its rounds add up to. -/
theorem loop {F : σ → List Token → Result α}
    (hF : ∀ state ts, ts.length < n → F state ts = (R state ts).andThen (Round.follow F))
    (state : σ) (ts : List Token) (hts : ts.length < n) :
    Finishes (parse · (.loop l state)) ts (F state ts) := by
  have hP : ∃ r, Finishes (parse · (.loop l state)) ts r ∧
      (ts.length < n → r = F state ts) := by
    refine exists_loop hround hshorter
      (P := fun state ts r => ts.length < n → r = F state ts) ?_ ?_ ?_ state ts hts
    · intro state ts value rest hR hts
      rw [hF state ts hts, hR]
      rfl
    · intro state ts e rest hR hts
      rw [hF state ts hts, hR]
      rfl
    · intro state ts state' rest r hR hr hts
      rw [hF state ts hts, hR, hr (Nat.lt_trans (hshorter state ts state' rest hR) hts)]
      rfl
  obtain ⟨r, h, hr⟩ := hP
  exact hr hts ▸ h

end

end Finishes

end Parser

end ExactLinear
