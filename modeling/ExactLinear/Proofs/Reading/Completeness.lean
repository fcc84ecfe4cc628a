import ExactLinear.Proofs.Reading.Run

/- What the grammar derives is read. A routine that is given a derivation of its
   form, followed by tokens that cannot go on with it, takes exactly the derivation
   off the front and returns its tree (`Reading.Complete`). -/
namespace ExactLinear

open Grammar

variable {α β : Type}

/-- The tokens of a derivation, from the first that is not a line break. -/
theorem Grammar.Opens.exists_tokens {kind : Symbol → Bool} {G : Form β} (hG : Opens kind G)
    {read : List Token} {v : β} (h : G (read.map Token.symbol) v) :
    ∃ b t rest, read = b ++ t :: rest ∧ Breaks (b.map Token.symbol) ∧ kind t.symbol = true ∧
      G ((t :: rest).map Token.symbol) v := by
  obtain ⟨b, s, w, hw, hb, hs, hv⟩ := hG _ _ h
  obtain ⟨b, us, rfl, rfl, hus⟩ := List.map_eq_append_iff.mp hw
  obtain ⟨t, rest, rfl, rfl, rfl⟩ := List.map_eq_cons_iff.mp hus
  exact ⟨b, t, rest, rfl, hb, hs, hv⟩

namespace Reading
variable {n : Nat} {k : List Token → Nat}

/-- In front of tokens that `follow` allows, a routine reads whatever the form `G` derives, and
returns a value that looks like the derived one. -/
def Complete (view : α → β) (G : Form β) (follow : List Token → Prop)
    (r : (ts : List Token) → ts.length < n → Reply α (k ts)) : Prop :=
  ∀ read rest v, G (read.map Token.symbol) v → follow rest → (read ++ rest).length < n →
    ∃ value, run r (read ++ rest) = .ok value rest ∧ view value = v

/-! What may follow. -/

/-- No parenthesis follows, which would make a name a call. -/
def NoCall (ts : List Token) : Prop := ∀ t ∈ ts.head?, t.symbol ≠ .openParen

/-- Neither a parenthesis nor an operator follows. -/
def Stops (ts : List Token) : Prop :=
  ∀ t ∈ ts.head?, t.symbol ≠ .openParen ∧ t.symbol.operator? = none

theorem noCall_cons {t : Token} {ts : List Token} : NoCall (t :: ts) ↔ t.symbol ≠ .openParen := by
  simp [NoCall]

theorem stops_cons {t : Token} {ts : List Token} :
    Stops (t :: ts) ↔ t.symbol ≠ .openParen ∧ t.symbol.operator? = none := by
  simp [Stops]

/-! Lists. -/

/-- Whether a symbol closes lists. -/
def closes : Symbol → Bool
  | .closeParen | .closeBracket => true
  | _ => false

section
variable {view : α → β} {G : Form β} {item : Reader α n} {follow : List Token → Prop}
  {close : Symbol}

/-- What may follow an item: a line break, a comma or the closing symbol. -/
def AllowsAfterItem (close : Symbol) (follow : List Token → Prop) : Prop :=
  ∀ t ts, t.symbol = .newLine ∨ t.symbol = .comma ∨ t.symbol = close → follow (t :: ts)

theorem follow_breaks (hfollow : AllowsAfterItem close follow) {b : List Token}
    (hb : Breaks (b.map Token.symbol)) {t : Token} (ht : t.symbol = .comma ∨ t.symbol = close)
    (rest : List Token) : follow (b ++ t :: rest) := by
  cases b with
  | nil => exact hfollow t rest (.inr ht)
  | cons u b => exact hfollow u _ (.inl (List.forall_mem_cons.mp hb).1)

theorem Complete.of_skipNewLines (hitem : Complete view G follow item)
    (hG : Opens startsOperand G) {read rest : List Token} {v : β}
    (h : G (read.map Token.symbol) v) (hrest : follow rest) (hlen : (read ++ rest).length < n) :
    ∃ value, run item (skipNewLines (read ++ rest)) = .ok value rest ∧ view value = v := by
  obtain ⟨b, t, us, rfl, hb, ht, hus⟩ := hG.exists_tokens h
  have ht' : t.symbol ≠ .newLine := fun e => by rw [e] at ht; cases ht
  rw [List.append_assoc, skipNewLines_append hb, List.cons_append, skipNewLines_cons ht']
  refine hitem (t :: us) rest v hus hrest ?_
  simp at hlen ⊢
  omega

/-- Items are read from where the line breaks in front of them end. -/
theorem items_complete (hitem : Complete view G follow item) (hG : Opens startsOperand G)
    (hfollow : AllowsAfterItem close follow) (hclose : closes close = true)
    (missing : ParseCause) (line : Nat) {read : List Token}
    {xs : List β} (h : Items G close (read.map Token.symbol) xs) (rest : List Token)
    (hlen : (read ++ rest).length < n) :
    ∃ values, run (items close missing line item) (skipNewLines (read ++ rest)) =
      .ok values rest ∧ values.map view = xs := by
  have hskip := Nat.lt_of_le_of_lt (skipNewLines_length_le (read ++ rest)) hlen
  generalize hw : read.map Token.symbol = w at h
  induction h generalizing read with
  | @last w b x hx hb =>
    obtain ⟨front, last, rfl, hfront, hlast⟩ := List.map_eq_append_iff.mp hw
    obtain ⟨us, bs, rfl, rfl, rfl⟩ := List.map_eq_append_iff.mp hfront
    obtain ⟨t, rfl, ht⟩ := List.map_eq_singleton_iff.mp hlast
    obtain ⟨value, hvalue, hview⟩ := hitem.of_skipNewLines hG hx
      (follow_breaks hfollow hb (.inr ht) rest) (by simpa using hlen)
    have ht' : t.symbol ≠ .newLine := fun e => by rw [← ht, e] at hclose; cases hclose
    have hcomma : t.symbol ≠ .comma := fun e => by rw [← ht, e] at hclose; cases hclose
    refine ⟨[value], ?_, by simp [hview]⟩
    rw [run_items _ _ _ _ hskip]
    simp only [List.append_assoc, List.cons_append, List.nil_append] at hvalue ⊢
    rw [hvalue, Result.andThen_ok, skipNewLines_append hb, skipNewLines_cons ht']
    dsimp only
    rw [if_neg hcomma, if_pos ht]
  | @next w b b' w' x xs hx hb hb' _ ih =>
    obtain ⟨front, back, rfl, hfront, hback⟩ := List.map_eq_append_iff.mp hw
    obtain ⟨us, bs, rfl, rfl, rfl⟩ := List.map_eq_append_iff.mp hfront
    obtain ⟨t, tail, rfl, ht, htail⟩ := List.map_eq_cons_iff.mp hback
    obtain ⟨cs, vs, rfl, rfl, rfl⟩ := List.map_eq_append_iff.mp htail
    obtain ⟨value, hvalue, hview⟩ := hitem.of_skipNewLines hG hx
      (follow_breaks hfollow hb (.inl ht) (cs ++ vs ++ rest)) (by simpa using hlen)
    have hvs : (vs ++ rest).length < n := by
      simp at hlen ⊢
      omega
    obtain ⟨values, hvalues, hviews⟩ := ih hvs
      (Nat.lt_of_le_of_lt (skipNewLines_length_le _) hvs) rfl
    have ht' : t.symbol ≠ .newLine := fun e => by rw [e] at ht; cases ht
    refine ⟨value :: values, ?_, by simp [hview, hviews]⟩
    rw [run_items _ _ _ _ hskip]
    simp only [List.append_assoc, List.cons_append] at hvalue ⊢
    rw [hvalue, Result.andThen_ok, skipNewLines_append hb, skipNewLines_cons ht']
    simp only [ht, if_true]
    rw [skipNewLines_append hb', hvalues, Result.map_ok]

theorem listUpTo_complete (hitem : Complete view G follow item) (hG : Opens startsOperand G)
    (hfollow : AllowsAfterItem close follow) (hclose : closes close = true)
    (missing : ParseCause) (line : Nat) :
    Complete (List.map view) (Listed G close) (fun _ => True)
      (listUpTo close missing line item) := by
  intro read rest xs h _ hlen
  rw [run_listUpTo _ _ _ _ hlen]
  generalize hw : read.map Token.symbol = w at h
  cases h with
  | empty hb =>
    obtain ⟨bs, last, rfl, rfl, hlast⟩ := List.map_eq_append_iff.mp hw
    obtain ⟨t, rfl, ht⟩ := List.map_eq_singleton_iff.mp hlast
    have ht' : t.symbol ≠ .newLine := fun e => by rw [← ht, e] at hclose; cases hclose
    refine ⟨[], ?_, rfl⟩
    rw [List.append_assoc, skipNewLines_append hb, List.singleton_append, skipNewLines_cons ht']
    simp [ht]
  | filled h =>
    cases h with
    | intro hb hitems =>
      obtain ⟨bs, us, rfl, rfl, rfl⟩ := List.map_eq_append_iff.mp hw
      have hus : (us ++ rest).length < n := by
        simp at hlen ⊢
        omega
      obtain ⟨values, hvalues, hviews⟩ :=
        items_complete hitem hG hfollow hclose missing line hitems rest hus
      -- The first item does not begin with the closing symbol.
      obtain ⟨cs, t, vs, rfl, hcs, ht, -⟩ := (opens_items hG).exists_tokens hitems
      have ht' : t.symbol ≠ .newLine := fun e => by rw [e] at ht; cases ht
      have htclose : t.symbol ≠ close := fun e => by
        rw [← e] at hclose
        cases hs : t.symbol <;> simp [hs, closes, startsOperand] at hclose ht
      refine ⟨values, ?_, hviews⟩
      simp only [List.append_assoc, List.cons_append] at hvalues ⊢
      rw [skipNewLines_append hcs, skipNewLines_cons ht'] at hvalues
      rw [skipNewLines_append hb, skipNewLines_append hcs, skipNewLines_cons ht']
      simp only [htclose, if_false]
      exact hvalues

theorem ne_nil_of_filled {w : List Symbol} {xs : List β} (h : Filled G close w xs) : xs ≠ [] := by
  rcases h with ⟨_, ⟨⟩⟩ <;> nofun

end

/-! Operands. -/

section
variable {G : Form Expr} {inner : Reader Expr n}

theorem allowsAfterItem_stops (close : Symbol) (hclose : closes close = true) :
    AllowsAfterItem close Stops := by
  rintro t ts (h | h | h)
  · simp [stops_cons, h, Symbol.operator?]
  · simp [stops_cons, h, Symbol.operator?]
  · cases close <;> cases hclose <;> simp [stops_cons, h, Symbol.operator?]

theorem row_complete (hinner : Complete Expr.unlined G Stops inner) (hG : Opens startsOperand G) :
    Complete (List.map Expr.unlined) (Row G) (fun _ => True) (row inner) := by
  intro read rest es h _ hlen
  generalize hw : read.map Token.symbol = w at h
  cases h with
  | intro hes =>
    obtain ⟨t, us, rfl, ht, rfl⟩ := List.map_eq_cons_iff.mp hw
    have hne := ne_nil_of_filled hes
    have hus : (us ++ rest).length < n := Nat.lt_of_succ_lt hlen
    obtain ⟨values, hvalues, rfl⟩ := listUpTo_complete hinner hG
      (allowsAfterItem_stops .closeBracket rfl) rfl .bracketExpected t.line us rest _
      (.filled hes) trivial hus
    refine ⟨values, ?_, rfl⟩
    rw [run_row _ hlen]
    simp only [List.cons_append, ht, if_true]
    rw [hvalues, Result.andThen_ok, if_neg (by simpa using hne)]

theorem matrix_complete (hinner : Complete Expr.unlined G Stops inner)
    (hG : Opens startsOperand G) (line : Nat) :
    Complete Expr.unlined (fun w e => Primary G (.openBracket :: w) e) (fun _ => True)
      (matrix inner line) := by
  intro read rest e h _ hlen
  generalize hw : read.map Token.symbol = w at h
  cases h with
  | matrix hrows =>
    subst hw
    have hne := ne_nil_of_filled hrows
    have hafter : AllowsAfterItem .closeBracket fun _ => True := fun _ _ _ => trivial
    obtain ⟨values, hvalues, rfl⟩ := listUpTo_complete (row_complete hinner hG) opens_row
      hafter rfl .bracketExpected line read rest _ (.filled hrows) trivial hlen
    refine ⟨.rows values line, ?_, Expr.mapLine_rows _ _ _⟩
    rw [run_matrix _ _ hlen, hvalues, Result.andThen_ok, if_neg (by simpa using hne)]

theorem grouping_complete (hinner : Complete Expr.unlined G Stops inner) (line : Nat) :
    Complete Expr.unlined (fun w e => Primary G (.openParen :: w) e) (fun _ => True)
      (grouping inner line) := by
  intro read rest e h _ hlen
  generalize hw : read.map Token.symbol = w at h
  cases h with
  | group he hb =>
    obtain ⟨front, last, rfl, hfront, hlast⟩ := List.map_eq_append_iff.mp hw
    obtain ⟨us, bs, rfl, rfl, rfl⟩ := List.map_eq_append_iff.mp hfront
    obtain ⟨t, rfl, ht⟩ := List.map_eq_singleton_iff.mp hlast
    have hstops := follow_breaks (allowsAfterItem_stops .closeParen rfl) hb (.inr ht) rest
    obtain ⟨value, hvalue, hview⟩ := hinner us (bs ++ t :: rest) _ he hstops (by simpa using hlen)
    have ht' : t.symbol ≠ .newLine := by simp [ht]
    refine ⟨value, ?_, hview⟩
    rw [run_grouping _ _ hlen]
    simp only [List.append_assoc, List.singleton_append] at hvalue ⊢
    rw [hvalue, Result.andThen_ok, skipNewLines_append hb, skipNewLines_cons ht']
    simp [ht]

theorem named_complete (hinner : Complete Expr.unlined G Stops inner) (hG : Opens startsOperand G)
    (name : String) (line : Nat) :
    Complete Expr.unlined (fun w e => Primary G (.identifier name :: w) e) NoCall
      (named inner name line) := by
  intro read rest e h hrest hlen
  rw [run_named _ _ _ hlen]
  generalize hw : read.map Token.symbol = w at h
  cases h with
  | name =>
    obtain rfl := List.map_eq_nil_iff.mp hw
    refine ⟨.var name line, ?_, rfl⟩
    cases rest with
    | nil => rfl
    | cons t rest => simp [noCall_cons.mp hrest]
  | call hf hes =>
    obtain ⟨t, us, rfl, ht, rfl⟩ := List.map_eq_cons_iff.mp hw
    have hus : (us ++ rest).length < n := Nat.lt_of_succ_lt hlen
    obtain ⟨values, hvalues, rfl⟩ := listUpTo_complete hinner hG
      (allowsAfterItem_stops .closeParen rfl) rfl .parenExpected line us rest _ hes trivial hus
    refine ⟨.call _ values line, ?_, Expr.mapLine_call _ _ _ _⟩
    simp only [List.cons_append, ht, if_true]
    rw [run_call _ _ _ hus]
    simp [hf, hvalues]

theorem primary_complete (hinner : Complete Expr.unlined G Stops inner)
    (hG : Opens startsOperand G) :
    Complete Expr.unlined (Primary G) NoCall (primary inner) := by
  intro read rest e h hrest hlen
  obtain ⟨s, w, hw, hs, hminus⟩ := h.exists_cons
  obtain ⟨t, us, rfl, rfl, hus⟩ := List.map_eq_cons_iff.mp hw
  have hlen' : (us ++ rest).length < n := Nat.lt_of_succ_lt_succ hlen
  rw [run_primary _ hlen]
  rw [List.map_cons] at h
  cases ht : t.symbol with
  | number q =>
    rw [ht] at h
    generalize hw : us.map Token.symbol = w at h
    cases h
    obtain rfl := List.map_eq_nil_iff.mp hw
    exact ⟨.literal (.scalar q) t.line, by simp [ht], rfl⟩
  | identifier name =>
    rw [ht] at h
    simpa [ht] using named_complete hinner hG name t.line us rest e h hrest hlen'
  | openParen =>
    rw [ht] at h
    simpa [ht] using grouping_complete hinner t.line us rest e h trivial hlen'
  | openBracket =>
    rw [ht] at h
    simpa [ht] using matrix_complete hinner hG t.line us rest e h trivial hlen'
  | _ => simp_all [startsOperand]

/-! Precedence levels. -/

/-- A routine for operands passes over the line breaks in front of it. -/
theorem run_unary_append {b ts : List Token} (hb : Breaks (b.map Token.symbol))
    (hlen : (b ++ ts).length < n + 1) : run (unary inner) (b ++ ts) = run (unary inner) ts := by
  induction b with
  | nil => rfl
  | cons t b ih =>
    obtain ⟨ht, hb⟩ := List.forall_mem_cons.mp hb
    have hlen' : (b ++ ts).length < n + 1 := Nat.lt_of_succ_lt hlen
    rw [run_unary _ hlen, ← ih hb hlen']
    simp [ht]

theorem unary_complete (hinner : Complete Expr.unlined G Stops inner) (hG : Opens startsOperand G) :
    Complete Expr.unlined (Unary G) NoCall (unary inner) := by
  intro read rest e h hrest hlen
  generalize hw : read.map Token.symbol = w at h
  induction h generalizing read with
  | neg hb _ ih =>
    obtain ⟨bs, tail, rfl, rfl, htail⟩ := List.map_eq_append_iff.mp hw
    obtain ⟨t, us, rfl, ht, hus⟩ := List.map_eq_cons_iff.mp htail
    have hafter : ((t :: us) ++ rest).length < n + 1 := by
      simp at hlen ⊢
      omega
    obtain ⟨value, hvalue, hview⟩ := ih us (Nat.lt_of_succ_lt hafter) hus
    refine ⟨.neg value t.line, ?_, by simp [hview]⟩
    rw [List.append_assoc] at hlen ⊢
    rw [run_unary_append hb hlen, run_unary _ hafter]
    simp [ht, hvalue]
  | primary hb h =>
    obtain ⟨bs, us, rfl, rfl, rfl⟩ := List.map_eq_append_iff.mp hw
    have hafter : (us ++ rest).length < n + 1 := by
      simp at hlen ⊢
      omega
    have hvalue := primary_complete hinner hG us rest _ h hrest hafter
    rw [List.append_assoc] at hlen ⊢
    rw [run_unary_append hb hlen, run_unary _ hafter]
    obtain ⟨s, w, hw', hs, hminus⟩ := h.exists_cons
    obtain ⟨t, vs, rfl, rfl, -⟩ := List.map_eq_cons_iff.mp hw'
    cases ht : t.symbol <;> simp_all [startsOperand]

end

section
variable {G : Form Expr} {follow : List Token → Prop} {accepts : BinaryOp → Bool}
  {operator : Symbol → BinaryOp → Prop} {operand : Reader Expr n}

/-- A derived chain is read up to its end, from where the routine looks for more operators. -/
theorem chain_complete (hoperand : Complete Expr.unlined G follow operand)
    (hop : Accepts accepts operator)
    (hfollow : ∀ t ts op, operator t.symbol op → follow (t :: ts)) {read : List Token} {e : Expr}
    (h : Chain operator G (read.map Token.symbol) e) {rest : List Token} (hrest : follow rest)
    (hlen : (read ++ rest).length < n) :
    ∃ left, run (leftAssociative accepts operand) (read ++ rest) =
      run (chain accepts operand left) rest ∧ left.unlined = e := by
  generalize hw : read.map Token.symbol = w at h
  induction h generalizing read rest with
  | single h =>
    subst hw
    obtain ⟨value, hvalue, hview⟩ := hoperand read rest _ h hrest hlen
    exact ⟨value, by rw [run_leftAssociative _ _ hlen, hvalue, Result.andThen_ok], hview⟩
  | @apply w w' s op l r _ hs hr ih =>
    obtain ⟨us, tail, rfl, rfl, htail⟩ := List.map_eq_append_iff.mp hw
    obtain ⟨t, vs, rfl, rfl, rfl⟩ := List.map_eq_cons_iff.mp htail
    have hus : (us ++ t :: (vs ++ rest)).length < n := by simpa using hlen
    -- The operands before are followed by the operator, where the routine goes on.
    obtain ⟨left, hleft, hlview⟩ := ih (hfollow t (vs ++ rest) op hs) hus rfl
    have htail : (t :: (vs ++ rest)).length < n := by
      simp at hlen ⊢
      omega
    obtain ⟨right, hright, hrview⟩ := hoperand vs rest _ hr hrest (Nat.lt_of_succ_lt htail)
    refine ⟨.binary op left right t.line, ?_, by simp [hlview, hrview]⟩
    have hsome : operatorAt? accepts (t :: (vs ++ rest)) = some (op, t.line, vs ++ rest) := by
      rw [operatorAt?, (hop _ _).mpr hs, Option.map_some]
    simp only [List.append_assoc, List.cons_append]
    rw [hleft, run_chain _ _ _ htail, hsome]
    dsimp only
    rw [hright, Result.andThen_ok]

theorem leftAssociative_complete (hoperand : Complete Expr.unlined G follow operand)
    (hop : Accepts accepts operator)
    (hfollow : ∀ t ts op, operator t.symbol op → follow (t :: ts)) :
    Complete Expr.unlined (Chain operator G)
      (fun ts => follow ts ∧ operatorAt? accepts ts = none) (leftAssociative accepts operand) := by
  intro read rest e h ⟨hrest, hnone⟩ hlen
  obtain ⟨value, hvalue, hview⟩ := chain_complete hoperand hop hfollow h hrest hlen
  have hrestlen : rest.length < n := by
    simp at hlen
    omega
  refine ⟨value, ?_, hview⟩
  rw [hvalue, run_chain _ _ _ hrestlen, hnone]

end

section
variable {G : Form Expr} {inner : Reader Expr n}

theorem additiveWith_complete (hinner : Complete Expr.unlined G Stops inner)
    (hG : Opens startsOperand G) :
    Complete Expr.unlined (Chain Additive (Chain Multiplicative (Unary G))) Stops
      (additiveWith inner) := by
  have hproduct := leftAssociative_complete (unary_complete hinner hG) accepts_isMultiplicative
    fun t ts op h => noCall_cons.mpr fun e => by rw [e] at h; cases h
  have hsum := leftAssociative_complete hproduct accepts_isAdditive fun t ts op h => by
    generalize hs : t.symbol = s at h
    cases h <;> simp [noCall_cons, operatorAt?, hs, Symbol.operator?, isMultiplicative]
  intro read rest e h hrest
  refine hsum read rest e h ?_
  cases rest with
  | nil => simp [NoCall, operatorAt?]
  | cons t rest =>
    obtain ⟨hparen, hop⟩ := stops_cons.mp hrest
    simp [noCall_cons, operatorAt?, hparen, hop]

end

theorem innerExpression_complete (n : Nat) :
    Complete Expr.unlined Expression Stops (innerExpression n) := by
  induction n using Nat.strongRecOn with
  | ind n ih =>
    intro read rest e h hrest hlen
    rw [run_innerExpression hlen, result_expression]
    cases h with
    | intro h =>
      -- For the expressions inside brackets the bound is the length of the list.
      exact additiveWith_complete (ih _ hlen) opens_expression read rest e h hrest
        (Nat.lt_succ_self _)

theorem expression_complete {read rest : List Token} {e : Expr}
    (h : Expression (read.map Token.symbol) e) (hrest : Stops rest) :
    ∃ value, (expression (read ++ rest)).result = .ok value rest ∧ value.unlined = e := by
  have hlen := Nat.lt_succ_self (read ++ rest).length
  rw [← run_innerExpression hlen]
  exact innerExpression_complete _ read rest e h hrest hlen

/-! Statements. -/

/-- What may follow a statement: a separator, the end of a block or the end. -/
def EndsStatement (ts : List Token) : Prop :=
  ∀ t ∈ ts.head?, t.symbol.isSeparator = true ∨ t.symbol = .closeBrace

theorem endsStatement_cons {t : Token} {ts : List Token} :
    EndsStatement (t :: ts) ↔ t.symbol.isSeparator = true ∨ t.symbol = .closeBrace := by
  simp [EndsStatement]

theorem EndsStatement.stops {ts : List Token} (h : EndsStatement ts) : Stops ts := by
  intro t ht
  have hend := h t ht
  cases hs : t.symbol <;> simp_all [Symbol.isSeparator, Symbol.operator?]

theorem endsStatement_of_ended {ts : List Token} (h : Ended (ts.map Token.symbol)) :
    EndsStatement ts := by
  intro t ht
  exact .inl (h _ (by simpa using ⟨t, ht, rfl⟩))

/-- A name is an expression by itself. -/
theorem exists_expression_name (name : String) (line : Nat) {rest : List Token}
    (hrest : Stops rest) :
    ∃ value, (expression (⟨.identifier name, line⟩ :: rest)).result = .ok value rest := by
  have hname : Expression ([(⟨.identifier name, line⟩ : Token)].map Token.symbol) (.var name 0) :=
    .intro (.single (.single (.of_primary .name)))
  obtain ⟨value, hvalue, -⟩ := expression_complete hname hrest
  exact ⟨value, hvalue⟩

/-- No expression begins with a name and an equals sign: it would be read as the name alone. -/
theorem not_isAssignment {read rest : List Token} {e : Expr}
    (h : Expression (read.map Token.symbol) e) (hrest : EndsStatement rest) :
    ¬IsAssignment (read ++ rest) := by
  rintro ⟨name, line, equalsLine, tail, heq⟩
  obtain ⟨value, hvalue, -⟩ := expression_complete h hrest.stops
  have hstops : Stops (⟨.equals, equalsLine⟩ :: tail) := by simp [stops_cons, Symbol.operator?]
  obtain ⟨_, hshort⟩ := exists_expression_name name line hstops
  rw [← heq, hvalue] at hshort
  cases hshort
  simp [endsStatement_cons, Symbol.isSeparator] at hrest

/-- Behind separators a statement is found, from its first token that is not a line break. -/
theorem skipSeparators_statement {bs us : List Token} {s : Statement}
    (hb : Separators (bs.map Token.symbol)) (h : Grammar.Statement (us.map Token.symbol) s)
    (rest : List Token) :
    ∃ t vs, skipSeparators (bs ++ us ++ rest) = t :: vs ++ rest ∧ (t :: vs).length ≤ us.length ∧
      t.symbol ≠ .closeBrace ∧ Grammar.Statement ((t :: vs).map Token.symbol) s := by
  obtain ⟨cs, t, vs, rfl, hcs, ht, hvs⟩ := opens_statement.exists_tokens h
  have ht' : t.symbol.isSeparator = false := by
    cases e : t.symbol <;> simp [e, startsStatement, startsOperand, Symbol.isSeparator] at ht ⊢
  have htbrace : t.symbol ≠ .closeBrace := fun e => by rw [e] at ht; cases ht
  refine ⟨t, vs, ?_, by simp, htbrace, hvs⟩
  simp only [List.append_assoc, List.cons_append]
  rw [skipSeparators_append hb, skipSeparators_append hcs.separators, skipSeparators_cons ht']

section
variable {inner : Reader Statement n}

theorem body_complete
    (hinner : Complete Statement.unlined Grammar.Statement EndsStatement inner) (line : Nat) :
    Complete (List.map Statement.unlined) (Body Grammar.Statement) (fun _ => True)
      (body inner line) := by
  rintro read rest ss ⟨v, hv, h⟩ - hlen
  obtain ⟨us, last, rfl, rfl, hlast⟩ := List.map_eq_append_iff.mp hv
  obtain ⟨brace, rfl, hbrace⟩ := List.map_eq_singleton_iff.mp hlast
  clear hv hlast
  simp only [List.append_assoc, List.singleton_append] at hlen ⊢
  generalize hw : us.map Token.symbol = w at h
  induction h generalizing us with
  | nil hb =>
    subst hw
    have hclose : brace.symbol.isSeparator = false := by simp [hbrace, Symbol.isSeparator]
    refine ⟨[], ?_, rfl⟩
    rw [run_body _ _ hlen, skipSeparators_append hb, skipSeparators_cons hclose]
    simp [hbrace]
  | @cons b w w' s ss hb hs hended _ ih =>
    obtain ⟨front, ws, rfl, hfront, rfl⟩ := List.map_eq_append_iff.mp hw
    obtain ⟨bs, us, rfl, rfl, rfl⟩ := List.map_eq_append_iff.mp hfront
    -- Behind the last statement it is the brace that ends it.
    have hafter : EndsStatement (ws ++ brace :: rest) := by
      cases ws with
      | nil => exact endsStatement_cons.mpr (.inr hbrace)
      | cons u ws => exact endsStatement_cons.mpr (.inl (ended_cons.mp hended))
    obtain ⟨t, vs, hskip, hvslen, htbrace, hvs⟩ :=
      skipSeparators_statement hb hs (ws ++ brace :: rest)
    have hread : (t :: vs ++ (ws ++ brace :: rest)).length < n := by
      simp at hlen hvslen ⊢
      omega
    obtain ⟨value, hvalue, hview⟩ := hinner (t :: vs) (ws ++ brace :: rest) _ hvs hafter hread
    obtain ⟨values, hvalues, hviews⟩ := ih ws (by simp at hread ⊢; omega) rfl
    have hend : afterStatement true (ws ++ brace :: rest) = none := by
      refine afterStatement_true_eq_none.mpr ?_
      cases ws with
      | nil => exact ⟨brace, rest, rfl, .inr hbrace⟩
      | cons u ws => exact ⟨u, _, rfl, endsStatement_cons.mp hafter⟩
    refine ⟨value :: values, ?_, by simp [hview, hviews]⟩
    rw [run_body _ _ hlen, List.append_assoc (bs ++ us), hskip]
    simp only [List.cons_append, htbrace, if_false]
    rw [← List.cons_append, hvalue, Result.andThen_ok, hend]
    dsimp only
    rw [hvalues, Result.map_ok]

end

theorem braceAt?_eq_none {read : List Token} {e : Expr} (h : Expression (read.map Token.symbol) e)
    (rest : List Token) : braceAt? (read ++ rest) = none := by
  obtain ⟨b, t, us, rfl, hb, ht, -⟩ := opens_expression.exists_tokens h
  cases b with
  | nil => exact if_neg fun e => by rw [e] at ht; cases ht
  | cons u b =>
    have hu : u.symbol = .newLine := (List.forall_mem_cons.mp hb).1
    exact if_neg fun e => by rw [hu] at e; cases e

theorem innerStatement_complete (n : Nat) :
    Complete Statement.unlined Grammar.Statement EndsStatement (innerStatement n) := by
  induction n using Nat.strongRecOn with
  | ind n ih =>
    intro read rest s h hrest hlen
    rw [run_innerStatement hlen, result_statement]
    generalize hw : read.map Token.symbol = w at h
    cases h with
    | @assign x w e hx he =>
      obtain ⟨t, tail, rfl, ht, htail⟩ := List.map_eq_cons_iff.mp hw
      obtain ⟨u, us, rfl, hu, rfl⟩ := List.map_eq_cons_iff.mp htail
      obtain ⟨_, line⟩ := t
      obtain ⟨_, equalsLine⟩ := u
      cases ht
      cases hu
      obtain ⟨value, hvalue, hview⟩ := expression_complete he hrest.stops
      refine ⟨.assign x value line, ?_, by simp [hview]⟩
      simp only [List.cons_append, braceAt?, reduceCtorEq, if_false]
      rw [result_simpleStatement_assign, if_neg hx, hvalue, Result.map_ok]
    | @block w ss hss =>
      obtain ⟨t, us, rfl, ht, hus⟩ := List.map_eq_cons_iff.mp hw
      obtain ⟨values, hvalues, hviews⟩ := body_complete (ih _ hlen) t.line us rest ss
        ⟨w, hus, hss⟩ trivial (Nat.lt_succ_self _)
      refine ⟨.block values t.line, ?_, by simp [hviews]⟩
      simp only [List.cons_append, braceAt?, ht, if_true]
      exact congrArg (Result.map _) hvalues
    | @evaluate w e he =>
      subst hw
      obtain ⟨value, hvalue, hview⟩ := expression_complete he hrest.stops
      refine ⟨.evaluate value (firstLine (read ++ rest)), ?_, by simp [hview]⟩
      rw [braceAt?_eq_none he]
      dsimp only
      rw [result_simpleStatement (not_isAssignment he hrest), hvalue, Result.map_ok]

theorem statement_complete {read rest : List Token} {s : Statement}
    (h : Grammar.Statement (read.map Token.symbol) s) (hrest : EndsStatement rest) :
    ∃ value, (statement (read ++ rest)).result = .ok value rest ∧ value.unlined = s := by
  have hlen := Nat.lt_succ_self (read ++ rest).length
  rw [← run_innerStatement hlen]
  exact innerStatement_complete _ read rest s h hrest hlen

/-- A derived program is read, whatever line the end is reported on. -/
theorem statements_complete (lastLine : Nat) {ts : List Token} {ss : List Statement}
    (h : Program (ts.map Token.symbol) ss) :
    ∃ values, statements lastLine ts = .ok values ∧ values.map Statement.unlined = ss := by
  generalize hw : ts.map Token.symbol = w at h
  induction h generalizing ts with
  | nil hb =>
    subst hw
    have hskip : skipSeparators ts = [] := by simpa [skipSeparators] using skipSeparators_append hb []
    exact ⟨[], by rw [statements_eq, hskip], rfl⟩
  | @cons b w w' s ss hb hs hended _ ih =>
    obtain ⟨front, ws, rfl, hfront, rfl⟩ := List.map_eq_append_iff.mp hw
    obtain ⟨bs, us, rfl, rfl, rfl⟩ := List.map_eq_append_iff.mp hfront
    obtain ⟨t, vs, hskip, -, -, hvs⟩ := skipSeparators_statement hb hs ws
    obtain ⟨value, hvalue, hview⟩ := statement_complete hvs (endsStatement_of_ended hended)
    obtain ⟨values, hvalues, hviews⟩ := ih rfl
    refine ⟨value :: values, ?_, by simp [hview, hviews]⟩
    have hend := afterStatement_false_eq_none.mpr hended
    rw [List.cons_append] at hvalue hskip
    rw [statements_eq, hskip]
    dsimp only
    rw [hvalue]
    dsimp only
    rw [hend, hvalues]
    rfl

end Reading

end ExactLinear
