import ExactLinear.Proofs.Reading.Basic

/- What a reply says about the tokens that were read. If a routine succeeds, it has
   taken a derivation of its form off the front; if it fails because the end came
   too early, more symbols complete one (`Reply.Sound`). A routine keeps this when
   the routine that it calls inside brackets does, and so the knot can be tied. -/
namespace ExactLinear

open Grammar

variable {α β : Type} {n : Nat}

/-- The reply is right about `ts`, for the form `G` of values seen through `view`. -/
def Reply.Sound (view : α → β) (G : Form β) (ts : List Token) : Reply α n → Prop
  | .ok value rest _ => ∃ read, ts = read ++ rest ∧ G (read.map Token.symbol) (view value)
  | .fail e _ =>
    e.cause = .endOfInput → ∃ more v, G (ts.map Token.symbol ++ more) v

def Reader.Sound (view : α → β) (G : Form β) (r : Reader α n) : Prop :=
  ∀ ts h, (r ts h).Sound view G ts

namespace Reader.Sound
variable {view : α → β} {G : Form β} {r : Reader α n} {ts rest : List Token} {h : ts.length < n}

theorem of_ok (hr : r.Sound view G) {value : α} {shorter : rest.length < ts.length}
    (e : r ts h = .ok value rest shorter) :
    ∃ read, ts = read ++ rest ∧ G (read.map Token.symbol) (view value) := by
  have hsound := hr ts h
  rwa [e] at hsound

theorem of_fail (hr : r.Sound view G) {error : ParseError} (e : r ts h = .fail error rest)
    (hend : error.cause = .endOfInput) : ∃ more v, G (ts.map Token.symbol ++ more) v := by
  have hsound := hr ts h
  rw [e] at hsound
  exact hsound hend

end Reader.Sound

namespace Reply
variable {m : Nat} {view : α → β} {G : Form β} {ts : List Token}

theorem Sound.widen {h : m ≤ n} {r : Reply α m} (hr : r.Sound view G ts) :
    (r.widen h).Sound view G ts := by
  cases r with
  | ok value rest _ => exact hr
  | fail e rest => exact hr

/-- A form of which the first tokens were read before. -/
theorem Sound.prepend {G' : Form β} {r : Reply α n} (hr : r.Sound view G ts)
    (before : List Token) (hG : ∀ w v, G w v → G' (before.map Token.symbol ++ w) v) :
    r.Sound view G' (before ++ ts) := by
  cases r with
  | ok value rest _ =>
    obtain ⟨read, rfl, hread⟩ := hr
    refine ⟨before ++ read, (List.append_assoc ..).symm, ?_⟩
    rw [List.map_append]
    exact hG _ _ hread
  | fail e rest =>
    intro he
    obtain ⟨more, v, hmore⟩ := hr he
    refine ⟨more, v, ?_⟩
    rw [List.map_append, List.append_assoc]
    exact hG _ _ hmore

theorem Sound.map {α' β' : Type} {view' : α' → β'} {H : Form β'} {r : Reply α n}
    (hr : r.Sound view G ts) {f : α → α'} (g : β → β') (hf : ∀ x, view' (f x) = g (view x))
    (hH : ∀ w v, G w v → H w (g v)) : (r.map f).Sound view' H ts := by
  cases r with
  | ok value rest _ =>
    obtain ⟨read, rfl, hread⟩ := hr
    refine ⟨read, rfl, ?_⟩
    rw [hf]
    exact hH _ _ hread
  | fail e rest =>
    intro he
    obtain ⟨more, v, hmore⟩ := hr he
    exact ⟨more, g v, hH _ _ hmore⟩

end Reply

namespace Reading

/-! Lists. -/

section
variable {view : α → β} {G : Form β} {close : Symbol} {missing : ParseCause} {line : Nat}
  {item : Reader α n}

theorem items_sound (hitem : item.Sound view G) (hmissing : missing ≠ .endOfInput) :
    Reader.Sound (List.map view) (Items G close) (items close missing line item) := by
  intro ts h
  fun_induction items close missing line item ts h with
  | case1 ts h e after hr =>
    -- The item can be completed, and the list be closed behind it.
    intro he
    obtain ⟨more, v, hmore⟩ := hitem.of_fail hr he
    refine ⟨more ++ [close], [v], ?_⟩
    have hlast : Items G close _ [v] := .last hmore breaks_nil
    simpa using hlast
  | case2 ts h value after shorter hr hskip =>
    intro _
    obtain ⟨read, rfl, hread⟩ := hitem.of_ok hr
    obtain ⟨b, rfl, hb⟩ := exists_breaks_append hskip
    refine ⟨[close], [view value], ?_⟩
    simpa using Items.last hread hb
  | case3 ts h value after shorter hr t rest hskip hrest hcomma hnext e left hrec ih =>
    intro he
    obtain ⟨read, rfl, hread⟩ := hitem.of_ok hr
    obtain ⟨b, rfl, hb⟩ := exists_breaks_append hskip
    obtain ⟨b', hb', hbreaks'⟩ := exists_breaks_append (rfl : skipNewLines rest = _)
    rw [hrec] at ih
    obtain ⟨more, vs, hmore⟩ := ih he
    refine ⟨more, view value :: vs, ?_⟩
    have := Items.next hread hb hbreaks' hmore
    rw [hb']
    simpa [hcomma] using this
  | case4 ts h value after shorter hr t rest hskip hrest hcomma hnext values left fewer hrec ih =>
    obtain ⟨read, rfl, hread⟩ := hitem.of_ok hr
    obtain ⟨b, rfl, hb⟩ := exists_breaks_append hskip
    obtain ⟨b', hb', hbreaks'⟩ := exists_breaks_append (rfl : skipNewLines rest = _)
    rw [hrec] at ih
    obtain ⟨read', hread', hitems⟩ := ih
    refine ⟨read ++ b ++ t :: (b' ++ read'), ?_, ?_⟩
    · rw [hb', hread']
      simp
    · have := Items.next hread hb hbreaks' hitems
      simpa [hcomma] using this
  | case5 ts h value after shorter hr t rest hskip hrest hcomma hclose =>
    obtain ⟨read, rfl, hread⟩ := hitem.of_ok hr
    obtain ⟨b, rfl, hb⟩ := exists_breaks_append hskip
    refine ⟨read ++ b ++ [t], by simp, ?_⟩
    simpa [hclose] using Items.last hread hb
  | case6 =>
    intro he
    exact absurd he hmissing

/-- A list that the end cuts off can be completed to one that is not empty. -/
theorem listUpTo_incomplete (hitem : item.Sound view G) {ts rest : List Token}
    {h : ts.length < n} {e : ParseError}
    (hr : listUpTo close missing line item ts h = .fail e rest) (hmissing : missing ≠ .endOfInput)
    (he : e.cause = .endOfInput) :
    ∃ more vs, Filled G close (ts.map Token.symbol ++ more) vs := by
  obtain ⟨_, _, _, _, _, hok⟩ | ⟨h', _, _, hitems⟩ := listUpTo_cases close missing line item ts h
  · rw [hok] at hr
    cases hr
  · obtain ⟨b, hb, hbreaks⟩ := exists_breaks_append (rfl : skipNewLines ts = _)
    have hsound : Reply.Sound (List.map view) (Filled G close) (b ++ skipNewLines ts)
        (.fail (n := ts.length + 1) e rest) := by
      rw [← hr, hitems]
      exact ((items_sound hitem hmissing _ h').prepend b fun _ _ => .intro hbreaks).widen
    rw [← hb] at hsound
    exact hsound he

variable (close missing line) in
theorem listUpTo_sound (hitem : item.Sound view G) (hmissing : missing ≠ .endOfInput)
    (ts : List Token) (h : ts.length < n) :
    (listUpTo close missing line item ts h).Sound (List.map view) (Listed G close) ts := by
  obtain ⟨b, hb, hbreaks⟩ := exists_breaks_append (rfl : skipNewLines ts = _)
  obtain ⟨t, rest, _, hskip, hclose, hok⟩ | ⟨h', _, _, hitems⟩ :=
    listUpTo_cases close missing line item ts h
  · rw [hok]
    refine ⟨b ++ [t], ?_, ?_⟩
    · rw [hb, hskip]
      simp
    · simpa [hclose] using Listed.empty hbreaks
  · rw [hitems]
    have hsound : Reply.Sound (List.map view) (Listed G close) (b ++ skipNewLines ts)
        (items close missing line item (skipNewLines ts) h') :=
      (items_sound hitem hmissing _ h').prepend b fun _ _ hw => .filled (.intro hbreaks hw)
    rw [← hb] at hsound
    exact hsound.widen

end

/-! Operands. -/

section
variable {G : Form Expr} {inner : Reader Expr n}

theorem row_sound (hinner : inner.Sound Expr.unlined G) (hG : ∃ w e, G w e) :
    Reader.Sound (List.map Expr.unlined) (Row G) (row inner) := by
  intro ts h
  unfold row
  split
  · intro _
    obtain ⟨w, e, hw⟩ := hG
    refine ⟨.openBracket :: (w ++ [.closeBracket]), [e], ?_⟩
    have hlast : Items G .closeBracket _ [e] := .last hw breaks_nil
    simpa using Row.intro (.intro breaks_nil hlast)
  · next t rest h =>
    split
    · next hopen =>
      have hlist := listUpTo_sound .closeBracket .bracketExpected t.line hinner nofun rest
        (Nat.lt_of_succ_lt h)
      split
      · next e after hr =>
        intro he
        obtain ⟨more, es, hmore⟩ := listUpTo_incomplete hinner hr nofun he
        refine ⟨more, es, ?_⟩
        rw [List.map_cons, hopen]
        exact .intro hmore
      · nofun
      · next x xs after shorter hr =>
        rw [hr] at hlist
        obtain ⟨read, rfl, hread⟩ := hlist
        refine ⟨t :: read, rfl, ?_⟩
        rw [List.map_cons, hopen]
        exact .intro (Filled.of_listed hread)
    · nofun

theorem matrix_sound (hinner : inner.Sound Expr.unlined G) (hG : ∃ w e, G w e) (t : Token)
    (ht : t.symbol = .openBracket) (ts : List Token) (h : ts.length < n) :
    (matrix inner t.line ts h).Sound Expr.unlined (Primary G) (t :: ts) := by
  have hrow := row_sound hinner hG
  have hlist := listUpTo_sound .closeBracket .bracketExpected t.line hrow nofun ts h
  unfold matrix
  split
  · next e after hr =>
    intro he
    obtain ⟨more, rows, hmore⟩ := listUpTo_incomplete hrow hr nofun he
    refine ⟨more, .rows rows 0, ?_⟩
    rw [List.map_cons, ht]
    exact .matrix hmore
  · nofun
  · next r rs after shorter hr =>
    rw [hr] at hlist
    obtain ⟨read, rfl, hread⟩ := hlist
    refine ⟨t :: read, rfl, ?_⟩
    rw [List.map_cons, ht, Expr.unlined, Expr.mapLine_rows]
    exact .matrix (Filled.of_listed hread)

theorem grouping_sound (hinner : inner.Sound Expr.unlined G) (t : Token)
    (ht : t.symbol = .openParen) (ts : List Token) (h : ts.length < n) :
    (grouping inner t.line ts h).Sound Expr.unlined (Primary G) (t :: ts) := by
  unfold grouping
  split
  · next e after hr =>
    intro he
    obtain ⟨more, v, hmore⟩ := hinner.of_fail hr he
    refine ⟨more ++ [.closeParen], v, ?_⟩
    simpa [ht] using Primary.group hmore breaks_nil
  · next value after shorter hr =>
    obtain ⟨read, rfl, hread⟩ := hinner.of_ok hr
    split
    · next hskip =>
      obtain ⟨b, rfl, hb⟩ := exists_breaks_append hskip
      intro _
      exact ⟨[.closeParen], value.unlined, by simpa [ht] using Primary.group hread hb⟩
    · next u rest hskip =>
      obtain ⟨b, rfl, hb⟩ := exists_breaks_append hskip
      split
      · next hclose =>
        refine ⟨t :: (read ++ b ++ [u]), by simp, ?_⟩
        simpa [ht, hclose] using Primary.group hread hb
      · intro he
        cases he

theorem call_sound (hinner : inner.Sound Expr.unlined G) (t u : Token) {name : String}
    (ht : t.symbol = .identifier name) (hu : u.symbol = .openParen) (ts : List Token)
    (h : ts.length < n) :
    (call inner name t.line ts h).Sound Expr.unlined (Primary G) (t :: u :: ts) := by
  unfold call
  split
  · nofun
  · next f hf =>
    have hlist := listUpTo_sound .closeParen .parenExpected t.line hinner nofun ts h
    refine Reply.Sound.prepend (G := fun w e => Primary G (.identifier name :: .openParen :: w) e)
      ?_ [t, u] ?_
    · exact hlist.map (fun es => .call f es 0) (fun es => Expr.mapLine_call _ _ f es)
        fun w es hw => .call hf hw
    · intro w v hw
      simpa [ht, hu] using hw

theorem named_sound (hinner : inner.Sound Expr.unlined G) (t : Token) {name : String}
    (ht : t.symbol = .identifier name) (ts : List Token) (h : ts.length < n) :
    (named inner name t.line ts h).Sound Expr.unlined (Primary G) (t :: ts) := by
  have hvar : Primary G ([t].map Token.symbol) (Expr.var name t.line).unlined := by
    rw [List.map_singleton, ht]
    exact .name
  unfold named
  split
  · exact ⟨[t], rfl, hvar⟩
  · next u rest h =>
    split
    · next hopen => exact (call_sound hinner t u ht hopen rest _).widen
    · exact ⟨[t], rfl, hvar⟩

theorem primary_sound (hinner : inner.Sound Expr.unlined G) (hG : ∃ w e, G w e) :
    Reader.Sound Expr.unlined (Primary G) (primary inner) := by
  intro ts h
  unfold primary
  split
  · intro _
    exact ⟨[.number 0], _, .number⟩
  · next t rest h =>
    split
    · next q hq =>
      refine ⟨[t], rfl, ?_⟩
      rw [List.map_singleton, hq]
      exact .number
    · next name hname => exact named_sound hinner t hname rest _
    · next hopen => exact grouping_sound hinner t hopen rest _
    · next hopen => exact matrix_sound hinner hG t hopen rest _
    · nofun

/-! Precedence levels. -/

theorem unary_sound (hinner : inner.Sound Expr.unlined G) (hG : ∃ w e, G w e) :
    Reader.Sound Expr.unlined (Unary G) (unary inner) := by
  intro ts h
  have hprimary : ∀ us hus, (primary inner us hus).Sound Expr.unlined (Unary G) us :=
    fun us hus => (primary_sound hinner hG us hus).prepend [] fun _ _ => .of_primary
  induction ts with
  | nil =>
    rw [unary]
    exact hprimary [] h
  | cons t rest ih =>
    have hrest := ih (Nat.lt_of_succ_lt h)
    unfold unary
    split
    · next hbreak =>
      refine (hrest.prepend [t] ?_).widen
      intro w e hw
      simpa [hbreak] using hw.newLine
    · next hminus =>
      refine ((hrest.map (H := fun w e => Unary G (.minus :: w) e) (fun e => .neg e 0)
        (fun e => Expr.mapLine_neg _ _ e) ?_).prepend [t] ?_).widen
      · intro w e hw
        exact .neg breaks_nil hw
      · intro w e hw
        simpa [hminus] using hw
    · exact hprimary (t :: rest) h

end

section
variable {G : Form Expr} {accepts : BinaryOp → Bool} {operator : Symbol → BinaryOp → Prop}
  {operand : Reader Expr n}

/-- Operands that were read before stay in front of those that follow. -/
theorem chain_sound (hoperand : operand.Sound Expr.unlined G) (hop : Accepts accepts operator)
    {left : Expr} {ts : List Token} (h : ts.length < n) {before : List Token}
    (hleft : Chain operator G (before.map Token.symbol) left.unlined) :
    (chain accepts operand left ts h).Sound Expr.unlined (Chain operator G) (before ++ ts) := by
  fun_induction chain accepts operand left ts h generalizing before with
  | case1 left ts h hnone => exact ⟨before, rfl, hleft⟩
  | case2 left ts h op line rest hsome hrest e after hr =>
    obtain ⟨t, rfl, rfl, hsign⟩ := operatorAt?_eq_some hsome
    intro he
    obtain ⟨more, v, hmore⟩ := hoperand.of_fail hr he
    refine ⟨more, .binary op left.unlined v 0, ?_⟩
    simpa using Chain.apply hleft ((hop _ _).mp hsign) hmore
  | case3 left ts h op line rest hsome hrest right after shorter hr hafter ih =>
    obtain ⟨t, rfl, rfl, hsign⟩ := operatorAt?_eq_some hsome
    obtain ⟨read, rfl, hread⟩ := hoperand.of_ok hr
    have hleft' : Chain operator G ((before ++ t :: read).map Token.symbol)
        (Expr.binary op left right t.line).unlined := by
      simpa using Chain.apply hleft ((hop _ _).mp hsign) hread
    simpa using (ih hleft').widen

theorem leftAssociative_sound (hoperand : operand.Sound Expr.unlined G)
    (hop : Accepts accepts operator) :
    Reader.Sound Expr.unlined (Chain operator G) (leftAssociative accepts operand) := by
  intro ts h
  unfold leftAssociative
  split
  · next e after hr =>
    intro he
    obtain ⟨more, v, hmore⟩ := hoperand.of_fail hr he
    exact ⟨more, v, .single hmore⟩
  · next left after shorter hr =>
    obtain ⟨read, rfl, hread⟩ := hoperand.of_ok hr
    exact (chain_sound hoperand hop _ (.single hread)).widen

end

/-- An expression takes a derivation off the front, or the end comes where more symbols complete
one, or the error is another one. -/
theorem expression_sound (ts : List Token) :
    (expression ts).Sound Expr.unlined Expression ts := by
  rw [expression]
  -- Inside brackets fewer tokens are left, which is what the recursion is on.
  have hinner : Reader.Sound Expr.unlined Expression
      (fun (shorter : List Token) (_ : shorter.length < ts.length) => expression shorter) :=
    fun shorter _ => expression_sound shorter
  have hsum := leftAssociative_sound (leftAssociative_sound (unary_sound hinner exists_expression)
    accepts_isMultiplicative) accepts_isAdditive ts (Nat.lt_succ_self _)
  exact hsum.prepend [] fun _ _ => .intro
termination_by ts.length

/-! Statements. -/

section
variable {G : Form Statement} {inner : Reader Statement n}

theorem body_sound (hinner : inner.Sound Statement.unlined G) (line : Nat) (ts : List Token)
    (h : ts.length < n) :
    (body inner line ts h).Sound (List.map Statement.unlined) (Body G) ts := by
  fun_induction body inner line ts h with
  | case1 ts h hskip =>
    intro _
    obtain ⟨b, rfl, hb⟩ := exists_separators_append hskip
    exact ⟨[.closeBrace], [], b.map Token.symbol, by simp, .nil hb⟩
  | case2 ts h t rest hskip hrest hclose =>
    obtain ⟨b, rfl, hb⟩ := exists_separators_append hskip
    exact ⟨b ++ [t], by simp, b.map Token.symbol, by simp [hclose], .nil hb⟩
  | case3 ts h t rest hskip hrest hclose e after hr =>
    intro he
    obtain ⟨b, rfl, hb⟩ := exists_separators_append hskip
    obtain ⟨more, s, hmore⟩ := hinner.of_fail hr he
    refine ⟨more ++ [.closeBrace], [s], _, ?_, .single hb hmore⟩
    simp
  | case4 ts h t rest hskip hrest hclose s after shorter hr hafter e hend =>
    intro he
    obtain ⟨b, rfl, hb⟩ := exists_separators_append hskip
    obtain ⟨read, hts, hread⟩ := hinner.of_ok hr
    obtain ⟨-, rfl⟩ := eq_nil_of_afterStatement hend he
    refine ⟨[.closeBrace], [s.unlined], _, ?_, .single hb hread⟩
    simp [hts]
  | case5 ts h t rest hskip hrest hclose s after shorter hr hafter hend e left hrec ih =>
    intro he
    obtain ⟨b, rfl, hb⟩ := exists_separators_append hskip
    obtain ⟨read, hts, hread⟩ := hinner.of_ok hr
    obtain ⟨u, us, rfl, hu | hu⟩ := afterStatement_true_eq_none.mp hend
    · rw [hrec] at ih
      obtain ⟨more, ss, v, hv, hss⟩ := ih he
      have hended : Ended (v ++ [.closeBrace]) := hv ▸ ended_cons.mpr hu
      refine ⟨more, s.unlined :: ss, _, ?_, .cons hb hread hended.of_append hss⟩
      rw [hts]
      simp [← hv]
    · -- In front of the closing brace the rest cannot fail.
      rw [body_closeBrace inner line _ hu] at hrec
      cases hrec
  | case6 ts h t rest hskip hrest hclose s after shorter hr hafter hend ss left fewer hrec ih =>
    obtain ⟨b, rfl, hb⟩ := exists_separators_append hskip
    obtain ⟨read, hts, hread⟩ := hinner.of_ok hr
    obtain ⟨u, us, rfl, hu | hu⟩ := afterStatement_true_eq_none.mp hend
    · rw [hrec] at ih
      obtain ⟨read', hread', v, hv, hss⟩ := ih
      -- The separator is part of what the rest read, not of what it left.
      have hended : Ended (v ++ [.closeBrace]) := by
        cases read' with
        | nil => simp at hv
        | cons u' us' =>
          obtain ⟨rfl, -⟩ := List.cons.inj hread'
          exact hv ▸ ended_cons.mpr hu
      refine ⟨b ++ read ++ read', by simp [hts, hread'], _, ?_, .cons hb hread hended.of_append hss⟩
      simp [hv]
    · rw [body_closeBrace inner line _ hu] at hrec
      cases hrec
      refine ⟨b ++ read ++ [u], by simp [hts], _, ?_, .single hb hread⟩
      simp [hu]

theorem blockWith_sound (hinner : inner.Sound Statement.unlined Grammar.Statement) (t : Token)
    (ht : t.symbol = .openBrace) (ts : List Token) (h : ts.length < n) :
    (blockWith inner t.line ts h).Sound Statement.unlined Grammar.Statement (t :: ts) := by
  have hbody := body_sound hinner t.line ts h
  refine Reply.Sound.prepend (G := fun w s => Grammar.Statement (.openBrace :: w) s) ?_ [t] ?_
  · refine hbody.map (fun ss => .block ss 0) (fun ss => Statement.mapLine_block _ _ ss) ?_
    rintro _ ss ⟨w, rfl, hw⟩
    exact .block hw
  · intro w s hw
    simpa [ht] using hw

end

theorem simpleStatement_sound (ts : List Token) :
    (simpleStatement ts).Sound Statement.unlined Grammar.Statement ts := by
  unfold simpleStatement
  split
  · next name line equalsLine rest =>
    split
    · nofun
    · next hname =>
      refine (((expression_sound rest).map
        (H := fun w s => Grammar.Statement (.identifier name :: .equals :: w) s)
        (fun e => .assign name e 0) (fun e => Statement.mapLine_assign _ _ name e)
        ?_).prepend [⟨.identifier name, line⟩, ⟨.equals, equalsLine⟩] fun w s hw => hw).widen
      intro w e hw
      exact .assign hname hw
  · exact (expression_sound ts).map (fun e => .evaluate e 0)
      (fun e => Statement.mapLine_evaluate _ _ e) fun w e hw => .evaluate hw

theorem statement_sound (ts : List Token) :
    (statement ts).Sound Statement.unlined Grammar.Statement ts := by
  rw [statement]
  unfold statementWith
  split
  · next line rest hbrace =>
    obtain ⟨t, rfl, rfl, ht⟩ := braceAt?_eq_some hbrace
    have hinner : Reader.Sound Statement.unlined Grammar.Statement
        (fun (us : List Token) (_ : us.length < (t :: rest).length) => statement us) :=
      fun us _ => statement_sound us
    exact (blockWith_sound hinner t ht rest _).widen
  · exact simpleStatement_sound ts
termination_by ts.length

/-- A program is derived from all of its tokens. -/
theorem statements_sound {lastLine : Nat} {ts : List Token} {ss : List Statement}
    (h : statements lastLine ts = .ok ss) :
    Program (ts.map Token.symbol) (ss.map Statement.unlined) := by
  fun_induction statements lastLine ts generalizing ss with
  | case1 ts hskip =>
    cases h
    obtain ⟨b, rfl, hb⟩ := exists_separators_append hskip
    exact .nil (by simpa using hb)
  | case4 ts t rest hskip s after shorter hr hafter hend ss' hrec ih =>
    cases h
    obtain ⟨b, rfl, hb⟩ := exists_separators_append hskip
    have hstatement := statement_sound (t :: rest)
    rw [hr] at hstatement
    obtain ⟨read, hts, hread⟩ := hstatement
    rw [hts, List.map_append, List.map_append, ← List.append_assoc]
    exact .cons hb hread (afterStatement_false_eq_none.mp hend) (ih hrec)
  | case2 | case3 | case5 => cases h

/-- If the end of the tokens is what is wrong with a program, more symbols complete it. -/
theorem statements_incomplete {lastLine : Nat} {ts : List Token} {e : ParseError}
    (h : statements lastLine ts = .error e) (he : e.cause = .endOfInput) :
    ∃ more p, Program (ts.map Token.symbol ++ more) p := by
  fun_induction statements lastLine ts with
  | case1 => cases h
  | case2 ts t rest hskip error after hr =>
    have hend : error.cause = .endOfInput := by
      cases hincomplete : error.isIncomplete with
      | true => simpa [ParseError.isIncomplete] using hincomplete
      | false =>
        simp only [hincomplete] at h
        cases h
        exact he
    obtain ⟨b, rfl, hb⟩ := exists_separators_append hskip
    have hstatement := statement_sound (t :: rest)
    rw [hr] at hstatement
    obtain ⟨more, s, hmore⟩ := hstatement hend
    refine ⟨more, [s], ?_⟩
    rw [List.map_append, List.append_assoc]
    exact .single hb hmore
  | case3 ts t rest hskip s after shorter hr hafter error hend =>
    cases h
    cases (eq_nil_of_afterStatement hend he).1
  | case4 => cases h
  | case5 ts t rest hskip s after shorter hr hafter hend error hrec ih =>
    cases h
    obtain ⟨b, rfl, hb⟩ := exists_separators_append hskip
    have hstatement := statement_sound (t :: rest)
    rw [hr] at hstatement
    obtain ⟨read, hts, hread⟩ := hstatement
    obtain ⟨more, p, hp⟩ := ih hrec
    refine ⟨more, s.unlined :: p, ?_⟩
    rw [hts, List.map_append, List.map_append, ← List.append_assoc, List.append_assoc]
    refine .cons hb hread ?_ hp
    -- The rest fails, so it is not empty, and what ends the statement is already there.
    cases after with
    | nil =>
      rw [statements_nil] at hrec
      cases hrec
    | cons u us =>
      have hu := afterStatement_false_eq_none.mp hend
      exact ended_cons.mpr (ended_cons.mp hu)

end Reading

end ExactLinear
