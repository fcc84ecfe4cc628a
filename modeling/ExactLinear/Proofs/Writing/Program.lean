import ExactLinear.Proofs.Reading.Program
import ExactLinear.Proofs.Writing.Text

/- What is written is read back. The symbols of a program, in whatever layout, are
   derived for its tree; a text spells its symbols; so parsing the text of a program
   gives the program again, up to lines. -/
namespace ExactLinear

open Grammar

namespace Grammar

/-- The form of expressions that bind at least as tightly as the level says. -/
def formAt : Nat → Form Expr
  | 0 => Chain Additive (Chain Multiplicative (Unary Expression))
  | 1 => Chain Multiplicative (Unary Expression)
  | 2 => Unary Expression
  | _ => Primary Expression

theorem formAt_of_le {n m : Nat} (h : n ≤ m) {w : List Symbol} {e : Expr} (he : formAt m w e) :
    formAt n w e := by
  induction h with
  | refl => exact he
  | @step m _ ih =>
    refine ih ?_
    match m with
    | 0 => exact .single he
    | 1 => exact .single he
    | 2 => exact .of_primary he
    | _ + 3 => exact he

end Grammar

namespace Layout
variable {α β : Type} {G : Form β} {L : Layout}

/-! Derivations. -/

theorem enclose_derived (L : Layout) {least : Nat} (hleast : least ≤ 3) {e e' : Expr}
    {w : List Symbol} (h : formAt e.level w e') : formAt least (L.enclose least e w) e' := by
  unfold enclose
  split
  · have hgroup : Primary Expression (.openParen :: (w ++ [.closeParen])) e' := by
      simpa using Primary.group (.intro (formAt_of_le (Nat.zero_le _) h)) breaks_nil
    exact formAt_of_le hleast hgroup
  · next hplain => exact formAt_of_le (Nat.le_of_not_lt fun hlt => hplain (.inl hlt)) h

theorem items_derived {f : α → List Symbol} {g : α → β} (close : Symbol) {x : α} {xs : List α}
    (h : ∀ y ∈ x :: xs, G (f y) (g y)) :
    Items G close (listed close ((x :: xs).map f)) ((x :: xs).map g) := by
  induction xs generalizing x with
  | nil =>
    have hlast : Items G close (f x ++ [] ++ [close]) [g x] :=
      .last (h x List.mem_cons_self) breaks_nil
    simpa [listed] using hlast
  | cons y ys ih =>
    obtain ⟨hx, hys⟩ := List.forall_mem_cons.mp h
    simpa [listed] using Items.next hx breaks_nil breaks_nil (ih hys)

theorem filled_derived {f : α → List Symbol} {g : α → β} (close : Symbol) {xs : List α}
    (hne : xs ≠ []) (h : ∀ y ∈ xs, G (f y) (g y)) :
    Filled G close (listed close (xs.map f)) (xs.map g) := by
  obtain ⟨x, xs, rfl⟩ := List.exists_cons_of_ne_nil hne
  exact .intro breaks_nil (items_derived close h)

theorem listed_derived {f : α → List Symbol} {g : α → β} (close : Symbol) {xs : List α}
    (h : ∀ y ∈ xs, G (f y) (g y)) :
    Listed G close (listed close (xs.map f)) (xs.map g) := by
  cases xs with
  | nil => exact .empty breaks_nil
  | cons x xs => exact .filled (filled_derived close (List.cons_ne_nil x xs) h)

theorem itemsOf_eq (es : List Expr) : L.itemsOf es = es.map (L.expression 0) := by
  induction es with
  | nil => rfl
  | cons e es ih => rw [itemsOf, ih, List.map_cons, expression]

/-- A row of a matrix. -/
def row (L : Layout) (es : List Expr) : List Symbol :=
  .openBracket :: listed .closeBracket (es.map (L.expression 0))

theorem rowsOf_eq (entries : List (List Expr)) : L.rowsOf entries = entries.map L.row := by
  induction entries with
  | nil => rfl
  | cons es entries ih => rw [rowsOf, ih, itemsOf_eq, List.map_cons, row]

theorem ofName?_name (f : Builtin) : Builtin.ofName? f.name = some f := by
  cases f <;> decide

theorem bare_derived {e : Expr} (he : e.Writable) : formAt e.level (L.bare e) e.unlined := by
  induction he with
  | literal => exact Primary.number
  | var => exact Primary.name
  | @neg operand line _ ih =>
    have hoperand : formAt 2 _ _ := L.enclose_derived (by decide) ih
    exact Unary.neg breaks_nil hoperand
  | @binary op left right line _ _ ihl ihr =>
    -- The left operand may be of the same level, the right one must bind tighter.
    cases op with
    | add =>
      have hl : formAt 0 _ _ := L.enclose_derived (by decide) ihl
      have hr : formAt 1 _ _ := L.enclose_derived (by decide) ihr
      exact .apply hl .plus hr
    | sub =>
      have hl : formAt 0 _ _ := L.enclose_derived (by decide) ihl
      have hr : formAt 1 _ _ := L.enclose_derived (by decide) ihr
      exact .apply hl .minus hr
    | mul =>
      have hl : formAt 1 _ _ := L.enclose_derived (by decide) ihl
      have hr : formAt 2 _ _ := L.enclose_derived (by decide) ihr
      exact .apply hl .star hr
    | div =>
      have hl : formAt 1 _ _ := L.enclose_derived (by decide) ihl
      have hr : formAt 2 _ _ := L.enclose_derived (by decide) ihr
      exact .apply hl .slash hr
  | @call f arguments line _ ih =>
    have harguments : ∀ e ∈ arguments, Expression (L.expression 0 e) e.unlined := by
      intro e he
      have h : formAt 0 _ _ := L.enclose_derived (by decide) (ih e he)
      exact .intro h
    rw [bare, itemsOf_eq, Expr.unlined, Expr.mapLine_call]
    exact Primary.call (ofName?_name f) (listed_derived _ harguments)
  | @rows entries line hne hrows _ ih =>
    have hentries : ∀ es ∈ entries, Row Expression (L.row es) (es.map Expr.unlined) := by
      intro es hes
      refine .intro (filled_derived _ (hrows es hes) fun e he => ?_)
      have h : formAt 0 _ _ := L.enclose_derived (by decide) (ih es hes e he)
      exact .intro h
    rw [bare, rowsOf_eq, Expr.unlined, Expr.mapLine_rows]
    exact Primary.matrix (filled_derived _ hne hentries)

theorem expression_derived {e : Expr} (he : e.Writable) :
    Expression (L.expression 0 e) e.unlined := by
  have h : formAt 0 (L.expression 0 e) e.unlined := L.enclose_derived (by decide) (bare_derived he)
  exact .intro h

theorem isSeparator_separator (s : Statement) : (L.separator s).isSeparator = true := by
  unfold separator
  split <;> rfl

theorem statements_derived {ss : List Statement}
    (h : ∀ s ∈ ss, Grammar.Statement (L.statement s) s.unlined) :
    Program (L.statements ss) (ss.map Statement.unlined) := by
  induction ss with
  | nil => exact .nil separators_nil
  | cons s rest ih =>
    obtain ⟨hs, hrest⟩ := List.forall_mem_cons.mp h
    cases rest with
    | nil => exact .single separators_nil hs
    | cons t rest =>
      have hseparator : Separators [L.separator s] :=
        List.forall_mem_singleton.mpr (isSeparator_separator s)
      exact .cons separators_nil hs (ended_cons.mpr (isSeparator_separator s))
        (Statements.of_separators hseparator (ih hrest))

theorem statement_derived {s : Statement} (hs : s.Writable) :
    Grammar.Statement (L.statement s) s.unlined := by
  induction hs with
  | assign _ hreserved he => exact .assign hreserved (expression_derived he)
  | evaluate he => exact .evaluate (expression_derived he)
  | @block body line _ ih =>
    rw [Statement.unlined, Statement.mapLine_block, statement]
    exact .block (statements_derived ih)

/-! Spellings. -/

theorem isName_name (f : Builtin) : Lexeme.IsName f.name := by
  cases f <;> decide +kernel

theorem spellable_enclose {least : Nat} {e : Expr} {w : List Symbol} (h : ∀ s ∈ w, s.Spellable) :
    ∀ s ∈ L.enclose least e w, s.Spellable := by
  unfold enclose
  split
  · simpa [Symbol.Spellable, or_imp, forall_and] using h
  · exact h

theorem spellable_listed {close : Symbol} (hclose : close.Spellable) {ws : List (List Symbol)}
    (h : ∀ w ∈ ws, ∀ s ∈ w, s.Spellable) : ∀ s ∈ listed close ws, s.Spellable := by
  fun_induction listed close ws with
  | case1 => simpa using hclose
  | case2 w =>
    have hw := h w List.mem_cons_self
    simpa [or_imp, forall_and] using ⟨hw, hclose⟩
  | case3 w ws _ ih =>
    obtain ⟨hw, hws⟩ := List.forall_mem_cons.mp h
    exact List.forall_mem_append.mpr ⟨hw, List.forall_mem_cons.mpr ⟨trivial, ih hws⟩⟩

theorem spellable_items {close : Symbol} (hclose : close.Spellable) {es : List Expr}
    (h : ∀ e ∈ es, ∀ s ∈ L.bare e, s.Spellable) :
    ∀ s ∈ listed close (es.map (L.expression 0)), s.Spellable :=
  spellable_listed hclose (List.forall_mem_map.mpr fun e he => spellable_enclose (h e he))

theorem spellable_bare {e : Expr} (he : e.Writable) : ∀ s ∈ L.bare e, s.Spellable := by
  induction he with
  | literal hq => exact List.forall_mem_singleton.mpr hq
  | var hname => exact List.forall_mem_singleton.mpr hname
  | neg _ ih => exact List.forall_mem_cons.mpr ⟨trivial, spellable_enclose ih⟩
  | @binary op _ _ _ _ _ ihl ihr =>
    have hop : op.symbol.Spellable := by
      cases op <;> trivial
    exact List.forall_mem_append.mpr
      ⟨spellable_enclose ihl, List.forall_mem_cons.mpr ⟨hop, spellable_enclose ihr⟩⟩
  | @call f _ _ _ ih =>
    have hclose : Symbol.closeParen.Spellable := trivial
    rw [bare, itemsOf_eq]
    exact List.forall_mem_cons.mpr ⟨isName_name f,
      List.forall_mem_cons.mpr ⟨trivial, spellable_items hclose ih⟩⟩
  | rows _ _ _ ih =>
    have hclose : Symbol.closeBracket.Spellable := trivial
    rw [bare, rowsOf_eq]
    refine List.forall_mem_cons.mpr
      ⟨trivial, spellable_listed hclose (List.forall_mem_map.mpr fun es hes => ?_)⟩
    exact List.forall_mem_cons.mpr ⟨trivial, spellable_items hclose (ih es hes)⟩

theorem spellable_expression {e : Expr} (he : e.Writable) :
    ∀ s ∈ L.expression 0 e, s.Spellable := spellable_enclose (spellable_bare he)

theorem spellable_statements {ss : List Statement}
    (h : ∀ s ∈ ss, ∀ t ∈ L.statement s, t.Spellable) :
    ∀ t ∈ L.statements ss, t.Spellable := by
  induction ss with
  | nil => exact List.forall_mem_nil _
  | cons s rest ih =>
    obtain ⟨hs, hrest⟩ := List.forall_mem_cons.mp h
    cases rest with
    | nil => exact hs
    | cons t rest =>
      have hseparator : (L.separator s).Spellable := by
        unfold separator
        split <;> trivial
      exact List.forall_mem_append.mpr ⟨hs, List.forall_mem_cons.mpr ⟨hseparator, ih hrest⟩⟩

theorem spellable_statement {s : Statement} (hs : s.Writable) :
    ∀ t ∈ L.statement s, t.Spellable := by
  induction hs with
  | assign hname _ he =>
    exact List.forall_mem_cons.mpr ⟨hname,
      List.forall_mem_cons.mpr ⟨trivial, spellable_expression he⟩⟩
  | evaluate he => exact spellable_expression he
  | block _ ih =>
    exact List.forall_mem_cons.mpr ⟨trivial, List.forall_mem_append.mpr
      ⟨spellable_statements ih, List.forall_mem_singleton.mpr trivial⟩⟩

/-! Texts. -/

/-- What is written in any layout is read back. -/
theorem exists_parse_text (L : Layout) {p : List Statement} (hp : ∀ s ∈ p, s.Writable) :
    ∃ q, parse (L.text p) = .ok q ∧ q.map Statement.unlined = p.map Statement.unlined := by
  have hspells : Spells (L.text p).toList (L.statements p) := by
    rw [text, String.toList_ofList]
    exact L.spells_spell (spellable_statements fun s hs => spellable_statement (hp s hs))
  have hderived : Program (L.statements p) (p.map Statement.unlined) :=
    statements_derived fun s hs => statement_derived (hp s hs)
  exact exists_parse_iff.mpr ⟨_, hspells, hderived⟩

end Layout

/-- A program is read back, up to lines, from its text with the needed parentheses only and from
its text with all of them, whichever separators and spaces are put. -/
theorem parse_text_minimal_full (semicolon : Statement → Bool) (gap : Symbol → Symbol → Nat)
    {p : List Statement} (hp : ∀ s ∈ p, s.Writable) :
    (∃ q, parse ((Layout.minimal semicolon gap).text p) = .ok q ∧
      q.map Statement.unlined = p.map Statement.unlined) ∧
    ∃ q, parse ((Layout.full semicolon gap).text p) = .ok q ∧
      q.map Statement.unlined = p.map Statement.unlined :=
  ⟨Layout.exists_parse_text _ hp, Layout.exists_parse_text _ hp⟩

/-- An assignment of a difference whose subtrahend is one, and an empty block. -/
def differences : List Statement :=
  [.assign "x" (.binary .sub (.literal (.scalar (1 / 2)) 1)
    (.binary .sub (.var "y" 1) (.literal (.scalar 2) 1) 1) 1) 1, .block [] 1]

theorem parse_text_minimal_full_differences :
    (∀ s ∈ differences, s.Writable) ∧
    (∃ q, parse "x=0.5-(y-2);\x7b\x7d" = .ok q ∧
      q.map Statement.unlined = differences.map Statement.unlined) ∧
    ∃ q, parse "x=((0.5)-((y)-(2)));\x7b\x7d" = .ok q ∧
      q.map Statement.unlined = differences.map Statement.unlined := by
  have hhalf : Decimal.Terminating (1 / 2) := ⟨by decide +kernel, 1, by decide +kernel⟩
  have htwo : Decimal.Terminating 2 := ⟨by decide +kernel, 0, by decide +kernel⟩
  have hx : Lexeme.IsName "x" := by decide +kernel
  have hy : Lexeme.IsName "y" := by decide +kernel
  have hwritable : ∀ s ∈ differences, s.Writable := by
    refine List.forall_mem_cons.mpr
      ⟨.assign hx (by decide) (.binary (.literal hhalf) (.binary (.var hy) (.literal htwo))), ?_⟩
    exact List.forall_mem_singleton.mpr (.block (List.forall_mem_nil _))
  have hminimal : (Layout.minimal (fun _ => true) fun _ _ => 0).text differences =
      "x=0.5-(y-2);\x7b\x7d" := by
    decide +kernel
  have hfull : (Layout.full (fun _ => true) fun _ _ => 0).text differences =
      "x=((0.5)-((y)-(2)));\x7b\x7d" := by
    decide +kernel
  have htexts := parse_text_minimal_full (fun _ => true) (fun _ _ => 0) hwritable
  rw [hminimal, hfull] at htexts
  exact ⟨hwritable, htexts⟩

end ExactLinear
