import ExactLinear.Proofs.LongestLexeme
import ExactLinear.Proofs.Numeral
import ExactLinear.Syntax.Writing

/- The text of a list of symbols spells these symbols: every symbol is a lexeme by
   itself, and it stays the same with the next symbols behind it. -/
namespace ExactLinear

open Lexeme

namespace Symbol

/-- That the text of a symbol is one lexeme. -/
def Spellable : Symbol → Prop
  | .number q => Decimal.Terminating q
  | .identifier name => IsName name
  | _ => True

/-- The lexeme that the text of a symbol is. -/
def lexeme : Symbol → Lexeme
  | .number q => .number (Decimal.wholeDigits q) (Decimal.fractionDigits q)
  | .identifier name => .identifier name.toList
  | .newLine => .lineBreak
  | s => .sign s

theorem symbol?_lexeme {s : Symbol} (hs : s.Spellable) : s.lexeme.symbol? = some s := by
  cases s with
  | number q => rw [lexeme, Lexeme.symbol?, Decimal.value_digits hs]
  | identifier name => rw [lexeme, Lexeme.symbol?, String.ofList_toList]
  | _ => rfl

end Symbol

namespace Lexeme

theorem first?_name {name : String} (h : IsName name) :
    first? name.toList = some (.identifier name.toList, []) := by
  obtain ⟨c, cs, hname, hc, hcs⟩ := h
  rw [hname]
  exact first?_of_spelled
    (.name (isNameStart_iff.mp hc) fun a ha => isNamePart_iff.mp (hcs a ha))

theorem spelled_numeral (q : Scalar) :
    Spelled (Decimal.numeral q)
      (.number (Decimal.wholeDigits q) (Decimal.fractionDigits q)) := by
  have hwhole : Digits (Decimal.wholeDigits q) :=
    digits_of_isDigit (Decimal.wholeDigits_ne_nil q) Decimal.isDigit_of_mem_wholeDigits
  rw [Decimal.numeral]
  by_cases hplaces : Decimal.places q = 0
  · have hfraction : Decimal.fractionDigits q = [] := by
      rw [Decimal.fractionDigits, hplaces]
      rfl
    rw [if_pos hplaces, hfraction, List.append_nil]
    exact .whole hwhole
  · have hne : Decimal.fractionDigits q ≠ [] := by
      rw [← List.length_pos_iff, Decimal.fractionDigits, Decimal.length_lastDigits]
      omega
    rw [if_neg hplaces]
    exact .decimal hwhole (digits_of_isDigit hne Decimal.isDigit_of_mem_lastDigits)

end Lexeme

namespace Symbol
variable {s t : Symbol}

theorem first?_spelling (hs : s.Spellable) : first? s.spelling = some (s.lexeme, []) := by
  cases s with
  | number q => exact first?_of_spelled (spelled_numeral q)
  | identifier name => exact first?_name hs
  | _ => rfl

/-- The text of a word begins with a letter, an underscore or a digit, which is no slash. -/
theorem ne_slash_of_isWord (hs : s.Spellable) (hword : s.isWord = true) :
    ∀ c ∈ s.spelling.head?, c ≠ '/' := by
  rintro c hc rfl
  cases s with
  | number q =>
    obtain ⟨d, ds, hds⟩ := List.exists_cons_of_ne_nil (Decimal.wholeDigits_ne_nil q)
    have hmem : d ∈ Decimal.wholeDigits q := hds ▸ List.mem_cons_self
    have hd : d.isDigit = true := Decimal.isDigit_of_mem_wholeDigits d hmem
    rw [spelling, Decimal.numeral, hds] at hc
    cases hc
    cases hd
  | identifier name =>
    obtain ⟨d, ds, hname, hd, -⟩ := hs
    rw [spelling, hname] at hc
    cases hc
    cases hd
  | _ => cases hword

/-- What can stand behind a symbol without a space does not make its lexeme longer. -/
theorem takes_eq_false (ht : t.Spellable) (h : s.runsInto t = false) :
    ∀ c ∈ t.spelling.head?, s.lexeme.takes c = false := by
  intro c hc
  cases s with
  | number q =>
    have hword : t.isWord = false := by simpa [runsInto, isWord] using h
    cases t <;> first | (cases hc; rfl) | cases hword
  | identifier name =>
    have hword : t.isWord = false := by simpa [runsInto, isWord] using h
    cases t <;> first | (cases hc; rfl) | cases hword
  | slash =>
    cases hword : t.isWord with
    | true =>
      have hne := ne_slash_of_isWord ht hword c hc
      simp [lexeme, takes, hne]
    | false => cases t <;> first | (cases hc; rfl) | (cases hword; done) | cases h
  | _ => rfl

theorem takes_space (s : Symbol) : s.lexeme.takes ' ' = false := by
  cases s <;> rfl

theorem spelling_ne_nil (hs : s.Spellable) : s.spelling ≠ [] := by
  intro hnil
  have hfirst := first?_spelling hs
  rw [hnil] at hfirst
  cases hfirst

end Symbol

/-! Lists of symbols. -/

/-- The text of a symbol, in front of a text that its lexeme does not go on with. -/
theorem Spells.symbol {s : Symbol} (hs : s.Spellable) {cs : List Char} {w : List Symbol}
    (h : Spells cs w) (hcut : ∀ c ∈ cs.head?, s.lexeme.takes c = false) :
    Spells (s.spelling ++ cs) (s :: w) := by
  have hspells := Spells.cons (first?_append (Symbol.first?_spelling hs) hcut) h
  rwa [Symbol.symbol?_lexeme hs] at hspells

theorem Spells.dropBlanks {cs : List Char} {w : List Symbol} (h : Spells cs w) :
    Spells (cs.dropWhile isBlank) w := by
  cases h with
  | nil => exact .nil
  | @cons _ rest l v hfirst hrest =>
    cases cs with
    | nil => cases hfirst
    | cons c cs =>
      cases hc : isBlank c with
      | false =>
        rw [List.dropWhile_cons_of_neg (by simp [hc])]
        exact .cons hfirst hrest
      | true =>
        rw [first?, startingWith?_of_isBlank hc] at hfirst
        cases hfirst
        rw [List.dropWhile_cons_of_pos hc]
        exact hrest

/-- Spaces in front of a text spell nothing. -/
theorem Spells.spaces {cs : List Char} {w : List Symbol} (h : Spells cs w) (n : Nat) :
    Spells (List.replicate n ' ' ++ cs) w := by
  induction n with
  | zero => exact h
  | succ n ih => exact .cons (l := .blank) (startingWith?_of_isBlank rfl _) ih.dropBlanks

namespace Layout
variable (L : Layout)

theorem head?_spell {t : Symbol} (ht : t.Spellable) (rest : List Symbol) :
    (L.spell (t :: rest)).head? = t.spelling.head? := by
  obtain ⟨c, cs, hcs⟩ := List.exists_cons_of_ne_nil (Symbol.spelling_ne_nil ht)
  cases rest <;> simp [spell, hcs]

theorem spells_spell {w : List Symbol} (hw : ∀ s ∈ w, s.Spellable) :
    Spells (L.spell w) w := by
  fun_induction L.spell w with
  | case1 => exact .nil
  | case2 s =>
    have hspells := Spells.symbol (hw s List.mem_cons_self) .nil (by simp)
    rwa [List.append_nil] at hspells
  | case3 s t rest ih =>
    obtain ⟨hs, hrest⟩ := List.forall_mem_cons.mp hw
    have ht := hrest t List.mem_cons_self
    have htail := (ih hrest).spaces (L.gap s t + if s.runsInto t then 1 else 0)
    have hcut : ∀ c ∈ (List.replicate (L.gap s t + if s.runsInto t then 1 else 0) ' ' ++
        L.spell (t :: rest)).head?, s.lexeme.takes c = false := by
      cases hspaces : L.gap s t + if s.runsInto t then 1 else 0 with
      | zero =>
        -- No space is put only where the next symbol may come right behind.
        have happart : s.runsInto t = false := by
          cases happart : s.runsInto t with
          | false => rfl
          | true => simp [happart] at hspaces
        rw [List.replicate_zero, List.nil_append, L.head?_spell ht]
        exact Symbol.takes_eq_false ht happart
      | succ n =>
        rintro c ⟨⟩
        exact s.takes_space
    rw [List.append_assoc]
    exact .symbol hs htail hcut

end Layout

end ExactLinear
