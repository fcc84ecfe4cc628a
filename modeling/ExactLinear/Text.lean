/- Texts cut up: what stands between white space, and lines. White space is that of
   Unicode, the characters with the property `White_Space`. -/
namespace ExactLinear

namespace Blank

/-- The ranges of white space, from the first to the last code point of each. -/
def ranges : List (Nat × Nat) :=
  [(0x9, 0xd), (0x20, 0x20), (0x85, 0x85), (0xa0, 0xa0), (0x1680, 0x1680), (0x2000, 0x200a),
    (0x2028, 0x2029), (0x202f, 0x202f), (0x205f, 0x205f), (0x3000, 0x3000)]

def isBlank (c : Char) : Bool := ranges.any fun r => r.1 ≤ c.toNat && c.toNat ≤ r.2

/-- A text without white space at its ends. -/
def trim (cs : List Char) : List Char :=
  (((cs.dropWhile isBlank).reverse).dropWhile isBlank).reverse

end Blank

/-! Words: what stands between white space. White space at the ends and next to other white space
leaves no empty word. -/

namespace Words

def split (cs : List Char) : List (List Char) :=
  (cs.splitOnP Blank.isBlank).filter fun word => !word.isEmpty

@[simp] theorem split_nil : split [] = [] := rfl

theorem split_append_blank {b : Char} (hb : Blank.isBlank b = true) (cs cs' : List Char) :
    split (cs ++ b :: cs') = split cs ++ split cs' := by
  rw [split, List.splitOnP_append_cons cs cs' hb, List.filter_append, split, split]

theorem split_blank {b : Char} (hb : Blank.isBlank b = true) (cs : List Char) :
    split (b :: cs) = split cs := split_append_blank hb [] cs

theorem split_spaces (n : Nat) (cs : List Char) :
    split (List.replicate n ' ' ++ cs) = split cs := by
  induction n with
  | zero => rfl
  | succ n ih =>
    have hspace : Blank.isBlank ' ' = true := rfl
    rw [List.replicate_succ, List.cons_append, split_blank hspace, ih]

/-- A text that begins with white space does not make the last word in front of it longer. -/
theorem split_append {cs' : List Char} (h : ∀ c ∈ cs'.head?, Blank.isBlank c = true)
    (cs : List Char) : split (cs ++ cs') = split cs ++ split cs' := by
  cases cs' with
  | nil => simp
  | cons b cs' =>
    have hb := h b rfl
    rw [split_append_blank hb, split_blank hb]

theorem split_word {word : List Char} (hne : word ≠ [])
    (hword : ∀ c ∈ word, Blank.isBlank c = false) : split word = [word] := by
  rw [split, List.splitOnP_eq_singleton hword, List.filter_cons_of_pos (by simpa using hne)]
  rfl

end Words

/-! Lines. A line feed ends a line; a carriage return directly in front of it belongs to the break.
Text after the last break is a line of its own unless it is empty. The same rule cuts up characters
and bytes. -/

namespace Lines
variable {α : Type} [DecidableEq α]

/-- The lines of a sequence with the given line feed and carriage return. -/
def split (lf cr : α) : List α → List (List α)
  | [] => []
  | a :: rest =>
    if a = lf then [] :: split lf cr rest
    else if a = cr ∧ rest.head? = some lf then split lf cr rest
    else
      match split lf cr rest with
      | [] => [[a]]
      | line :: lines => (a :: line) :: lines

def ofText (text : String) : List String := (split '\n' '\r' text.toList).map String.ofList

/-- The text that bytes encode in UTF-8, if they do. -/
def decode? (bytes : List UInt8) : Option String := String.fromUTF8? bytes.toByteArray

/-- The lines of a sequence of bytes; `none` is a line that is not UTF-8. -/
def ofBytes (bytes : List UInt8) : List (Option String) := (split 10 13 bytes).map decode?

end Lines

end ExactLinear
