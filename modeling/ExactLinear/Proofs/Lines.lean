import ExactLinear.Text

/- Facts about lines: what the first line of a text is, and that the lines of a text
   are the lines of its bytes. UTF-8 encodes no character but a line feed or a
   carriage return with the byte of one, so cutting up the bytes and decoding the
   pieces is the same as cutting up the text. -/
namespace ExactLinear.Lines

/-! One line after the other. -/

theorem split_of_not_mem {c : Char} {cs : List Char} (h : '\n' ∉ c :: cs) :
    split '\n' '\r' (c :: cs) = [c :: cs] := by
  induction cs generalizing c with
  | nil =>
    have hc : c ≠ '\n' := fun e => h (by simp [e])
    simp [split, hc]
  | cons d cs ih =>
    have hc : c ≠ '\n' := fun e => h (by simp [e])
    have hd : d ≠ '\n' := fun e => h (by simp [e])
    have hrest : '\n' ∉ d :: cs := fun hmem => h (List.mem_cons_of_mem c hmem)
    rw [split, if_neg hc, if_neg (by simp [hd]), ih hrest]

/-- The first line of a text, without the carriage return that belongs to its break. -/
theorem split_lineFeed {cs : List Char} (hcs : '\n' ∉ cs) (rest : List Char) :
    ∃ line, split '\n' '\r' (cs ++ '\n' :: rest) = line :: split '\n' '\r' rest ∧
      (cs = line ∨ cs = line ++ ['\r']) := by
  induction cs with
  | nil => exact ⟨[], by simp [split], .inl rfl⟩
  | cons c cs ih =>
    have hc : c ≠ '\n' := fun e => hcs (by simp [e])
    have hcs' : '\n' ∉ cs := fun hmem => hcs (List.mem_cons_of_mem c hmem)
    rw [List.cons_append, split, if_neg hc]
    by_cases hreturn : c = '\r' ∧ (cs ++ '\n' :: rest).head? = some '\n'
    · rw [if_pos hreturn]
      cases cs with
      | nil => exact ⟨[], by simp [split], .inr (by simp [hreturn.1])⟩
      | cons d cs =>
        obtain rfl : d = '\n' := by simpa using hreturn.2
        exact absurd (List.mem_cons_self ..) hcs'
    · obtain ⟨line, hsplit, hline⟩ := ih hcs'
      rw [if_neg hreturn, hsplit]
      refine ⟨c :: line, rfl, ?_⟩
      rcases hline with rfl | rfl
      · exact .inl rfl
      · exact .inr rfl

/-! Bytes. -/

/-- The bytes that encode a text in UTF-8. -/
def encode (text : String) : List UInt8 := text.toUTF8.toList

theorem toList_loop (bytes : ByteArray) (i : Nat) (read : List UInt8) :
    ByteArray.toList.loop bytes i read = read.reverse ++ bytes.data.toList.drop i := by
  fun_induction ByteArray.toList.loop bytes i read with
  | case1 i read h ih =>
    have hi : i < bytes.data.toList.length := by simpa using h
    rw [ih, List.drop_eq_getElem_cons hi, ByteArray.get!, getElem!_pos bytes.data i h]
    simp
  | case2 i read h =>
    have hlen : bytes.data.toList.length ≤ i := Nat.le_of_not_lt h
    rw [List.drop_eq_nil_of_le hlen, List.append_nil]

theorem encode_ofList (cs : List Char) :
    encode (String.ofList cs) = cs.flatMap String.utf8EncodeChar := by
  rw [encode, String.toUTF8, String.toByteArray_ofList, List.utf8Encode, ByteArray.toList,
    toList_loop, List.toList_data_toByteArray]
  rfl

theorem decode?_flatMap (cs : List Char) :
    decode? (cs.flatMap String.utf8EncodeChar) = some (String.ofList cs) := by
  rw [decode?, String.fromUTF8?]
  exact dif_pos ⟨cs, rfl⟩

/-- Pieces without a break in them stay in one line. -/
theorem split_append {α : Type} [DecidableEq α] {lf cr : α} {piece : List α}
    (hpiece : ∀ a ∈ piece, a ≠ lf ∧ a ≠ cr) (hne : piece ≠ []) (rest : List α) :
    split lf cr (piece ++ rest) =
      match split lf cr rest with
      | [] => [piece]
      | line :: lines => (piece ++ line) :: lines := by
  induction piece with
  | nil => exact absurd rfl hne
  | cons a piece ih =>
    obtain ⟨⟨hlf, hcr⟩, hpiece⟩ := List.forall_mem_cons.mp hpiece
    rw [List.cons_append, split, if_neg hlf, if_neg (fun h => hcr h.1)]
    cases piece with
    | nil => rfl
    | cons b piece =>
      rw [ih hpiece (List.cons_ne_nil b piece)]
      cases split lf cr rest <;> rfl

theorem ofNat_plain {n : Nat} (hlf : n % 256 ≠ 10) (hcr : n % 256 ≠ 13) :
    UInt8.ofNat n ≠ 10 ∧ UInt8.ofNat n ≠ 13 := by
  refine ⟨fun e => hlf ?_, fun e => hcr ?_⟩
  · simpa using congrArg UInt8.toNat e
  · simpa using congrArg UInt8.toNat e

/-- In an encoding of more than one byte all of them are above the ASCII ones. -/
theorem utf8EncodeChar_plain {c : Char} (hlf : c ≠ '\n') (hcr : c ≠ '\r') :
    ∀ b ∈ String.utf8EncodeChar c, b ≠ 10 ∧ b ≠ 13 := by
  have hlf' : c.val.toNat ≠ 10 := fun e => hlf (Char.ext (UInt32.toNat_inj.mp e))
  have hcr' : c.val.toNat ≠ 13 := fun e => hcr (Char.ext (UInt32.toNat_inj.mp e))
  unfold String.utf8EncodeChar
  dsimp only
  split
  · rintro b (_ | ⟨_, ⟨⟩⟩)
    exact ofNat_plain (by omega) (by omega)
  split
  · rintro b (_ | ⟨_, _ | ⟨_, ⟨⟩⟩⟩) <;> exact ofNat_plain (by omega) (by omega)
  split
  · rintro b (_ | ⟨_, _ | ⟨_, _ | ⟨_, ⟨⟩⟩⟩⟩) <;> exact ofNat_plain (by omega) (by omega)
  · rintro b (_ | ⟨_, _ | ⟨_, _ | ⟨_, _ | ⟨_, ⟨⟩⟩⟩⟩⟩) <;> exact ofNat_plain (by omega) (by omega)

theorem head?_flatMap (cs : List Char) :
    (cs.flatMap String.utf8EncodeChar).head? = some 10 ↔ cs.head? = some '\n' := by
  cases cs with
  | nil => simp
  | cons c cs =>
    obtain ⟨b, bs, hbytes⟩ := List.exists_cons_of_ne_nil (String.utf8EncodeChar_ne_nil (c := c))
    rw [List.flatMap_cons, hbytes]
    by_cases hlf : c = '\n'
    · subst hlf
      cases hbytes
      simp
    by_cases hcr : c = '\r'
    · subst hcr
      cases hbytes
      simp
    have hb := utf8EncodeChar_plain hlf hcr b (by simp [hbytes])
    simp [hlf, hb]

theorem split_flatMap (cs : List Char) :
    split 10 13 (cs.flatMap String.utf8EncodeChar) =
      (split '\n' '\r' cs).map (List.flatMap String.utf8EncodeChar) := by
  induction cs with
  | nil => rfl
  | cons c cs ih =>
    rw [List.flatMap_cons]
    by_cases hlf : c = '\n'
    · subst hlf
      have hbyte : String.utf8EncodeChar '\n' = [10] := rfl
      rw [hbyte, List.singleton_append, split, if_pos rfl, split, if_pos rfl, ih, List.map_cons,
        List.flatMap_nil]
    by_cases hcr : c = '\r'
    · subst hcr
      have hbyte : String.utf8EncodeChar '\r' = [13] := rfl
      have hne : (13 : UInt8) ≠ 10 := by decide
      -- It belongs to a break if a line feed follows, which the first byte behind it tells.
      have hhead := head?_flatMap cs
      rw [hbyte, List.singleton_append, split, split, if_neg hne, if_neg hlf, ih]
      by_cases hbreak : cs.head? = some '\n'
      · rw [if_pos ⟨rfl, hhead.mpr hbreak⟩, if_pos ⟨rfl, hbreak⟩]
      · rw [if_neg (fun h => hbreak (hhead.mp h.2)), if_neg (fun h => hbreak h.2)]
        cases split '\n' '\r' cs with
        | nil => simp [hbyte]
        | cons line lines => simp [hbyte]
    rw [split_append (utf8EncodeChar_plain hlf hcr) String.utf8EncodeChar_ne_nil, ih, split,
      if_neg hlf, if_neg (fun h => hcr h.1)]
    cases split '\n' '\r' cs with
    | nil => simp
    | cons line lines => simp

theorem ofBytes_encode (text : String) :
    ofBytes (encode text) = (ofText text).map some := by
  rw [← String.ofList_toList (s := text), encode_ofList, ofBytes, split_flatMap, ofText,
    List.map_map, List.map_map, String.ofList_toList]
  exact List.map_congr_left fun line _ => decode?_flatMap line

end ExactLinear.Lines
