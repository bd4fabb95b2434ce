import CmStream.Text.SystemText

/-!
# Texts and their bytes

The bytes of a text are shown as that text, and no other bytes are those of a text. A byte below 128
is part of one character only.
-/

namespace CmStream.SystemText

variable {c : Char} {bytes rest : SystemText}

/-! ## One character -/

theorem length_encodeChar (c : Char) : (encodeChar c).length = c.utf8Size := by
  rw [encodeChar, List.length_map, String.length_utf8EncodeChar]

theorem exists_encodeChar_eq_cons (c : Char) : ∃ byte more, encodeChar c = byte :: more := by
  refine List.exists_cons_of_length_pos ?_
  rw [length_encodeChar]
  exact c.utf8Size_pos

theorem first?_encodeChar_append (c : Char) (rest : SystemText) :
    first? (encodeChar c ++ rest) = some c := by
  have hbytes : (encodeChar c ++ rest).map UInt8.ofBitVec
      = String.utf8EncodeChar c ++ rest.map UInt8.ofBitVec := by
    rw [encodeChar, List.map_append, List.map_map]
    exact congrArg (· ++ _) (List.map_id _)
  rw [first?, hbytes, List.toByteArray_append]
  exact ByteArray.utf8DecodeChar?_utf8EncodeChar_append

/-- Two characters whose bytes begin in the same way are one. -/
theorem eq_of_encodeChar_append {d : Char} {more : SystemText}
    (h : encodeChar c ++ rest = encodeChar d ++ more) : c = d := by
  have hfirst := first?_encodeChar_append c rest
  rw [h, first?_encodeChar_append] at hfirst
  exact (Option.some_inj.mp hfirst).symm

/-- A character has one byte, or all of its bytes lie above 127. -/
theorem eq_singleton_or_le (c : Char) :
    (∃ byte, encodeChar c = [byte]) ∨ ∀ byte ∈ encodeChar c, 128 ≤ byte.toNat := by
  unfold encodeChar
  fun_cases String.utf8EncodeChar c with
  | case1 => exact .inl ⟨_, rfl⟩
  | case2 | case3 | case4 =>
    -- Every byte of a larger character has its highest bit set.
    refine .inr ?_
    simp only [List.map_cons, List.map_nil, List.forall_mem_cons, List.not_mem_nil, false_imp_iff,
      implies_true, and_true, UInt8.toNat_toBitVec, UInt8.toNat_ofNat']
    omega

/-- A byte below 128 shows which character it is part of. -/
theorem eq_of_mem_encodeChar {d : Char} {byte : Byte} (hbyte : encodeChar d = [byte])
    (hlow : byte.toNat < 128) (hmem : byte ∈ encodeChar c) : c = d := by
  obtain ⟨only, honly⟩ | habove := eq_singleton_or_le c
  · rw [honly, List.mem_singleton] at hmem
    subst hmem
    exact eq_of_encodeChar_append (congrArg (· ++ []) (honly.trans hbyte.symm))
  · exact absurd (habove byte hmem) (Nat.not_le.mpr hlow)

theorem takeCharacter_encodeChar_append (c : Char) (rest : SystemText) :
    takeCharacter (encodeChar c ++ rest) = (c, rest) := by
  rw [takeCharacter, first?_encodeChar_append]
  dsimp only
  rw [← length_encodeChar, List.drop_left]

/-! ## Whole texts -/

theorem encode_ofList_cons (c : Char) (rest : List Char) :
    encode (String.ofList (c :: rest)) = encodeChar c ++ encode (String.ofList rest) := by
  rw [encode, encode, String.toList_ofList, String.toList_ofList, List.flatMap_cons]

/-- A byte below 128 is there if its character is. -/
theorem notMem_encode {d : Char} {byte : Byte} {text : String} (hbyte : encodeChar d = [byte])
    (hlow : byte.toNat < 128) (h : d ∉ text.toList) : byte ∉ encode text := by
  intro hmem
  obtain ⟨c, hc, hbytes⟩ := List.mem_flatMap.mp hmem
  exact h (eq_of_mem_encodeChar hbyte hlow hbytes ▸ hc)

theorem piecesBehind_eq (count : Nat) (bytes : SystemText) :
    piecesBehind count bytes = pieces (bytes.drop count) := by
  induction count generalizing bytes with
  | zero => rfl
  | succ count ih =>
    cases bytes with
    | nil => rfl
    | cons byte rest => exact ih rest

theorem pieces_encodeChar_append (c : Char) (rest : SystemText) :
    pieces (encodeChar c ++ rest) = .character c :: pieces rest := by
  have hfirst := first?_encodeChar_append c rest
  have hlength := length_encodeChar c
  obtain ⟨byte, more, hbytes⟩ := exists_encodeChar_eq_cons c
  rw [hbytes, List.cons_append] at hfirst ⊢
  rw [hbytes, List.length_cons] at hlength
  rw [pieces, piecesBehind, hfirst]
  dsimp only
  rw [← hlength, Nat.add_sub_cancel, piecesBehind_eq, List.drop_left]

theorem pieces_encode (text : String) : pieces (encode text) = text.toList.map .character := by
  rw [encode]
  induction text.toList with
  | nil => rfl
  | cons c rest ih => rw [List.flatMap_cons, pieces_encodeChar_append, ih, List.map_cons]

theorem shown_encode (text : String) : shown (encode text) = text := by
  have hshown : text.toList.map (Piece.shown ∘ .character) = text.toList := List.map_id _
  rw [shown, pieces_encode, List.map_map, hshown, String.ofList_toList]

/-- No other bytes are those of a text. -/
theorem text?_eq_some_iff {text : String} : text? bytes = some text ↔ encode text = bytes := by
  unfold text?
  constructor
  · intro h
    split at h
    case isTrue hbytes =>
      cases h
      exact hbytes
    case isFalse => cases h
  · rintro rfl
    rw [shown_encode, if_pos rfl]

end CmStream.SystemText
