/-!
# Bytes and words

The two widths of data that the machine handles, and how a word is made of its two bytes.
Words are little-endian everywhere: in a stream, in memory and in an instruction.
-/

namespace CmStream

abbrev Byte := BitVec 8

abbrev Word := BitVec 16

namespace Word

/-- The byte that is stored first. -/
def low (w : Word) : Byte := w.extractLsb' 0 8

/-- The byte that is stored second. -/
def high (w : Word) : Byte := w.extractLsb' 8 8

/-- The word with the given first and second byte. -/
def ofBytes (first second : Byte) : Word := second ++ first

/-- The bytes of a word in the order in which they are stored. -/
def toBytes (w : Word) : List Byte := [low w, high w]

theorem toNat_ofBytes (first second : Byte) :
    (ofBytes first second).toNat = first.toNat + 256 * second.toNat := by
  have h : first.toNat < 2 ^ 8 := first.isLt
  rw [ofBytes, BitVec.toNat_append, ← Nat.shiftLeft_add_eq_or_of_lt h, Nat.shiftLeft_eq]
  omega

theorem toNat_low (w : Word) : (low w).toNat = w.toNat % 256 := by
  simp [low]

theorem toNat_high (w : Word) : (high w).toNat = w.toNat / 256 := by
  have h := w.isLt
  simp only [high, BitVec.extractLsb'_toNat, Nat.shiftRight_eq_div_pow]
  omega

theorem ofBytes_low_high (w : Word) : ofBytes (low w) (high w) = w := by
  apply BitVec.eq_of_toNat_eq
  rw [toNat_ofBytes, toNat_low, toNat_high]
  omega

theorem low_ofBytes (first second : Byte) : low (ofBytes first second) = first := by
  apply BitVec.eq_of_toNat_eq
  have h := first.isLt
  rw [toNat_low, toNat_ofBytes]
  omega

theorem high_ofBytes (first second : Byte) : high (ofBytes first second) = second := by
  apply BitVec.eq_of_toNat_eq
  have h := first.isLt
  rw [toNat_high, toNat_ofBytes]
  omega

theorem toBytes_ofBytes (first second : Byte) :
    toBytes (ofBytes first second) = [first, second] := by
  rw [toBytes, low_ofBytes, high_ofBytes]

theorem toNat_ofNat_of_lt {n : Nat} (h : n < 0x10000) : (BitVec.ofNat 16 n).toNat = n := by
  rw [BitVec.toNat_ofNat]
  exact Nat.mod_eq_of_lt h

end Word

/-- The width of an operand. -/
inductive Width where
  | byte
  | word
  deriving DecidableEq, Repr

namespace Width

/-- The number of bits of an operand. -/
abbrev bits : Width → Nat
  | .byte => 8
  | .word => 16

/-- The number of bytes that an operand takes up in memory. -/
def size : Width → Word
  | .byte => 1
  | .word => 2

theorem bits_le (width : Width) : width.bits ≤ 16 := by
  cases width <;> decide

/-- An operand has bits above its lowest four. -/
theorem four_lt_bits (width : Width) : 4 < width.bits := by
  cases width <;> decide

theorem bits_pos (width : Width) : 0 < width.bits := Nat.zero_lt_of_lt width.four_lt_bits

end Width

/-- The entry of a table that a number of three bits selects. -/
def select {α : Type} (table : List α) (h : table.length = 8) (index : BitVec 3) : α :=
  table.get ⟨index.toNat, by have := index.isLt; omega⟩

end CmStream
