import CmStream.Text.Quoted

/-!
# Texts of the system

The system hands over arguments and takes paths as bytes. They are most often those of the
characters of a text, one after the other, but they need not be. What is shown of them has a sign of
its own in place of bytes that are part of no character.
-/

namespace CmStream

/-- A text as the system has it. -/
abbrev SystemText := List Byte

namespace SystemText

def encodeChar (c : Char) : SystemText := (String.utf8EncodeChar c).map UInt8.toBitVec

/-- The bytes of a text. -/
def encode (text : String) : SystemText := text.toList.flatMap encodeChar

/-- The character whose bytes come first, if they are those of one. -/
def first? (bytes : SystemText) : Option Char :=
  (bytes.map UInt8.ofBitVec).toByteArray.utf8DecodeChar? 0

/-- The sign for bytes that are part of no character. -/
def replacement : Char := Char.ofNat 0xfffd

/-- Takes the first character off some bytes. A byte that begins none counts as one. -/
def takeCharacter (bytes : SystemText) : Char × SystemText :=
  match first? bytes with
  | some c => (c, bytes.drop c.utf8Size)
  | none => (replacement, bytes.drop 1)

theorem length_takeCharacter (byte : Byte) (rest : SystemText) :
    (takeCharacter (byte :: rest)).2.length ≤ rest.length := by
  unfold takeCharacter
  split
  case h_1 c _ =>
    have hpos := c.utf8Size_pos
    rw [List.length_drop, List.length_cons]
    omega
  case h_2 => exact Nat.le_refl _

/-! ## What is shown -/

/-- Bytes that begin no character go together as far as they could still have begun one. -/
def strayLength (bytes : SystemText) : Nat :=
  -- If anything can follow some bytes within a character, then 0x80 can.
  if (first? (bytes.take 3 ++ [0x80])).isSome then 3
  else if (first? (bytes.take 2 ++ [0x80, 0x80])).isSome then 2
  else 1

/-- A character, or bytes that are part of none. -/
inductive Piece where
  | character (c : Char)
  | stray (bytes : List Byte)
  deriving DecidableEq, Repr

/-- Takes bytes apart, behind some that are left of a piece in front of them. -/
def piecesBehind : Nat → SystemText → List Piece
  | _, [] => []
  | count + 1, _ :: rest => piecesBehind count rest
  | 0, byte :: rest =>
    match first? (byte :: rest) with
    | some c => .character c :: piecesBehind (c.utf8Size - 1) rest
    | none =>
      let length := strayLength (byte :: rest)
      .stray ((byte :: rest).take length) :: piecesBehind (length - 1) rest

def pieces (bytes : SystemText) : List Piece := piecesBehind 0 bytes

namespace Piece

def shown : Piece → Char
  | character c => c
  | stray _ => replacement

/-- Bytes that are part of no character are escaped one by one. -/
def escaped : Piece → List Char
  | character c => Text.escaped c
  | stray bytes => bytes.flatMap fun byte =>
    '\\' :: 'x' :: (Text.hex 2 byte.toNat).toList.map Char.toUpper

end Piece

/-- What is shown of bytes. -/
def shown (bytes : SystemText) : String := String.ofList ((pieces bytes).map Piece.shown)

/-- The text whose bytes they are, if they are those of a text. -/
def text? (bytes : SystemText) : Option String :=
  if encode (shown bytes) = bytes then some (shown bytes) else none

/-- Between quotation marks, as texts are. -/
def quoted (bytes : SystemText) : String :=
  String.ofList ('"' :: ((pieces bytes).flatMap Piece.escaped ++ ['"']))

/-! ## Signs -/

def hyphen : Byte := 0x2d

def dot : Byte := 0x2e

def slash : Byte := 0x2f

def equals : Byte := 0x3d

end SystemText

end CmStream
