import CmStream.Word

/-!
# Reading bytes from front to back

A reader holds the bytes that are left and the number of bytes before them. Reading either
gives all the bytes that were asked for and a reader behind them, or says what was wanted,
where, and how much there was.
-/

namespace CmStream

/-- More bytes were asked for than are left. -/
structure Overrun where
  offset : Nat
  wanted : Nat
  available : Nat
  deriving DecidableEq, Repr

namespace Overrun

def message (overrun : Overrun) : String :=
  "input stream overrun: wanted " ++ toString overrun.wanted ++ " bytes at offset "
    ++ toString overrun.offset ++ ", but only " ++ toString overrun.available ++ " remain"

end Overrun

structure Reader where
  position : Nat
  rest : List Byte
  deriving DecidableEq, Repr

namespace Reader

/-- A reader at the front of some bytes. -/
def ofBytes (bytes : List Byte) : Reader := ⟨0, bytes⟩

def remaining (r : Reader) : Nat := r.rest.length

/-- The next `n` bytes. -/
def take (r : Reader) (n : Nat) : Except Overrun (List Byte × Reader) :=
  let taken := r.rest.take n
  if taken.length = n then .ok (taken, ⟨r.position + n, r.rest.drop n⟩)
  else .error ⟨r.position, n, r.remaining⟩

/-- The next byte. -/
def byte (r : Reader) : Except Overrun (Byte × Reader) :=
  match r.rest with
  | b :: rest => .ok (b, ⟨r.position + 1, rest⟩)
  | [] => .error ⟨r.position, 1, 0⟩

/-- The next two bytes as a word. -/
def word (r : Reader) : Except Overrun (Word × Reader) :=
  match r.rest with
  | first :: second :: rest => .ok (Word.ofBytes first second, ⟨r.position + 2, rest⟩)
  | short => .error ⟨r.position, 2, short.length⟩

/-- The number of bytes from a position to the next multiple of `m`. -/
def padding (m position : Nat) : Nat := (m - position % m) % m

/-- Skips to the next multiple of `m`, counted from the front; says how many bytes it skipped. -/
def align (r : Reader) (m : Nat) : Except Overrun (Nat × Reader) :=
  (r.take (padding m r.position)).map fun (_, behind) => (padding m r.position, behind)

/-- A reader that has already passed `n` of the bytes. -/
def startingAt (bytes : List Byte) (n : Nat) : Except Overrun Reader :=
  ((ofBytes bytes).take n).map Prod.snd

theorem take_eq_ok {r : Reader} {n : Nat} (h : n ≤ r.remaining) :
    r.take n = .ok (r.rest.take n, ⟨r.position + n, r.rest.drop n⟩) := by
  simp only [remaining] at h
  simp [take, h]

theorem take_eq_error {r : Reader} {n : Nat} (h : r.remaining < n) :
    r.take n = .error ⟨r.position, n, r.remaining⟩ := by
  simp only [remaining] at h ⊢
  have hne : min n r.rest.length ≠ n := by omega
  simp [take, remaining, hne]

theorem padding_lt {m : Nat} (hm : 0 < m) (position : Nat) : padding m position < m :=
  Nat.mod_lt _ hm

theorem dvd_position_add_padding {m : Nat} (hm : 0 < m) (position : Nat) :
    m ∣ position + padding m position := by
  have hlt := Nat.mod_lt position hm
  have hsplit := Nat.div_add_mod position m
  unfold padding
  by_cases hzero : position % m = 0
  · simp only [hzero, Nat.sub_zero, Nat.mod_self, Nat.add_zero]
    exact Nat.dvd_of_mod_eq_zero hzero
  · rw [Nat.mod_eq_of_lt (by omega)]
    exact ⟨position / m + 1, by rw [Nat.mul_add, Nat.mul_one]; omega⟩

end Reader

end CmStream
