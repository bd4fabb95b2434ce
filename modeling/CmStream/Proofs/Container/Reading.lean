import CmStream.Container.Encode

/-!
# What the readers of the container accept

Each reader goes over exactly the bytes that the writer of the same thing produces, and fails on
everything else. `Reader.Passes` says that reading has gone from one place to another over given
bytes; a sequence of readers goes over the concatenation.
-/

namespace CmStream

/-- A sequence succeeds if and only if both of its parts do, one after the other. -/
theorem bind_eq_ok_iff {ε α β : Type} {x : Except ε α} {f : α → Except ε β} {b : β} :
    (x >>= f) = .ok b ↔ ∃ a, x = .ok a ∧ f a = .ok b := by
  cases x with
  | ok a =>
    constructor
    · intro h
      exact ⟨a, rfl, h⟩
    · rintro ⟨_, ⟨⟩, h⟩
      exact h
  | error e =>
    constructor
    · intro h
      cases h
    · rintro ⟨_, ⟨⟩, _⟩

/-- What happens to an error makes no difference to success. -/
theorem mapError_eq_ok_iff {ε ε' α : Type} {x : Except ε α} {f : ε → ε'} {a : α} :
    x.mapError f = .ok a ↔ x = .ok a := by
  cases x with
  | ok a' =>
    constructor
    · rintro ⟨⟩
      rfl
    · rintro ⟨⟩
      rfl
  | error e =>
    constructor
    · intro h
      cases h
    · intro h
      cases h

theorem mapError_map {ε ε' α β : Type} (x : Except ε α) (g : α → β) (f : ε → ε') :
    (x.map g).mapError f = (x.mapError f).map g := by
  cases x <;> rfl

namespace Reader

variable {r middle behind : Reader} {bytes more : List Byte}

/-- Reading has gone from one reader to another over the given bytes. -/
structure Passes (r : Reader) (bytes : List Byte) (behind : Reader) : Prop where
  rest : r.rest = bytes ++ behind.rest
  position : behind.position = r.position + bytes.length

namespace Passes

theorem append (h : r.Passes bytes middle) (h' : middle.Passes more behind) :
    r.Passes (bytes ++ more) behind := by
  refine ⟨?_, ?_⟩
  · rw [h.rest, h'.rest, List.append_assoc]
  · rw [h'.position, h.position, List.length_append, Nat.add_assoc]

/-- Over a concatenation reading goes by way of the place between its parts. -/
theorem exists_middle (h : r.Passes (bytes ++ more) behind) :
    ∃ middle, r.Passes bytes middle ∧ middle.Passes more behind := by
  refine ⟨⟨r.position + bytes.length, more ++ behind.rest⟩, ⟨?_, rfl⟩, ⟨rfl, ?_⟩⟩
  · rw [h.rest, List.append_assoc]
  · rw [h.position, List.length_append, Nat.add_assoc]

end Passes

/-! ## Single reads -/

theorem nextByte_eq_ok_iff {byte : Byte} :
    r.nextByte = .ok (byte, behind) ↔ r.Passes [byte] behind := by
  unfold nextByte Reader.byte
  constructor
  · intro h
    split at h
    case h_1 first rest hrest =>
      cases h
      exact ⟨hrest, rfl⟩
    case h_2 => cases h
  · rintro ⟨hrest, hposition⟩
    obtain ⟨position, rest⟩ := behind
    cases hposition
    rw [hrest]
    rfl

theorem nextWord_eq_ok_iff {word : Word} :
    r.nextWord = .ok (word, behind) ↔ r.Passes (Word.toBytes word) behind := by
  unfold nextWord Reader.word
  constructor
  · intro h
    split at h
    case h_1 first second rest hrest =>
      cases h
      rw [Word.toBytes_ofBytes]
      exact ⟨hrest, rfl⟩
    case h_2 => cases h
  · rintro ⟨hrest, hposition⟩
    obtain ⟨position, rest⟩ := behind
    cases hposition
    rw [hrest]
    exact congrArg (fun value => Except.ok (value, _)) (Word.ofBytes_low_high word)

theorem take_eq_ok_iff {n : Nat} :
    r.take n = .ok (bytes, behind) ↔ bytes.length = n ∧ r.Passes bytes behind := by
  unfold take
  constructor
  · intro h
    dsimp only at h
    split at h
    case isTrue hlength =>
      cases h
      exact ⟨hlength, (List.take_append_drop n r.rest).symm, by rw [hlength]⟩
    case isFalse => cases h
  · rintro ⟨rfl, hrest, hposition⟩
    have htake : r.rest.take bytes.length = bytes := by
      rw [hrest, List.take_left]
    have hdrop : r.rest.drop bytes.length = behind.rest := by
      rw [hrest, List.drop_left]
    rw [htake, hdrop, ← hposition]
    exact if_pos rfl

theorem nextBytes_eq_ok_iff {n : Nat} :
    r.nextBytes n = .ok (bytes, behind) ↔ bytes.length = n ∧ r.Passes bytes behind := by
  unfold nextBytes
  rw [mapError_eq_ok_iff, take_eq_ok_iff]

theorem nextMultiple_eq_ok_iff {m skipped : Nat} :
    r.nextMultiple m = .ok (skipped, behind)
      ↔ skipped = padding m r.position
        ∧ ∃ bytes, bytes.length = skipped ∧ r.Passes bytes behind := by
  unfold nextMultiple align
  rw [mapError_eq_ok_iff]
  constructor
  · intro h
    cases htake : r.take (padding m r.position) with
    | ok taken =>
      rw [htake] at h
      cases h
      exact ⟨rfl, taken.1, take_eq_ok_iff.mp htake⟩
    | error overrun =>
      rw [htake] at h
      cases h
  · rintro ⟨rfl, bytes, hbytes⟩
    rw [take_eq_ok_iff.mpr hbytes]
    rfl

end Reader

end CmStream
