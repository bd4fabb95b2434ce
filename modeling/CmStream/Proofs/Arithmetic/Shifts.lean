import CmStream.Machine.Shifting

/-!
# Many places at once

Shifting place after place comes to one shift by all places, and rotating to one rotation. Carry and
overflow are those of the last place, so they are read off the operand as it is one place before the
end.
-/

namespace CmStream

namespace Shift

variable {n : Nat}

/-! ## Single places, bit by bit -/

theorem getLsbD_left (value : BitVec n) (incoming : Bool) {i : Nat} (hi : i < n) :
    (left value incoming).getLsbD i = if i = 0 then incoming else value.getLsbD (i - 1) := by
  unfold left Arithmetic.ofCarry
  rw [BitVec.getLsbD_or, BitVec.getLsbD_shiftLeft, BitVec.getLsbD_ofNat, Nat.testBit_bool_toNat,
    decide_eq_true hi]
  by_cases hzero : i = 0
  · simp [hzero]
  · simp [hzero]

theorem getLsbD_right (value : BitVec n) (incoming : Bool) (i : Nat) :
    (right value incoming).getLsbD i
      = if i + 1 = n then incoming else value.getLsbD (i + 1) := by
  unfold right
  rw [BitVec.getLsbD_or, BitVec.getLsbD_ushiftRight, Nat.add_comm 1 i]
  by_cases hlast : i + 1 = n
  · rw [if_pos hlast, BitVec.getLsbD_of_ge _ _ (Nat.le_of_eq hlast.symm)]
    cases incoming <;> simp [BitVec.getLsbD_intMin, hlast]
  · rw [if_neg hlast]
    cases incoming <;> simp [BitVec.getLsbD_intMin, hlast]

theorem left_false (value : BitVec n) : left value false = value <<< 1 :=
  BitVec.or_zero

theorem right_false (value : BitVec n) : right value false = value >>> 1 :=
  BitVec.or_zero

/-- To the right with the sign is a division that rounds down. -/
theorem right_msb (value : BitVec n) : right value value.msb = value.sshiftRight 1 := by
  refine BitVec.eq_of_getLsbD_eq fun i hi => ?_
  rw [getLsbD_right, BitVec.getLsbD_sshiftRight, decide_eq_false (Nat.not_le.mpr hi),
    Nat.add_comm 1 i]
  by_cases hlast : i + 1 = n
  · rw [if_pos hlast, if_neg (by omega)]
    rfl
  · rw [if_neg hlast, if_pos (by omega)]
    rfl

/-! ## Rotations -/

/-- One more than a number below `n`, up to whole turns. -/
theorem succ_mod {r : Nat} (hr : r < n) :
    r + 1 < n ∧ (r + 1) % n = r + 1 ∨ r + 1 = n ∧ (r + 1) % n = 0 := by
  rcases Nat.lt_or_ge (r + 1) n with hlt | hge
  · exact .inl ⟨hlt, Nat.mod_eq_of_lt hlt⟩
  · have hn : r + 1 = n := by omega
    exact .inr ⟨hn, by rw [hn, Nat.mod_self]⟩

theorem getLsbD_rotateLeft_of_lt (value : BitVec n) {r i : Nat} (hr : r < n) (hi : i < n) :
    (value.rotateLeft r).getLsbD i
      = if i < r then value.getLsbD (n - r + i) else value.getLsbD (i - r) := by
  rw [BitVec.getLsbD_rotateLeft, Nat.mod_eq_of_lt hr, decide_eq_true hi, Bool.true_and]
  by_cases h : i < r <;> simp [h]

theorem getLsbD_rotateRight_of_lt (value : BitVec n) {r i : Nat} (hr : r < n) (hi : i < n) :
    (value.rotateRight r).getLsbD i
      = if i < n - r then value.getLsbD (r + i) else value.getLsbD (i - (n - r)) := by
  rw [BitVec.getLsbD_rotateRight, Nat.mod_eq_of_lt hr, decide_eq_true hi, Bool.true_and]
  by_cases h : i < n - r <;> simp [h]

theorem rotateLeft_zero (value : BitVec n) : value.rotateLeft 0 = value := by
  refine BitVec.eq_of_getLsbD_eq fun i hi => ?_
  rw [getLsbD_rotateLeft_of_lt value (by omega) hi, if_neg (Nat.not_lt_zero i), Nat.sub_zero]

theorem rotateRight_zero (value : BitVec n) : value.rotateRight 0 = value := by
  refine BitVec.eq_of_getLsbD_eq fun i hi => ?_
  rw [getLsbD_rotateRight_of_lt value (by omega) hi, Nat.sub_zero, if_pos hi, Nat.zero_add]

theorem rotateLeft_succ (value : BitVec n) (k : Nat) :
    left (value.rotateLeft (k % n)) (value.rotateLeft (k % n)).msb
      = value.rotateLeft ((k + 1) % n) := by
  rcases Nat.eq_zero_or_pos n with rfl | hn
  · exact BitVec.eq_of_zero_length rfl
  have hr : k % n < n := Nat.mod_lt k hn
  rw [← Nat.mod_add_mod]
  generalize k % n = r at hr
  have hnext : (r + 1) % n < n := Nat.mod_lt _ hn
  have hturn := succ_mod hr
  refine BitVec.eq_of_getLsbD_eq fun i hi => ?_
  rw [getLsbD_left _ _ hi, BitVec.msb_eq_getLsbD_last,
    getLsbD_rotateLeft_of_lt value hr (by omega), getLsbD_rotateLeft_of_lt value hr (by omega),
    getLsbD_rotateLeft_of_lt value hnext hi]
  grind

theorem rotateRight_succ (value : BitVec n) (k : Nat) :
    right (value.rotateRight (k % n)) ((value.rotateRight (k % n)).getLsbD 0)
      = value.rotateRight ((k + 1) % n) := by
  rcases Nat.eq_zero_or_pos n with rfl | hn
  · exact BitVec.eq_of_zero_length rfl
  have hr : k % n < n := Nat.mod_lt k hn
  rw [← Nat.mod_add_mod]
  generalize k % n = r at hr
  have hnext : (r + 1) % n < n := Nat.mod_lt _ hn
  have hturn := succ_mod hr
  refine BitVec.eq_of_getLsbD_eq fun i hi => ?_
  rw [getLsbD_right, getLsbD_rotateRight_of_lt value hr hn,
    getLsbD_rotateRight_of_lt value hnext hi]
  rcases Nat.lt_or_ge (i + 1) n with hlt | hge
  · rw [getLsbD_rotateRight_of_lt value hr hlt]
    grind
  · grind

theorem rotateRight_rotateLeft (value : BitVec n) (k : Nat) :
    (value.rotateLeft (k % n)).rotateRight (k % n) = value := by
  rcases Nat.eq_zero_or_pos n with rfl | hn
  · exact BitVec.eq_of_zero_length rfl
  have hr : k % n < n := Nat.mod_lt k hn
  generalize k % n = r at hr
  refine BitVec.eq_of_getLsbD_eq fun i hi => ?_
  rw [getLsbD_rotateRight_of_lt _ hr hi]
  split
  case isTrue hlow =>
    rw [getLsbD_rotateLeft_of_lt value hr (by omega), if_neg (by omega), Nat.add_sub_cancel_left]
  case isFalse hhigh =>
    rw [getLsbD_rotateLeft_of_lt value hr (by omega), if_pos (by omega),
      Nat.add_sub_cancel' (by omega)]

/-! ## By way of the carry -/

namespace State

/-- The carry as the topmost bit of a ring. -/
def ring (s : State n) : BitVec (n + 1) := BitVec.cons s.carry s.value

end State

/-- The carry comes in at the lower end, and the topmost bit becomes the carry. -/
theorem left_cons (hn : 0 < n) (value : BitVec n) (carry : Bool) :
    left (BitVec.cons carry value) carry = BitVec.cons value.msb (left value carry) := by
  refine BitVec.eq_of_getLsbD_eq fun i hi => ?_
  rw [getLsbD_left _ _ hi, BitVec.getLsbD_cons, BitVec.getLsbD_cons, BitVec.msb_eq_getLsbD_last]
  rcases Nat.lt_or_ge i n with hlt | hge
  · rw [getLsbD_left _ _ hlt]
    grind
  · grind

theorem right_cons (value : BitVec n) (carry : Bool) :
    right (BitVec.cons carry value) (value.getLsbD 0)
      = BitVec.cons (value.getLsbD 0) (right value carry) := by
  refine BitVec.eq_of_getLsbD_eq fun i hi => ?_
  rw [getLsbD_right, BitVec.getLsbD_cons, BitVec.getLsbD_cons, getLsbD_right]
  grind

/-! ## Place after place -/

theorem value_shl (s : State n) (k : Nat) : (Nat.repeat shl.place k s).value = s.value <<< k := by
  induction k with
  | zero => exact (BitVec.shiftLeft_zero s.value).symm
  | succ k ih =>
    show left (Nat.repeat shl.place k s).value false = _
    rw [ih, left_false, BitVec.shiftLeft_add]

theorem value_shr (s : State n) (k : Nat) : (Nat.repeat shr.place k s).value = s.value >>> k := by
  induction k with
  | zero => exact (BitVec.ushiftRight_zero s.value).symm
  | succ k ih =>
    show right (Nat.repeat shr.place k s).value false = _
    rw [ih, right_false, BitVec.shiftRight_add]

theorem value_sar (s : State n) (k : Nat) :
    (Nat.repeat sar.place k s).value = s.value.sshiftRight k := by
  induction k with
  | zero => exact BitVec.sshiftRight_zero.symm
  | succ k ih =>
    show right (Nat.repeat sar.place k s).value (Nat.repeat sar.place k s).value.msb = _
    rw [ih, right_msb, BitVec.sshiftRight_add]

theorem value_rol (s : State n) (k : Nat) :
    (Nat.repeat rol.place k s).value = s.value.rotateLeft (k % n) := by
  induction k with
  | zero => rw [Nat.zero_mod, rotateLeft_zero, Nat.repeat]
  | succ k ih =>
    show left (Nat.repeat rol.place k s).value (Nat.repeat rol.place k s).value.msb = _
    rw [ih, rotateLeft_succ]

theorem value_ror (s : State n) (k : Nat) :
    (Nat.repeat ror.place k s).value = s.value.rotateRight (k % n) := by
  induction k with
  | zero => rw [Nat.zero_mod, rotateRight_zero, Nat.repeat]
  | succ k ih =>
    show right (Nat.repeat ror.place k s).value ((Nat.repeat ror.place k s).value.getLsbD 0) = _
    rw [ih, rotateRight_succ]

theorem ring_rcl (hn : 0 < n) (s : State n) (k : Nat) :
    (Nat.repeat rcl.place k s).ring = s.ring.rotateLeft (k % (n + 1)) := by
  induction k with
  | zero => rw [Nat.zero_mod, rotateLeft_zero, Nat.repeat]
  | succ k ih =>
    rw [← rotateLeft_succ, ← ih, Nat.repeat]
    generalize Nat.repeat rcl.place k s = between
    unfold State.ring
    rw [BitVec.msb_cons, left_cons hn]
    rfl

theorem ring_rcr (hn : 0 < n) (s : State n) (k : Nat) :
    (Nat.repeat rcr.place k s).ring = s.ring.rotateRight (k % (n + 1)) := by
  induction k with
  | zero => rw [Nat.zero_mod, rotateRight_zero, Nat.repeat]
  | succ k ih =>
    rw [← rotateRight_succ, ← ih, Nat.repeat]
    generalize Nat.repeat rcr.place k s = between
    unfold State.ring
    rw [BitVec.getLsbD_cons, if_neg (Nat.ne_of_lt hn), right_cons]
    rfl

/-! ## All places at once -/

theorem total_shl (s : State n) (k : Nat) :
    Nat.repeat shl.place (k + 1) s = shl.total s.value s.carry (k + 1) := by
  have hvalue : left (s.value <<< k) false = BitVec.ofNat n (s.value.toNat * 2 ^ (k + 1)) := by
    rw [left_false, ← BitVec.shiftLeft_add]
    refine BitVec.eq_of_toNat_eq ?_
    rw [BitVec.toNat_shiftLeft, BitVec.toNat_ofNat, Nat.shiftLeft_eq]
  have hout : (s.value <<< k).msb
      = (decide (k + 1 ≤ n) && s.value.getLsbD (n - (k + 1))) := by
    rw [BitVec.msb_shiftLeft, BitVec.getMsbD_eq_getLsbD, Nat.sub_sub, Nat.add_comm 1 k]
    rfl
  show leftState (Nat.repeat shl.place k s).value false = _
  rw [value_shl]
  unfold leftState total
  dsimp only
  rw [hvalue, hout, Bool.bne_eq_xor]

theorem total_shr (s : State n) (k : Nat) :
    Nat.repeat shr.place (k + 1) s = shr.total s.value s.carry (k + 1) := by
  have hvalue (places : Nat) :
      s.value >>> places = BitVec.ofNat n (s.value.toNat / 2 ^ places) := by
    refine BitVec.eq_of_toNat_eq ?_
    rw [BitVec.toNat_ushiftRight, BitVec.toNat_ofNat, Nat.shiftRight_eq_div_pow,
      Nat.mod_eq_of_lt (Nat.lt_of_le_of_lt (Nat.div_le_self _ _) s.value.isLt)]
  show (⟨right (Nat.repeat shr.place k s).value false, (Nat.repeat shr.place k s).value.getLsbD 0,
    (Nat.repeat shr.place k s).value.msb⟩ : State n) = _
  rw [value_shr, right_false, ← BitVec.shiftRight_add, BitVec.getLsbD_ushiftRight, hvalue,
    hvalue]
  rfl

/-- The lowest bit says whether a number is odd. -/
theorem getLsbD_zero (hn : 0 < n) (value : BitVec n) :
    value.getLsbD 0 = decide (value.toInt % 2 = 1) := by
  obtain ⟨half, hhalf⟩ : ∃ half, 2 ^ n = 2 * half := Nat.pow_dvd_pow 2 hn
  have hbit : value.getLsbD 0 = decide (value.toNat % 2 = 1) := Nat.testBit_zero _
  rw [hbit, BitVec.toInt_eq_toNat_cond, decide_eq_decide]
  split <;> omega

theorem total_sar (hn : 0 < n) (s : State n) (k : Nat) :
    Nat.repeat sar.place (k + 1) s = sar.total s.value s.carry (k + 1) := by
  have hvalue (places : Nat) :
      s.value.sshiftRight places = BitVec.ofInt n (s.value.toInt / 2 ^ places) := by
    rw [BitVec.sshiftRight_eq, Int.shiftRight_eq_div_pow]
    push_cast
    rfl
  have hlowest : (s.value.sshiftRight k).getLsbD 0
      = decide (s.value.toInt / 2 ^ k % 2 = 1) := by
    rw [getLsbD_zero hn, BitVec.toInt_sshiftRight, Int.shiftRight_eq_div_pow]
    push_cast
    rfl
  show (⟨right (Nat.repeat sar.place k s).value (Nat.repeat sar.place k s).value.msb,
    (Nat.repeat sar.place k s).value.getLsbD 0, false⟩ : State n) = _
  rw [value_sar, right_msb, ← BitVec.sshiftRight_add, hlowest, hvalue]
  rfl

theorem msb_right (hn : 0 < n) (value : BitVec n) (incoming : Bool) :
    (right value incoming).msb = incoming := by
  rw [BitVec.msb_eq_getLsbD_last, getLsbD_right, if_pos (Nat.sub_add_cancel hn)]

/-- Below the topmost bit. -/
theorem msb_shiftLeft_one (hn : 1 < n) (value : BitVec n) :
    (value <<< 1).msb = value.getLsbD (n - 2) := by
  rw [BitVec.msb_shiftLeft, BitVec.getMsbD_eq_getLsbD, decide_eq_true hn, Bool.true_and,
    Nat.sub_sub]

theorem total_rol (hn : 0 < n) (s : State n) (k : Nat) :
    Nat.repeat rol.place (k + 1) s = rol.total s.value s.carry (k + 1) := by
  have hlast := value_rol s (k + 1)
  rw [Nat.repeat] at hlast ⊢
  generalize Nat.repeat rol.place k s = between at hlast ⊢
  have hout : (left between.value between.value.msb).getLsbD 0 = between.value.msb := by
    rw [getLsbD_left _ _ hn, if_pos rfl]
  have hresult : left between.value between.value.msb = s.value.rotateLeft ((k + 1) % n) := hlast
  show leftState between.value between.value.msb = _
  unfold leftState total
  dsimp only
  rw [← hresult, hout, Bool.bne_eq_xor]

theorem total_ror (hn : 1 < n) (s : State n) (k : Nat) :
    Nat.repeat ror.place (k + 1) s = ror.total s.value s.carry (k + 1) := by
  have hlast := value_ror s (k + 1)
  rw [Nat.repeat] at hlast ⊢
  generalize Nat.repeat ror.place k s = between at hlast ⊢
  have hresult : right between.value (between.value.getLsbD 0)
      = s.value.rotateRight ((k + 1) % n) := hlast
  show rightState between.value (between.value.getLsbD 0) = _
  unfold rightState total
  dsimp only
  rw [← hresult, msb_right (Nat.zero_lt_of_lt hn), msb_shiftLeft_one hn, Bool.bne_eq_xor]

theorem total_rcl (hn : 0 < n) (s : State n) (k : Nat) :
    Nat.repeat rcl.place (k + 1) s = rcl.total s.value s.carry (k + 1) := by
  have hring : BitVec.cons _ _ = (BitVec.cons s.carry s.value).rotateLeft _ :=
    ring_rcl hn s (k + 1)
  unfold total
  dsimp only
  rw [← hring, BitVec.setWidth_cons, BitVec.msb_cons, Nat.repeat]
  generalize Nat.repeat rcl.place k s = between
  show leftState between.value between.carry = _
  rw [← Bool.bne_eq_xor]
  rfl

theorem total_rcr (hn : 1 < n) (s : State n) (k : Nat) :
    Nat.repeat rcr.place (k + 1) s = rcr.total s.value s.carry (k + 1) := by
  have hring : BitVec.cons _ _ = (BitVec.cons s.carry s.value).rotateRight _ :=
    ring_rcr (Nat.zero_lt_of_lt hn) s (k + 1)
  unfold total
  dsimp only
  rw [← hring, BitVec.setWidth_cons, BitVec.msb_cons, Nat.repeat]
  generalize Nat.repeat rcr.place k s = between
  show rightState between.value between.carry = _
  rw [← Bool.bne_eq_xor, ← msb_shiftLeft_one hn]
  rfl

/-- Place after place is all places at once. -/
theorem repeat_place (hn : 1 < n) (shift : Shift) (s : State n) {k : Nat} (hk : k ≠ 0) :
    Nat.repeat shift.place k s = shift.total s.value s.carry k := by
  have hpositive : 0 < n := Nat.zero_lt_of_lt hn
  obtain ⟨k, rfl⟩ := Nat.exists_eq_add_one_of_ne_zero hk
  cases shift with
  | rol => exact total_rol hpositive s k
  | ror => exact total_ror hn s k
  | rcl => exact total_rcl hpositive s k
  | rcr => exact total_rcr hn s k
  | shl => exact total_shl s k
  | shr => exact total_shr s k
  | sar => exact total_sar hpositive s k

end Shift

end CmStream
