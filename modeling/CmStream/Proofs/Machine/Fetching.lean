import CmStream.Proofs.Machine.Tables

/-!
# Fetching an instruction

An instruction is fetched with the modifiers in front of it, of which there may be fifteen. Together
with what the instruction itself reads, this says what a whole step reads.
-/

namespace CmStream

namespace Instruction

open Machine Microprogram

/-! ## Modifiers -/

/-- What the modifiers in front of an instruction amount to, in the order in which they come. -/
def gather (modifiers : Modifiers) (r : Registers) : List Byte → Modifiers
  | [] => modifiers
  | byte :: code =>
    match Opcode.ofByte byte with
    | .modifier modifier => gather (modifiers.add modifier r) r code
    | .instruction _ => gather modifiers r code

theorem add_with_ip (modifiers : Modifiers) (modifier : Modifier) (r : Registers) (ip : Word) :
    modifiers.add modifier { r with ip := ip } = modifiers.add modifier r := by
  cases modifier with
  | segment name =>
    simp only [Modifiers.add]
    rw [Registers.segment_with_ip]
  | lock => rfl
  | repetition repetition => rfl

theorem gather_with_ip (modifiers : Modifiers) (r : Registers) (ip : Word) (code : List Byte) :
    gather modifiers { r with ip := ip } code = gather modifiers r code := by
  induction code generalizing modifiers with
  | nil => rfl
  | cons byte code ih =>
    simp only [gather, ih, add_with_ip]

variable {m : Machine} {code : List Byte} {opcode : Byte} {instruction : Instruction}
  {allowed : Nat} {modifiers : Modifiers}

/-- Behind a modifier, its part in what the modifiers amount to has been handed on. -/
theorem gather_behind {byte : Byte} {modifier : Modifier}
    (hbyte : Opcode.ofByte byte = .modifier modifier) (modifiers : Modifiers) (m : Machine)
    (code : List Byte) :
    gather (modifiers.add modifier (m.skip 1).registers) (m.skip 1).registers code
      = gather modifiers m.registers (byte :: code) := by
  unfold skip
  rw [add_with_ip, gather_with_ip]
  simp only [gather, hbyte]

/-- Behind modifiers, as long as more of them are allowed, fetching goes on with what they amount
to. -/
theorem run_fetch_modifiers (modifiers : Modifiers) (hface : m.Faces code)
    (hmodify : ∀ byte ∈ code, Encoding.isModifier byte = true) (hfew : code.length ≤ allowed) :
    (fetch allowed modifiers).run m
      = (fetch (allowed - code.length) (gather modifiers m.registers code)).run
        (m.past code.length) := by
  induction code generalizing m allowed modifiers with
  | nil =>
    rw [List.length_nil, past_zero]
    rfl
  | cons byte code ih =>
    obtain ⟨modifier, hbyte⟩ := exists_modifier (hmodify byte List.mem_cons_self)
    cases allowed with
    | zero => exact absurd hfew (Nat.not_succ_le_zero _)
    | succ allowed =>
      rw [run_fetch_modifier _ modifiers hface hbyte, ih _ hface.tail
        (fun later hlater => hmodify later (List.mem_cons_of_mem _ hlater))
        (Nat.le_of_succ_le_succ hfew), gather_behind hbyte, past_skip, List.length_cons,
        Nat.add_sub_add_right]

/-- An instruction is fetched with its modifiers, if these are few enough. -/
theorem run_fetch_gather (modifiers : Modifiers) (hface : m.Faces (code ++ [opcode]))
    (hmodify : ∀ byte ∈ code, Encoding.isModifier byte = true) (hfew : code.length ≤ allowed)
    (hopcode : Opcode.ofByte opcode = .instruction instruction) :
    (fetch allowed modifiers).run m
      = (.ok ⟨opcode, instruction, gather modifiers m.registers code⟩,
        m.past (code.length + 1)) := by
  obtain ⟨hcode, hlast⟩ := faces_append_iff.mp hface
  rw [run_fetch_modifiers modifiers hcode hmodify hfew, run_fetch_instruction _ _ hlast hopcode,
    past_add]
  rfl

/-- One modifier too many is named as the opcode. -/
theorem run_fetch_tooMany {last : Byte} (modifiers : Modifiers) (hface : m.Faces (code ++ [last]))
    (hmodify : ∀ byte ∈ code ++ [last], Encoding.isModifier byte = true) :
    (fetch code.length modifiers).run m
      = (.error (.undefinedOpcode last), m.past (code.length + 1)) := by
  obtain ⟨hcode, hlast⟩ := faces_append_iff.mp hface
  obtain ⟨hbefore, hbehind⟩ := List.forall_mem_append.mp hmodify
  obtain ⟨modifier, hmodifier⟩ := exists_modifier (hbehind last List.mem_cons_self)
  rw [run_fetch_modifiers modifiers hcode hbefore (Nat.le_refl _), Nat.sub_self, fetch,
    run_bind_of_ok _ (run_fetchByte hlast), hmodifier, past_add]
  rfl

/-! ## What is accessed -/

section Accesses

open GrantedAccess

theorem accesses_fetchByte {byte : Byte} (h : m.Faces (byte :: code)) :
    fetchByte.accesses m = [⟨.execute, m.registers.codePointer, byte⟩] := by
  show Microprogram.accesses (.load _ _ _ _) _ = _
  rw [Microprogram.accesses, h.head]
  rfl

/-- The modifiers are accessed one after the other, and then what follows them. -/
theorem accesses_fetch_modifiers (modifiers : Modifiers) (hface : m.Faces code)
    (hmodify : ∀ byte ∈ code, Encoding.isModifier byte = true) (hfew : code.length ≤ allowed) :
    (fetch allowed modifiers).accesses m
      = fetchesOf m.registers.codePointer code
        ++ (fetch (allowed - code.length) (gather modifiers m.registers code)).accesses
          (m.past code.length) := by
  induction code generalizing m allowed modifiers with
  | nil =>
    rw [List.length_nil, past_zero]
    rfl
  | cons byte code ih =>
    obtain ⟨modifier, hbyte⟩ := exists_modifier (hmodify byte List.mem_cons_self)
    cases allowed with
    | zero => exact absurd hfew (Nat.not_succ_le_zero _)
    | succ allowed =>
      have hrest := ih (modifiers.add modifier (m.skip 1).registers) hface.tail
        (fun later hlater => hmodify later (List.mem_cons_of_mem _ hlater))
        (Nat.le_of_succ_le_succ hfew)
      rw [gather_behind hbyte, past_skip] at hrest
      rw [fetch, accesses_bind_of_ok _ (run_fetchByte hface), accesses_fetchByte hface, hbyte,
        List.length_cons, Nat.add_sub_add_right]
      exact congrArg (List.cons _) hrest

/-- Nothing but the modifiers and the opcode is accessed to fetch an instruction. -/
theorem accesses_fetch (modifiers : Modifiers) (hface : m.Faces (code ++ [opcode]))
    (hmodify : ∀ byte ∈ code, Encoding.isModifier byte = true) (hfew : code.length ≤ allowed)
    (hopcode : Opcode.ofByte opcode = .instruction instruction) :
    (fetch allowed modifiers).accesses m
      = fetchesOf m.registers.codePointer (code ++ [opcode]) := by
  obtain ⟨hcode, hlast⟩ := faces_append_iff.mp hface
  rw [accesses_fetch_modifiers modifiers hcode hmodify hfew, fetchesOf_append, fetch,
    accesses_bind_of_ok _ (run_fetchByte hlast), accesses_fetchByte hlast, hopcode]
  rfl

end Accesses

/-- The bytes of an instruction that has been fetched are in front of the machine. -/
theorem exists_of_fetch_eq_ok {fetched : Fetched} {after : Machine}
    (h : (fetch allowed modifiers).run m = (.ok fetched, after)) :
    ∃ code, code.length ≤ allowed ∧ (∀ byte ∈ code, Encoding.isModifier byte = true)
      ∧ Opcode.ofByte fetched.opcode = .instruction fetched.instruction
      ∧ m.Faces (code ++ [fetched.opcode]) := by
  induction allowed generalizing m modifiers with
  | zero =>
    rw [fetch] at h
    obtain ⟨byte, between, hbyte, hrest⟩ := run_bind_eq_ok h
    obtain ⟨hface, rfl⟩ := fetchByte_eq_ok hbyte
    split at hrest
    case h_1 instruction heq =>
      cases hrest
      exact ⟨[], Nat.le_refl 0, fun _ hnone => absurd hnone List.not_mem_nil, heq, hface⟩
    case h_2 => cases hrest
  | succ allowed ih =>
    rw [fetch] at h
    obtain ⟨byte, between, hbyte, hrest⟩ := run_bind_eq_ok h
    obtain ⟨hface, rfl⟩ := fetchByte_eq_ok hbyte
    split at hrest
    case h_1 instruction heq =>
      cases hrest
      exact ⟨[], Nat.zero_le _, fun _ hnone => absurd hnone List.not_mem_nil, heq, hface⟩
    case h_2 modifier heq =>
      obtain ⟨code, hfew, hmodify, hopcode, hcode⟩ := ih hrest
      refine ⟨byte :: code, Nat.succ_le_succ hfew, fun later hlater => ?_, hopcode, ?_⟩
      · rcases List.mem_cons.mp hlater with rfl | hlater
        · exact isModifier_of_modifier heq
        · exact hmodify later hlater
      · exact faces_cons_iff.mpr ⟨hface.head, hcode⟩

/-- Fetching reads the modifiers and the opcode. -/
theorem reads_fetch (hface : m.Faces (code ++ [opcode]))
    (hmodify : ∀ byte ∈ code, Encoding.isModifier byte = true) (hfew : code.length ≤ allowed)
    (hopcode : Opcode.ofByte opcode = .instruction instruction) :
    Reads Eq (fetch allowed modifiers) (code.length + 1) m := by
  induction code generalizing m allowed modifiers with
  | nil =>
    rw [fetch]
    refine (Reads.fetchByte m).bind (k := 0) fun byte hbyte => ?_
    obtain rfl := (fetchByte_eq_ok hbyte).1.nextByte_eq.symm.trans hface.nextByte_eq
    rw [hopcode]
    exact Reads.of_looks (Looks.done _) _
  | cons first code ih =>
    obtain ⟨modifier, hfirst⟩ := exists_modifier (hmodify first List.mem_cons_self)
    cases allowed with
    | zero => exact absurd hfew (Nat.not_succ_le_zero _)
    | succ allowed =>
      rw [fetch, List.length_cons, Nat.add_comm (code.length + 1)]
      refine (Reads.fetchByte m).bind fun byte hbyte => ?_
      obtain rfl := (fetchByte_eq_ok hbyte).1.nextByte_eq.symm.trans hface.nextByte_eq
      rw [hfirst]
      refine Reads.look Looks.registers fun r => ih hface.tail (fun later hlater => ?_) ?_
      · exact hmodify later (List.mem_cons_of_mem _ hlater)
      · exact Nat.le_of_succ_le_succ hfew

/-- Fetching reads bytes and does nothing else, wherever it ends. -/
theorem exists_reads_fetch (allowed : Nat) (modifiers : Modifiers) (m : Machine) :
    ∃ n, Reads Eq (fetch allowed modifiers) n m := by
  induction allowed generalizing m modifiers with
  | zero =>
    rw [fetch]
    refine Reads.exists_bind ⟨1, Reads.fetchByte m⟩ fun byte after _ => ?_
    cases Opcode.ofByte byte with
    | instruction instruction => exact ⟨0, Reads.of_looks (Looks.done _) _⟩
    | modifier modifier => exact ⟨0, Reads.of_looks (Looks.raise _ _) _⟩
  | succ allowed ih =>
    rw [fetch]
    refine Reads.exists_bind ⟨1, Reads.fetchByte m⟩ fun byte after _ => ?_
    cases Opcode.ofByte byte with
    | instruction instruction => exact ⟨0, Reads.of_looks (Looks.done _) _⟩
    | modifier modifier =>
      exact Reads.exists_bind ⟨0, Reads.of_looks Looks.registers _⟩ fun r after' _ => ih _ _

/-! ## Whole instructions -/

theorem course_settles {instruction : Instruction} {field : BitVec 3} {before after : Machine}
    (h : instruction.course field before after) : before.Settles after := by
  unfold course at h
  split at h
  case isTrue => exact h
  case isFalse => exact h.settled

/-- A step reads the modifiers, the opcode, and what the instruction reads. -/
theorem reads_fetchAndPerform (hface : m.Faces (code ++ [opcode]))
    (hmodify : ∀ byte ∈ code, Encoding.isModifier byte = true) (hfew : code.length ≤ maxModifiers)
    (hopcode : Opcode.ofByte opcode = .instruction instruction) :
    Reads (instruction.course (Encoding.field (m.past (code.length + 1)).nextByte)) fetchAndPerform
      (code.length + 1 + instruction.tailLength (m.past (code.length + 1)).nextByte) m := by
  refine (reads_fetch hface hmodify hfew hopcode).bind fun fetched hfetched => ?_
  cases hfetched.symm.trans (run_fetch_gather _ hface hmodify hfew hopcode)
  exact (reads_perform _ instruction _ _).map

/-- Whatever a step comes to, it reads bytes one after the other and leaves the flags word
settled. -/
theorem exists_reads_fetchAndPerform (m : Machine) :
    ∃ n, Reads Settles fetchAndPerform n m := by
  refine Reads.exists_bind (exists_reads_fetch _ _ m) fun fetched after _ => ?_
  have hreads := (reads_perform after fetched.instruction fetched.opcode fetched.modifiers).mono
    fun _ _ => course_settles
  exact ⟨_, hreads.map⟩

end Instruction

end CmStream
