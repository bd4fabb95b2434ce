import CmStream.Machine.Accesses
import CmStream.Proofs.Machine.Sight

/-!
# Steps in which no access is refused

Such a step fetches its instruction, and goes on behind every part of it that does not give up by
itself. So it is followed part by part, down to the one that decides how it ends.
-/

namespace CmStream

open Encoding Instruction Microprogram

namespace Instruction

open Machine

variable {m after : Machine} {allowed : Nat} {modifiers : Modifiers} {cause : Cause}

/-- Fetching gives up by itself for one modifier too many. -/
theorem exists_of_fetch_eq_error (h : (fetch allowed modifiers).run m = (.error cause, after))
    (hown : cause.isFault = false) : ∃ code, code.length = allowed + 1
      ∧ (∀ byte ∈ code, Encoding.isModifier byte = true) ∧ m.Faces code := by
  induction allowed generalizing m modifiers with
  | zero =>
    rw [fetch, run_bind] at h
    rcases hfirst : fetchByte.run m with ⟨byte | byte, between⟩
    · obtain ⟨fault, rfl⟩ := Persists.fetchByte.exists_fault (congrArg Prod.fst hfirst)
      rw [hfirst] at h
      cases h
      cases hown
    obtain ⟨hface, rfl⟩ := fetchByte_eq_ok hfirst
    rw [hfirst] at h
    dsimp only at h
    cases hopcode : Opcode.ofByte byte with
    | instruction instruction =>
      rw [hopcode] at h
      cases h
    | modifier modifier =>
      refine ⟨[byte], rfl, fun later hlater => ?_, hface⟩
      obtain rfl := List.mem_singleton.mp hlater
      exact isModifier_of_modifier hopcode
  | succ allowed ih =>
    rw [fetch, run_bind] at h
    rcases hfirst : fetchByte.run m with ⟨byte | byte, between⟩
    · obtain ⟨fault, rfl⟩ := Persists.fetchByte.exists_fault (congrArg Prod.fst hfirst)
      rw [hfirst] at h
      cases h
      cases hown
    obtain ⟨hface, rfl⟩ := fetchByte_eq_ok hfirst
    rw [hfirst] at h
    dsimp only at h
    cases hopcode : Opcode.ofByte byte with
    | instruction instruction =>
      rw [hopcode] at h
      cases h
    | modifier modifier =>
      rw [hopcode] at h
      obtain ⟨code, hlength, hmodify, hcode⟩ := ih h
      refine ⟨byte :: code, congrArg Nat.succ hlength, fun later hlater => ?_,
        faces_cons_iff.mpr ⟨hface.head, hcode⟩⟩
      rcases List.mem_cons.mp hlater with rfl | hlater
      · exact isModifier_of_modifier hopcode
      · exact hmodify later hlater

end Instruction

namespace Machine

variable {m between : Machine} {opcode : Byte} {instruction : Instruction}

theorem unrefused_of_continued (h : m.step.1 = .continued) : m.Unrefused := by
  intro place fault hstopped
  rw [h] at hstopped
  cases hstopped

/-- Too many modifiers are in front of no opcode. -/
theorem opcode?_of_faces {code : List Byte} (hface : m.Faces code)
    (hlength : code.length = Encoding.maxModifiers + 1)
    (hmodify : ∀ byte ∈ code, isModifier byte = true) : m.opcode? = none := by
  have hmodifiers : m.modifiers = code := by
    unfold modifiers
    rw [← hlength, map_codeAt_of_faces hface]
    exact List.takeWhile_eq_self_iff.mpr hmodify
  unfold opcode?
  rw [hmodifiers, hlength, if_neg (Nat.not_succ_le_self _)]

/-- The step comes to what is left of its instruction, in which no access is refused. -/
structure ComesTo (m : Machine) (rest : Microprogram Unit) (between : Machine) : Prop where
  unrefused : ∀ fault, (rest.run between).1 ≠ .error (.fault fault)
  continued : ∀ after, rest.run between = (.ok (), after) → m.step = (.continued, after)
  stopped : ∀ cause after, rest.run between = (.error cause, after) →
    m.step = (.stopped (.gaveUp m.registers.codePointer cause), after)

namespace ComesTo

/-- A part that does not give up by itself has succeeded. -/
theorem exists_ok {α : Type} {first : Microprogram α} {rest : α → Microprogram Unit}
    (h : m.ComesTo (first >>= rest) between) (hfirst : first.Persists) :
    ∃ value after, first.run between = (.ok value, after) ∧ m.ComesTo (rest value) after := by
  obtain ⟨hunrefused, hcontinued, hstopped⟩ := h
  rcases hrun : first.run between with ⟨cause | value, after⟩
  · obtain ⟨fault, rfl⟩ := hfirst.exists_fault (congrArg Prod.fst hrun)
    exact absurd (by rw [run_bind, hrun]) (hunrefused fault)
  · rw [run_bind_of_ok rest hrun] at hunrefused hcontinued hstopped
    exact ⟨value, after, rfl, hunrefused, hcontinued, hstopped⟩

/-- If nothing that is left gives up by itself, the step continues. -/
theorem exists_continued {rest : Microprogram Unit} (h : m.ComesTo rest between)
    (hrest : rest.Persists) :
    rest.run between = (.ok (), m.step.2) ∧ m.step.1 = .continued := by
  rcases hrun : rest.run between with ⟨cause | ⟨⟨⟩⟩, after⟩
  · obtain ⟨fault, rfl⟩ := hrest.exists_fault (congrArg Prod.fst hrun)
    exact absurd (congrArg Prod.fst hrun) (h.unrefused fault)
  · rw [h.continued after hrun]
    exact ⟨rfl, rfl⟩

end ComesTo

/-- The step of an instruction that does not halt comes to what the instruction does. -/
theorem comesTo_perform (hunrefused : m.Unrefused) (hbegins : m.opcode? = some opcode)
    (hopcode : Opcode.ofByte opcode = .instruction instruction) (hgoes : instruction ≠ .halt) :
    ∃ modifiers : Modifiers, modifiers.override = override? m.modifiers m.registers
      ∧ m.ComesTo (instruction.perform opcode modifiers) m.behindOpcode := by
  rcases hfetch : (fetch Instruction.maxModifiers Modifiers.none).run m
    with ⟨cause | fetched, between⟩
  · have hwhole : fetchAndPerform.run m = (.error cause, between) := by
      unfold fetchAndPerform
      rw [run_bind, hfetch]
    have hstep := congrArg Prod.fst (step_eq_stopped hwhole)
    cases hown : cause.isFault with
    | true =>
      cases cause with
      | fault fault => exact absurd hstep (hunrefused _ fault)
      | _ => cases hown
    | false =>
      obtain ⟨code, hlength, hmodify, hface⟩ := exists_of_fetch_eq_error hfetch hown
      rw [opcode?_of_faces hface hlength hmodify] at hbegins
      cases hbegins
  · obtain ⟨hseen, hfound, hmodifiers, rfl⟩ := seen_fetch hfetch
    obtain ⟨found, performed, modifiers⟩ := fetched
    obtain rfl : opcode = found := Option.some.inj (hbegins.symm.trans hseen)
    obtain rfl : instruction = performed := Opcode.instruction.inj (hopcode.symm.trans hfound)
    have hstopped (cause : Cause) (after : Machine)
        (hrun : (instruction.perform opcode modifiers).run m.behindOpcode
          = (.error cause, after)) :
        m.step = (.stopped (.gaveUp m.registers.codePointer cause), after) :=
      step_of_perform_error hfetch hrun
    obtain rfl : modifiers = _ := hmodifiers
    refine ⟨_, override_gather_modifiers m, fun fault hfault => ?_, fun after hrun => ?_,
      hstopped⟩
    · rcases hrun : Microprogram.run _ m.behindOpcode with ⟨result, after⟩
      rw [hrun] at hfault
      cases hfault
      exact hunrefused _ fault (congrArg Prod.fst (hstopped _ after hrun))
    · rw [step_of_perform hfetch hrun, if_neg hgoes]

section Operands

variable {rest : Operands → Microprogram Unit} {width : Width}
  {further : Operands → BitVec width.bits → Microprogram Unit}

/-- Behind the operand byte and its displacement. -/
theorem comesTo_operands (h : m.ComesTo (do
      let operands ← Operands.fetch (override? m.modifiers m.registers)
      rest operands) m.behindOpcode) :
    m.ComesTo (rest ⟨field (m.tailAt 0), m.formOperand⟩) (m.behindOpcode.past m.numberPlace) := by
  obtain ⟨operands, between, hoperands, h⟩ := h.exists_ok (Persists.fetchOperands _)
  obtain ⟨rfl, rfl⟩ := seen_fetchOperands hoperands
  exact h

/-- With what the operand is worth. -/
theorem comesTo_loaded (h : m.ComesTo (do
      let operands ← Operands.fetch (override? m.modifiers m.registers)
      let value ← operands.operand.load width
      further operands value) m.behindOpcode) :
    m.ComesTo (further ⟨field (m.tailAt 0), m.formOperand⟩ (m.formValue width))
      (m.behindOpcode.past m.numberPlace) := by
  obtain ⟨value, between, hvalue, h⟩ := (comesTo_operands h).exists_ok (Persists.loadOperand _ _)
  obtain ⟨rfl, rfl⟩ := seen_loadForm hvalue
  exact h

end Operands

end Machine

end CmStream
