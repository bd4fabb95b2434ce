import CmStream.Proofs.Machine.Targets
import CmStream.Proofs.Strings.Faulting

/-!
# Where string operations store

An element stores to its destination, which is where the index stands by then. Of a repeated
operation the counter tells which elements have been handled; one more has been begun if an access
has been refused.
-/

namespace CmStream

open Encoding Machine Microprogram

namespace StringOperation

variable {m now after last : Machine} {operation : StringOperation} {width : Width} {segment : Word}
  {repetition : Repetition} {granted : GrantedAccess} {i count : Nat}

/-! ## One element -/

theorem destinationOf_zero (m : Machine) (width : Width) :
    m.destinationOf width 0 = ⟨m.registers.es, m.registers.di⟩ := by
  unfold destinationOf
  rw [BitVec.zero_mul, BitVec.add_zero]

/-- An element asks for data, and for nothing to be written but its destination. -/
theorem access_of_mem_requests {request : Access × FarPointer}
    (h : request ∈ operation.requests width segment now.registers) :
    request.1 ≠ .execute
      ∧ (request.1 = .write →
        request.2 ∈ (now.destinationOf width 0).following width.size.toNat) := by
  unfold requests at h
  rcases List.mem_append.mp h with hsource | hdestination
  · split at hsource
    case isTrue =>
      obtain ⟨place, -, rfl⟩ := List.mem_map.mp hsource
      exact ⟨nofun, nofun⟩
    case isFalse => cases hsource
  · split at hdestination
    case isTrue =>
      obtain ⟨place, hplace, rfl⟩ := List.mem_map.mp hdestination
      rw [destinationOf_zero]
      refine ⟨?_, fun _ => hplace⟩
      unfold destinationAccess
      split
      case isTrue => exact nofun
      case isFalse => exact nofun
    case isFalse => cases hdestination

theorem storesIn_element (operation : StringOperation) (width : Width) (segment : Word)
    (now : Machine) : (operation.element width segment).StoresIn now
      fun place => place ∈ (now.destinationOf width 0).following width.size.toNat := by
  intro granted hmade hwrite
  have hrequest : granted.request ∈ operation.requests width segment now.registers := by
    have hmem := List.mem_map_of_mem (f := GrantedAccess.request) hmade
    cases asks_element operation width segment now with
    | granted ending made holds => rwa [made] at hmem
    | refused ending made holds => exact made.subset (List.mem_append_left _ hmem)
  exact (access_of_mem_requests hrequest).2 hwrite

/-! ## One element after the other -/

/-- Behind an element, the next destination is where the second was before. -/
theorem destinationOf_counted (h : operation.Moved width now after)
    (huses : operation.usesDestination = true) (i : Nat) :
    after.counted.destinationOf width i = now.destinationOf width (i + 1) := by
  have hstride : stride width after.registers = stride width now.registers := by
    unfold stride
    rw [h.direction]
  have hes : after.registers.es = now.registers.es := by
    rw [h.registers]
    rfl
  have hdi : after.registers.di = now.registers.di + stride width after.registers := by
    have hadvanced := congrArg Registers.di h.registers
    exact hadvanced.trans (if_pos huses)
  show FarPointer.mk after.registers.es
    (after.registers.di + BitVec.ofNat 16 i * stride width after.registers) = _
  unfold destinationOf
  rw [hdi, hes, hstride, BitVec.add_assoc, BitVec.ofNat_add, BitVec.add_mul, BitVec.one_mul,
    BitVec.add_comm (stride width now.registers)]

/-- The counter says that as many elements of `count` are left, and one has been begun if an access
to data has been refused. -/
def GotTo (count : Nat) (ending : Except Cause Unit × Machine) (i : Nat) : Prop :=
  ending.2.registers.cx.toNat + i < count
    ∨ (ending.2.registers.cx.toNat + i = count
      ∧ ∃ fault, ending.1 = .error (.fault fault) ∧ fault.access ≠ .execute)

/-- The induction is on the elements that are counted still. -/
theorem storesIn_elements (hcompares : operation.compares = false)
    (huses : operation.usesDestination = true) (hcount : m.registers.cx.toNat = count) :
    let elements := operation.elements width segment repetition count
    (elements.run m).2.registers.cx.toNat ≤ count
      ∧ elements.StoresIn m fun place => ∃ i, GotTo count (elements.run m) i
        ∧ place ∈ (m.destinationOf width i).following width.size.toNat := by
  induction count generalizing m with
  | zero => exact ⟨Nat.le_of_eq hcount, fun granted hmade => by cases hmade⟩
  | succ count ih =>
    have hfirst := storesIn_element operation width segment m
    cases asks_element operation width segment m with
    | @refused refused last ending made holds =>
      have hrun : (operation.elements width segment repetition (count + 1)).run m
          = (.error (.fault ⟨refused.2.linear, refused.1⟩), last) := by
        rw [elements, run_bind, ending]
      have hcx : last.registers.cx.toNat = count + 1 := by
        rw [holds.1]
        exact hcount
      have hdata : refused.1 ≠ .execute := (access_of_mem_requests
        (made.subset (List.mem_append_right _ List.mem_cons_self))).1
      dsimp only
      rw [hrun]
      refine ⟨Nat.le_of_eq hcx, fun granted hmade hwrite => ?_⟩
      rw [elements, accesses_bind_of_error _ ending] at hmade
      exact ⟨0, .inr ⟨hcx, _, rfl, hdata⟩, hfirst granted hmade hwrite⟩
    | @granted _ after ending made moved =>
      have hcounted : after.counted.registers.cx.toNat = count := by
        have hcx : after.registers.cx = m.registers.cx := by
          rw [moved.registers]
          rfl
        show (after.registers.cx - 1).toNat = count
        rw [hcx]
        bv_omega
      obtain ⟨hle, hrest⟩ := ih (m := after.counted) hcounted
      have hgoes := isOver_of_compares_eq_false hcompares repetition after.counted.registers
      dsimp only
      rw [run_elements_succ count ending, hgoes, if_neg Bool.false_ne_true]
      refine ⟨Nat.le_succ_of_le hle, fun granted hmade hwrite => ?_⟩
      rw [accesses_elements_succ count ending, hgoes, if_neg Bool.false_ne_true] at hmade
      rcases List.mem_append.mp hmade with hmade | hmade
      · exact ⟨0, .inl (Nat.lt_succ_of_le hle), hfirst granted hmade hwrite⟩
      · obtain ⟨i, hgot, hplace⟩ := hrest granted hmade hwrite
        rw [destinationOf_counted moved huses] at hplace
        refine ⟨i + 1, hgot.imp Nat.succ_lt_succ fun hlast => ?_, hplace⟩
        exact ⟨congrArg Nat.succ hlast.1, hlast.2⟩

end StringOperation

end CmStream
