import CmStream.Proofs.Strings.Storing

/-!
# What a step changes in memory

A step fetches its instruction without a store, and then its instruction stores where it has its
destination. So a byte that a step changes backs a place of the destination, however the step ends.
All bytes of an instruction are fetched before it stores: if one of them is refused, memory stays
as it is.
-/

namespace CmStream

open Encoding Instruction Machine

namespace Microprogram

variable {α β : Type} {p : Microprogram α} {f : α → Microprogram β} {m : Machine} {fault : Fault}

/-! ## Fetches in front of stores -/

/-- A plain program is refused data at most. -/
theorem Plain.access_of_fault (h : Plain p) {last : Machine}
    (hrun : p.run m = (.error (.fault fault), last)) : fault.access ≠ .execute := by
  induction h generalizing m last with
  | done | alter => cases hrun
  | raise cause own =>
    cases hrun
    cases own
  | load place =>
    unfold loadByte run at hrun
    split at hrun
    case h_1 => cases hrun
    case h_2 hread =>
      cases hrun
      rw [(PagedMemory.read_eq_error hread).1]
      intro haccess
      cases haccess
  | store place value =>
    unfold storeByte run at hrun
    split at hrun
    case h_1 => cases hrun
    case h_2 hlocate =>
      cases hrun
      rw [(PagedMemory.locate_eq_error hlocate).1]
      intro haccess
      cases haccess
  | inspect blind plain ih => exact ih m.registers hrun
  | @bind _ _ p f first rest ihfirst ihrest =>
    rw [run_bind] at hrun
    split at hrun
    case h_1 value after _ => exact ihrest value hrun
    case h_2 cause after herror =>
      cases hrun
      exact ihfirst herror

/-- No byte of an instruction is refused to the program. -/
def FetchesNothing (p : Microprogram α) : Prop :=
  ∀ m fault last, p.run m = (.error (.fault fault), last) → fault.access ≠ .execute

namespace FetchesNothing

theorem of_plain (h : Plain p) : p.FetchesNothing := fun _ _ _ hrun => h.access_of_fault hrun

theorem bind (h : p.FetchesNothing) (hrest : ∀ value, (f value).FetchesNothing) :
    (p >>= f).FetchesNothing := by
  intro m fault last hrun
  rw [run_bind] at hrun
  split at hrun
  case h_1 value after _ => exact hrest value after fault last hrun
  case h_2 cause after herror =>
    cases hrun
    exact h m fault last herror

theorem registers : registers.FetchesNothing := fun _ _ _ hrun => by cases hrun

theorem modify (change : Registers → Registers) : (modifyRegisters change).FetchesNothing :=
  fun _ _ _ hrun => by cases hrun

theorem push (value : Word) : (push value).FetchesNothing := of_plain (.push value)

theorem pushReturn : pushReturn.FetchesNothing := bind registers fun _ => push _

theorem pushFarReturn : pushFarReturn.FetchesNothing :=
  bind registers fun _ => bind (push _) fun _ => pushReturn

end FetchesNothing

/-- If a byte of an instruction is refused to the program, it has stored nothing. -/
def FetchesFirst (p : Microprogram α) : Prop :=
  ∀ m fault last, p.run m = (.error (.fault fault), last) → fault.access = .execute →
    last.memory = m.memory

namespace FetchesFirst

theorem of_fetchesNothing (h : p.FetchesNothing) : p.FetchesFirst :=
  fun m fault last hrun haccess => absurd haccess (h m fault last hrun)

theorem of_plain (h : Plain p) : p.FetchesFirst := of_fetchesNothing (.of_plain h)

theorem memory_of_storesOnly (h : ∀ places, p.StoresOnly places) (m : Machine) :
    (p.run m).2.memory = m.memory :=
  ((h fun _ => False).storesIn m).memory_eq fun _ => id

theorem of_storesOnly (h : ∀ places, p.StoresOnly places) : p.FetchesFirst := by
  intro m fault last hrun _
  have hmemory := memory_of_storesOnly h m
  rwa [hrun] at hmemory

/-- Nothing is stored in front of what fetches first. -/
theorem bind (h : ∀ places, p.StoresOnly places) (hrest : ∀ value, (f value).FetchesFirst) :
    (p >>= f).FetchesFirst := by
  intro m fault last hrun haccess
  have hmemory := memory_of_storesOnly h m
  rw [run_bind] at hrun
  split at hrun
  case h_1 value after hfirst =>
    rw [hfirst] at hmemory
    exact (hrest value after fault last hrun haccess).trans hmemory
  case h_2 cause after hfirst =>
    cases hrun
    rwa [hfirst] at hmemory

/-- Nothing is fetched behind what fetches first. -/
theorem andThen (h : p.FetchesFirst) (hrest : ∀ value, (f value).FetchesNothing) :
    (p >>= f).FetchesFirst := by
  intro m fault last hrun haccess
  rw [run_bind] at hrun
  split at hrun
  case h_1 value after _ => exact absurd haccess (hrest value after fault last hrun)
  case h_2 cause after hfirst =>
    cases hrun
    exact h m fault last hfirst haccess

end FetchesFirst

end Microprogram

open Microprogram

namespace Instruction

section Groups

variable {override : Option Word}

theorem fetchesFirst_operands {rest : Operands → Microprogram Unit}
    (h : ∀ operands, (rest operands).FetchesFirst) :
    FetchesFirst (Operands.fetch override >>= rest) :=
  .bind (fun _ => .fetchOperands _) h

/-- The same for what is plain behind its operands. -/
theorem fetchesFirst_of_plain {rest : Operands → Microprogram Unit}
    (h : ∀ operands, Plain (rest operands)) : FetchesFirst (Operands.fetch override >>= rest) :=
  fetchesFirst_operands fun operands => .of_plain (h operands)

theorem fetchesFirst_performUnaryGroup (width : Width) :
    (performUnaryGroup width override).FetchesFirst := by
  refine fetchesFirst_operands fun operands => .bind (fun _ => .loadOperand _ _) fun value => ?_
  refine .bind (fun _ => .registers) fun r => ?_
  dsimp only
  cases UnaryOperation.ofIndex operands.field with
  | test =>
    refine .of_storesOnly fun _ => .bind (.fetchNumber _ _) fun mask => ?_
    exact .bind (.settle _) fun _ => .pure _
  | not => exact .of_plain (.storeOperand _ _ _)
  | neg =>
    refine .of_plain (.bind (.settle fun flags => ?_) fun _ => .storeOperand _ _ _)
    exact Arithmetic.settled_subtract _ _ flags _
  | mul | imul => exact .of_plain (.storeProduct _ _)
  | div | idiv => exact .of_plain (.storeQuotient _ _)

theorem fetchesFirst_performByteGroup (opcode : Byte) :
    (performByteGroup opcode override).FetchesFirst := by
  refine fetchesFirst_of_plain fun operands => .bind (.loadOperand _ _) fun value => ?_
  refine .ite ?_ (.ite ?_ (.raise _ _))
  · exact .bind (.settle fun flags => Arithmetic.settled_increment _ flags) fun _ =>
      .storeOperand _ _ _
  · exact .bind (.settle fun flags => Arithmetic.settled_decrement _ flags) fun _ =>
      .storeOperand _ _ _

theorem fetchesFirst_performWordGroup (opcode : Byte) :
    (performWordGroup opcode override).FetchesFirst := by
  refine fetchesFirst_operands fun operands => ?_
  cases WordOperation.ofIndex operands.field with
  | increment =>
    refine .of_plain (.bind (.loadOperand _ _) fun value => ?_)
    exact .bind (.settle fun flags => Arithmetic.settled_increment _ flags) fun _ =>
      .storeOperand _ _ _
  | decrement =>
    refine .of_plain (.bind (.loadOperand _ _) fun value => ?_)
    exact .bind (.settle fun flags => Arithmetic.settled_decrement _ flags) fun _ =>
      .storeOperand _ _ _
  | call =>
    refine .bind (fun _ => .loadOperand _ _) fun target => .of_fetchesNothing ?_
    exact .bind .pushReturn fun _ => .modify _
  | callFar =>
    refine .bind (fun _ => .placeOperand _ _) fun place => ?_
    refine .bind (fun _ => .loadPointer _) fun target => .of_fetchesNothing ?_
    exact .bind .pushFarReturn fun _ => .modify _
  | jump => exact .of_storesOnly fun _ => .bind (.loadOperand _ _) fun _ => .modify _
  | jumpFar =>
    refine .of_storesOnly fun _ => .bind (.placeOperand _ _) fun place => ?_
    exact .bind (.loadPointer _) fun _ => .modify _
  | push => exact .of_plain (.bind (.loadOperand _ _) fun _ => .push _)
  | undefined => exact .of_plain (.raise _ _)

theorem fetchesFirst_performShiftGroup (width : Width) (source : CountSource) :
    (performShiftGroup width source override).FetchesFirst := by
  refine fetchesFirst_operands fun operands => ?_
  cases source with
  | one => exact .of_plain (.shift _ _ _ _)
  | counter => exact .of_plain (.bind (.getRegister _ _) fun _ => .shift _ _ _ _)
  | immediate => exact .bind (fun _ => .fetchByte) fun _ => .of_plain (.shift _ _ _ _)

end Groups

/-- All bytes of an instruction are fetched before it stores. -/
theorem fetchesFirst_perform (instruction : Instruction) (opcode : Byte) (modifiers : Modifiers) :
    (instruction.perform opcode modifiers).FetchesFirst := by
  by_cases hbare : instruction.isBare = true
  · exact .of_plain (plain_perform hbare opcode modifiers)
  by_cases hnothing : instruction.storesNothing = true
  · exact .of_storesOnly fun _ => storesOnly_perform hnothing opcode modifiers
  cases instruction with
  | arithmetic operation direction width =>
    cases direction with
    | toForm =>
      refine fetchesFirst_of_plain fun operands => .bind (.loadOperand _ _) fun a => ?_
      exact .bind (.getRegister _ _) fun b => .combine _ a b fun _ => .storeOperand _ _ _
    | toField | toAccumulator => exact absurd rfl hnothing
  | arithmeticGroup width short =>
    refine fetchesFirst_operands fun operands => .bind (fun _ => .loadOperand _ _) fun a => ?_
    refine .bind (fun _ => .fetchNumber _ _) fun b => .of_plain ?_
    exact .combine _ a b fun _ => .storeOperand _ _ _
  | unaryGroup width => exact fetchesFirst_performUnaryGroup width
  | byteGroup => exact fetchesFirst_performByteGroup opcode
  | wordGroup => exact fetchesFirst_performWordGroup opcode
  | shiftGroup width source => exact fetchesFirst_performShiftGroup width source
  | moveToForm width =>
    refine fetchesFirst_of_plain fun operands => ?_
    exact .bind (.getRegister _ _) fun _ => .storeOperand _ _ _
  | moveImmediate width =>
    refine fetchesFirst_operands fun operands => .bind (fun _ => .fetchNumber _ _) fun _ => ?_
    exact .of_plain (.storeOperand _ _ _)
  | moveFromSegment =>
    refine fetchesFirst_operands fun operands => .bind (fun _ => .registers) fun r => ?_
    exact .of_plain (.storeOperand _ _ _)
  | storeAccumulator width =>
    refine .bind (fun _ => .fetchPlace _) fun place => .of_plain ?_
    exact .bind (.getRegister _ _) fun _ => .storeData _ _ _
  | exchange width =>
    refine fetchesFirst_of_plain fun operands => .bind (.loadOperand _ _) fun a => ?_
    refine .bind (.getRegister _ _) fun b => .bind (.storeOperand _ _ _) fun _ => ?_
    exact .setRegister _ _ _
  | pushImmediate short => exact .bind (fun _ => .fetchNumber _ _) fun _ => .of_plain (.push _)
  | popToForm =>
    refine fetchesFirst_of_plain fun operands => ?_
    exact .bind .pop fun _ => .storeOperand _ _ _
  | enter =>
    refine .bind (fun _ => .fetchWord) fun size => .bind (fun _ => .fetchByte) fun level => ?_
    exact .of_plain (.enter size _)
  | call =>
    refine .bind (fun _ => .fetchWord) fun distance => .of_fetchesNothing ?_
    exact .bind .pushReturn fun _ => .modify _
  | callFar =>
    refine .bind (fun _ => .fetchPointer) fun target => .of_fetchesNothing ?_
    exact .bind .pushFarReturn fun _ => .modify _
  | string _ _ | pushRegister _ | pushSegment _ | pushAll | pushFlags => exact absurd rfl hbare
  | _ => exact absurd rfl hnothing

theorem storesOnly_fetch {places : FarPointer → Prop} (allowed : Nat) (modifiers : Modifiers) :
    (fetch allowed modifiers).StoresOnly places := by
  induction allowed generalizing modifiers with
  | zero =>
    rw [fetch]
    refine .bind .fetchByte fun byte => ?_
    cases Opcode.ofByte byte with
    | instruction instruction => exact .pure _
    | modifier modifier => exact .giveUp _ _
  | succ allowed ih =>
    rw [fetch]
    refine .bind .fetchByte fun byte => ?_
    cases Opcode.ofByte byte with
    | instruction instruction => exact .pure _
    | modifier modifier => exact .bind .registers fun r => ih _

theorem fetchesFirst_fetchAndPerform : fetchAndPerform.FetchesFirst := by
  refine .bind (fun _ => storesOnly_fetch _ _) fun fetched => ?_
  exact (fetchesFirst_perform _ _ _).andThen fun _ => .of_plain (.done _)

end Instruction

/-! ## Whole steps -/

namespace Machine

variable {m : Machine} {opcode : Byte} {modifiers : Modifiers} {operation : StringOperation}
  {width : Width}

section Strings

variable (hfetch : (fetch Instruction.maxModifiers Modifiers.none).run m
    = (.ok ⟨opcode, .string operation width, modifiers⟩, m.behindOpcode))
  (hrepetition : modifiers.repetition = repetition? m.modifiers)
include hfetch hrepetition

/-- Which elements the step gets to shows in how the elements end. -/
theorem getsToElement_of_gotTo {segment : Word} {repetition : Repetition} {i : Nat}
    (hrepeated : modifiers.repetition = some repetition)
    (hsegment : segment = modifiers.override.getD m.behindOpcode.registers.ds)
    (hgot : StringOperation.GotTo m.registers.cx.toNat
      ((operation.elements width segment repetition m.registers.cx.toNat).run m.behindOpcode) i) :
    m.GetsToElement i := by
  have hperform : ((Instruction.string operation width).perform opcode modifiers).run
      m.behindOpcode = (operation.elements width segment repetition m.registers.cx.toNat).run
        m.behindOpcode := by
    show (operation.perform width modifiers.override modifiers.repetition).run _ = _
    rw [hrepeated, hsegment]
    rfl
  rw [hrepetition] at hrepeated
  rcases hrun : (operation.elements width segment repetition m.registers.cx.toNat).run
    m.behindOpcode with ⟨result, last⟩
  rw [hrun] at hgot hperform
  cases result with
  | ok _ =>
    have hstep := step_of_perform hfetch hperform
    rcases hgot with hhandled | ⟨-, fault, herror, -⟩
    · refine .handled hrepeated ?_
      rw [hstep]
      exact hhandled
    · cases herror
  | error cause =>
    have hstep := step_of_perform_error hfetch hperform
    rcases hgot with hhandled | ⟨hlast, fault, herror, hdata⟩
    · refine .handled hrepeated ?_
      rw [hstep]
      exact hhandled
    · cases herror
      refine .refused hrepeated ?_ (congrArg Prod.fst hstep) hdata
      rw [hstep]
      exact hlast

theorem storesIn_string (hcompares : operation.compares = false)
    (huses : operation.usesDestination = true)
    (htarget : (Instruction.string operation width).target? (field (m.tailAt 0))
      (namesRegister (m.tailAt 0)) = some (.elements width)) :
    (operation.perform width modifiers.override modifiers.repetition).StoresIn m.behindOpcode
      (m.StoresAs (.string operation width)) := by
  refine (StoresOnly.registers.storesIn _).bind fun r after hr => ?_
  cases hr
  cases hcase : modifiers.repetition with
  | none =>
    refine (operation.storesIn_element width _ m.behindOpcode).mono fun place hplace => ?_
    exact ⟨.elements width, htarget, 0, .once (hrepetition.symm.trans hcase), hplace⟩
  | some repetition =>
    obtain ⟨-, hstores⟩ := StringOperation.storesIn_elements (m := m.behindOpcode) hcompares
      huses rfl
    refine hstores.mono fun place ⟨i, hgot, hplace⟩ => ⟨.elements width, htarget, i, ?_, hplace⟩
    exact getsToElement_of_gotTo hfetch hrepetition hcase rfl hgot

end Strings

/-- The instruction stores to its destination, and nothing else does. -/
theorem storesIn_step (m : Machine) : fetchAndPerform.StoresIn m m.StoresTo := by
  refine ((storesOnly_fetch _ _).storesIn m).bind fun fetched after hfetch => ?_
  obtain ⟨hbegins, hopcode, hmodifiers, rfl⟩ := seen_fetch hfetch
  obtain ⟨opcode, instruction, modifiers⟩ := fetched
  have hgather : modifiers = gather Modifiers.none m.registers m.modifiers := hmodifiers
  have hoverride : modifiers.override = override? m.modifiers m.registers := by
    rw [hgather, override_gather_modifiers]
  have hrepetition : modifiers.repetition = repetition? m.modifiers := by
    rw [hgather, repetition_gather]
    exact Option.or_none
  have hperform : (instruction.perform opcode modifiers).StoresIn m.behindOpcode
      (m.StoresAs instruction) := by
    cases instruction with
    | string operation width =>
      cases operation with
      | movs | stos => exact storesIn_string hfetch hrepetition rfl rfl rfl
      | cmps | lods | scas => exact (storesOnly_perform rfl opcode modifiers).storesIn _
    | _ => exact storesIn_perform hoverride nofun
  refine (hperform.mono fun place => storesTo_of_storesAs hbegins hopcode).bind
    fun _ last _ => (StoresOnly.pure _).storesIn last

/-- A step changes no bytes but those that back the destination of its instruction: its operand in
memory, the place that it gives, the elements that a string operation gets to, or the words that it
pushes, just below the top of the stack as it was before. An instruction without a destination
changes no memory at all, and neither does one that cannot be fetched. It makes no difference
whether the step continues or stops. -/
theorem step_changes_destination (m : Machine) :
    (∀ slot, m.step.2.memory.byteAt slot ≠ m.memory.byteAt slot →
        ∃ place, m.StoresTo place ∧ m.memory.backing? place.linear = some slot)
      ∧ ((∀ place, ¬ m.StoresTo place) → m.step.2.memory = m.memory)
      ∧ ∀ place fault, m.step.1 = .stopped (.gaveUp place (.fault fault)) →
        fault.access = .execute → m.step.2.memory = m.memory := by
  have hstep : m.step.2 = (fetchAndPerform.run m).2 := by
    unfold step
    rcases fetchAndPerform.run m with ⟨cause | ⟨⟨⟩ | ⟨⟩⟩, last⟩ <;> rfl
  rw [hstep]
  refine ⟨fun slot => (storesIn_step m).exists_backing, (storesIn_step m).memory_eq, ?_⟩
  intro place fault hstopped haccess
  obtain ⟨cause, hcause, hrun⟩ := exists_cause_of_stopped hstopped
  cases hcause
  exact fetchesFirst_fetchAndPerform m fault _ (Prod.ext hrun rfl) haccess

/-- A push behind an override, with the lower byte at the end of the stack segment; the upper one
belongs at its beginning, where there is no page. -/
def pushing : Machine :=
  ⟨{ Registers.initial with ax := 0x1234, cs := 0xf00, es := 0x20, sp := 1 },
    ((PagedMemory.empty.allocate pageSize).poke 0 0 [0x26, 0x50]).mapPages 15 1 0 Permissions.all⟩

theorem step_changes_destination_pushing :
    pushing.step.1
        = .stopped (.gaveUp pushing.registers.codePointer (.fault ⟨0, .write⟩))
      ∧ pushing.step.2.memory.byteAt ⟨0, 0xfff⟩ = 0x34
      ∧ ∃ place, pushing.StoresTo place
        ∧ pushing.memory.backing? place.linear = some ⟨0, 0xfff⟩ := by
  have hends : pushing.step.1
        = .stopped (.gaveUp pushing.registers.codePointer (.fault ⟨0, .write⟩))
      ∧ pushing.step.2.memory.byteAt ⟨0, 0xfff⟩ = 0x34
      ∧ pushing.step.2.memory.byteAt ⟨0, 0xfff⟩ ≠ pushing.memory.byteAt ⟨0, 0xfff⟩ := by
    decide +kernel
  obtain ⟨hstopped, hstored, hchanged⟩ := hends
  exact ⟨hstopped, hstored, (step_changes_destination pushing).1 _ hchanged⟩

end Machine

end CmStream
