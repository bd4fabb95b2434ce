import CmStream.Machine.Synonyms
import CmStream.Proofs.Machine.Performing
import CmStream.Proofs.Memory.Addresses

/-!
# Synonyms do the same

Each of the encodings of a pair reads its own bytes and then does what the other does: both have one
body. So on two machines that differ only in the bytes of the instruction, a step comes to the same
but for the instruction pointer.
-/

namespace CmStream

open Machine Microprogram Instruction

namespace Encoding

variable {m : Machine} {r : Registers} {modifiers : Modifiers} {override : Option Word}
  {rest : List Byte}

/-- What the bytes of an instruction mean to a machine with the given registers, behind modifiers
and opcode: the instruction performs a body and reads all of its bytes. -/
def Means (r : Registers) (modifiers : Modifiers) (code : List Byte)
    (body : Microprogram (Option Word)) : Prop :=
  ∃ opcode rest instruction, code = opcode :: rest
    ∧ Opcode.ofByte opcode = .instruction instruction ∧ instruction ≠ .halt
    ∧ ∀ m : Machine, m.registers = r → m.Faces rest →
      Performs (instruction.perform opcode modifiers) m rest.length body

/-! ## Operands and numbers -/

theorem ofByte_operandByte : ∀ mode field form,
    OperandByte.ofByte (operandByte mode field form) = ⟨mode, field, form⟩ := by
  decide

theorem run_fetchOperands_register {field form : BitVec 3}
    (hface : m.Faces (operandByte 3 field form :: rest)) :
    (Operands.fetch override).run m = (.ok ⟨field, .register form⟩, m.past 1) := by
  have hfields := ofByte_operandByte 3 field form
  refine (run_fetch_register hface (by rw [hfields]; rfl)).trans ?_
  rw [hfields]
  rfl

theorem run_fetchWord {first second : Byte} (hface : m.Faces (first :: second :: rest)) :
    fetchWord.run m = (.ok (Word.ofBytes first second), m.past 2) := by
  unfold fetchWord
  rw [run_bind_of_ok _ (run_fetchByte hface), run_bind_of_ok _ (run_fetchByte hface.tail)]
  exact congrArg (Prod.mk _) (past_add 1 1 m).symm

theorem run_fetchNumber (width : Width) {value : BitVec width.bits}
    (hface : m.Faces (number width value)) :
    (fetchNumber width false).run m = (.ok value, m.past (number width value).length) := by
  cases width with
  | byte => exact run_fetchByte hface
  | word =>
    show fetchWord.run m = _
    rw [run_fetchWord (show m.Faces [Word.low value, Word.high value] from hface),
      Word.ofBytes_low_high]
    rfl

theorem run_fetchOperands_direct {first second : Byte}
    (hface : m.Faces (operandByte 0 0 6 :: first :: second :: rest)) :
    (Operands.fetch override).run m
      = (.ok ⟨0, .memory ⟨override.getD m.registers.ds, Word.ofBytes first second⟩⟩, m.past 3) := by
  have hoffset : 0 + Word.ofBytes first second = Word.ofBytes first second := BitVec.zero_add _
  unfold Operands.fetch
  rw [run_bind_of_ok _ (run_fetchByte hface)]
  show (fetchWord >>= _).run (m.skip 1) = _
  rw [run_bind_of_ok _ (run_fetchWord hface.tail), past_add 1 2]
  exact congrArg (fun offset => (Except.ok (⟨0, .memory ⟨override.getD m.registers.ds, offset⟩⟩ :
    Operands), (m.past 1).past 2)) hoffset

theorem exists_run_fetchDisplacement (named : OperandByte) {displacement : List Byte}
    (hlength : displacement.length
      = if named.mode == 2 || named.isDirect then 2 else if named.mode == 1 then 1 else 0) :
    ∃ distance, ∀ m rest, m.Faces (displacement ++ rest) →
      named.fetchDisplacement.run m = (.ok distance, m.past displacement.length) := by
  unfold OperandByte.fetchDisplacement
  split at hlength
  case isTrue hword =>
    rw [if_pos hword]
    match displacement, hlength with
    | [first, second], _ => exact ⟨_, fun m rest hface => run_fetchWord hface⟩
  case isFalse hword =>
    rw [if_neg hword]
    split at hlength
    case isTrue hbyte =>
      obtain ⟨byte, rfl⟩ := List.length_eq_one_iff.mp hlength
      rw [if_pos hbyte]
      exact ⟨_, fun m rest hface => run_fetchSigned hface⟩
    case isFalse hbyte =>
      obtain rfl := List.length_eq_zero_iff.mp hlength
      rw [if_neg hbyte]
      exact ⟨0, fun m rest hface => congrArg (Prod.mk _) (past_zero m).symm⟩

/-- Operands that are complete are fetched whole; which they are, the registers decide. -/
theorem exists_run_fetchOperands (r : Registers) (override : Option Word) {operands : List Byte}
    (hcomplete : isOperands operands = true) : ∃ named : Operands, ∀ m rest,
      m.registers = r → m.Faces (operands ++ rest) →
        (Operands.fetch override).run m = (.ok named, m.past operands.length) := by
  cases operands with
  | nil => cases hcomplete
  | cons byte displacement =>
    have hlength := beq_iff_eq.mp hcomplete
    rw [displacementLength_eq] at hlength
    let named := OperandByte.ofByte byte
    by_cases hregister : named.namesRegister = true
    · rw [if_pos hregister] at hlength
      obtain rfl := List.length_eq_zero_iff.mp hlength
      exact ⟨_, fun m rest _ hface => run_fetch_register hface hregister⟩
    · rw [if_neg hregister] at hlength
      obtain ⟨distance, hdistance⟩ := exists_run_fetchDisplacement named hlength
      refine ⟨⟨named.field, .memory ⟨override.getD (r.segment (named.base r).2),
        (named.base r).1 + distance⟩⟩, fun m rest hr hface => ?_⟩
      obtain rfl := hr
      unfold Operands.fetch
      rw [run_bind_of_ok _ (run_fetchByte hface)]
      dsimp only
      rw [if_neg hregister, run_bind_of_ok _ (hdistance _ rest hface.tail), past_skip]
      rfl

/-! ## Opcodes -/

/-- What the opcodes stand for that name a register at their lower end. -/
structure NamesRegister (index : BitVec 3) : Prop where
  increment : Opcode.ofByte (numbered 0x40 index) = .instruction (.increment (.ofIndex index))
  decrement : Opcode.ofByte (numbered 0x48 index) = .instruction (.decrement (.ofIndex index))
  push : Opcode.ofByte (numbered 0x50 index) = .instruction (.pushRegister (.ofIndex index))
  pop : Opcode.ofByte (numbered 0x58 index) = .instruction (.popRegister (.ofIndex index))
  exchange : index ≠ 0 → Opcode.ofByte (numbered 0x90 index)
    = .instruction (.exchangeAccumulator (.ofIndex index))
  moveByte : Opcode.ofByte (numbered 0xb0 index) = .instruction (.moveByte (.ofIndex index))
  moveWord : Opcode.ofByte (numbered 0xb8 index) = .instruction (.moveWord (.ofIndex index))

theorem ofByte_numbered (index : BitVec 3) : NamesRegister index := by
  constructor <;> revert index <;> decide

/-- What a pair of encodings has to share. -/
def Share (r : Registers) (modifiers : Modifiers) (transfers : Bool) (code code' : List Byte) :
    Prop :=
  ∃ body, Lands transfers body ∧ Means r modifiers code body ∧ Means r modifiers code' body

theorem Means.of {opcode : Byte} {body : Microprogram (Option Word)} (instruction : Instruction)
    (hopcode : Opcode.ofByte opcode = .instruction instruction) (hhalt : instruction ≠ .halt)
    (h : ∀ m : Machine, m.registers = r → m.Faces rest →
      Performs (instruction.perform opcode modifiers) m rest.length body) :
    Means r modifiers (opcode :: rest) body :=
  ⟨opcode, rest, instruction, rfl, hopcode, hhalt, h⟩

/-! ## Pairs -/

/-- A short encoding without operands, and a long one that names a register and then does the
same. -/
theorem share_of_eq {opcode opcode' : Byte} {field form : BitVec 3} (short long : Instruction)
    {f : Operands → Microprogram Unit} (hbare : short.isBare = true)
    (hhalt : short ≠ .halt ∧ long ≠ .halt)
    (hopcode : Opcode.ofByte opcode = .instruction short)
    (hopcode' : Opcode.ofByte opcode' = .instruction long)
    (hlong : long.perform opcode' modifiers = Operands.fetch modifiers.override >>= f)
    (hsame : f ⟨field, .register form⟩ = short.perform opcode modifiers) :
    Share r modifiers false [opcode] [opcode', operandByte 3 field form] := by
  have hplain := plain_perform hbare opcode modifiers
  refine ⟨_, .landing _ none, .of short hopcode hhalt.1 fun m _ _ => .of_plain hplain m,
    .of long hopcode' hhalt.2 fun m _ hface => ?_⟩
  rw [hlong]
  refine .behind (n := 1) (k := 0) (run_fetchOperands_register hface) ?_
  rw [hsame]
  exact .of_plain hplain _

theorem share_increment (index : BitVec 3) :
    Share r modifiers false [numbered 0x40 index] [0xff, operandByte 3 0 index] :=
  share_of_eq (.increment (.ofIndex index)) .wordGroup rfl ⟨nofun, nofun⟩
    (ofByte_numbered index).increment rfl rfl rfl

theorem share_decrement (index : BitVec 3) :
    Share r modifiers false [numbered 0x48 index] [0xff, operandByte 3 1 index] :=
  share_of_eq (.decrement (.ofIndex index)) .wordGroup rfl ⟨nofun, nofun⟩
    (ofByte_numbered index).decrement rfl rfl rfl

theorem share_push (index : BitVec 3) :
    Share r modifiers false [numbered 0x50 index] [0xff, operandByte 3 6 index] :=
  share_of_eq (.pushRegister (.ofIndex index)) .wordGroup rfl ⟨nofun, nofun⟩
    (ofByte_numbered index).push rfl rfl rfl

theorem share_pop (index field : BitVec 3) :
    Share r modifiers false [numbered 0x58 index] [0x8f, operandByte 3 field index] :=
  share_of_eq (.popRegister (.ofIndex index)) .popToForm rfl ⟨nofun, nofun⟩
    (ofByte_numbered index).pop rfl rfl rfl

theorem share_pushShort (value : Byte) :
    Share r modifiers false [0x6a, value] (0x68 :: Word.toBytes (value.signExtend 16)) := by
  refine ⟨landing (push (value.signExtend 16)) none, .landing _ none,
    .of (.pushImmediate true) rfl nofun fun m _ hface => ?_,
    .of (.pushImmediate false) rfl nofun fun m _ hface => ?_⟩
  · exact .behind (n := 1) (k := 0) (run_fetchSigned hface) (.of_plain (.push _) _)
  · exact .behind (n := 2) (k := 0) (run_fetchNumber .word hface)
      (.of_plain (.push _) _)

theorem share_exchange (index : BitVec 3) (hother : index ≠ 0) :
    Share r modifiers false [numbered 0x90 index] [0x87, operandByte 3 0 index] := by
  let short := Instruction.exchangeAccumulator (.ofIndex index)
  have hplain : Plain (short.perform 0 modifiers) := plain_perform rfl _ _
  refine ⟨_, .landing _ none,
    .of short ((ofByte_numbered index).exchange hother) nofun fun m _ _ => .of_plain hplain m,
    .of (.exchange .word) rfl nofun fun m _ hface => ?_⟩
  exact .behind (n := 1) (k := 0) (run_fetchOperands_register hface) (.of_run_eq hplain rfl nofun)

theorem share_exchange' (index : BitVec 3) (hother : index ≠ 0) :
    Share r modifiers false [numbered 0x90 index] [0x87, operandByte 3 index 0] := by
  let short := Instruction.exchangeAccumulator (.ofIndex index)
  have hplain : Plain (short.perform 0 modifiers) := plain_perform rfl _ _
  refine ⟨_, .landing _ none,
    .of short ((ofByte_numbered index).exchange hother) nofun fun m _ _ => .of_plain hplain m,
    .of (.exchange .word) rfl nofun fun m _ hface => ?_⟩
  refine .behind (n := 1) (k := 0) (run_fetchOperands_register hface)
    (.of_run_eq hplain ?_ nofun)
  -- Which of the two is written last matters only if they are one register.
  have hswap : ∀ (r : Registers) (name : WordRegister),
      (r.setWord .ax (r.word name)).setWord name r.ax
        = { r.setWord name r.ax with ax := r.word name } := by
    intro r name
    cases name <;> rfl
  exact congrArg (fun registers => (Except.ok (), { m.past 1 with registers := registers }))
    (hswap _ _)

theorem share_moveByte (index field : BitVec 3) (value : Byte) :
    Share r modifiers false [numbered 0xb0 index, value]
      [0xc6, operandByte 3 field index, value] := by
  have hplain : Plain (setRegister .byte index value) := .setRegister _ _ _
  refine ⟨_, .landing _ none, .of _ (ofByte_numbered index).moveByte nofun fun m _ hface =>
      .behind (n := 1) (k := 0) (run_fetchByte hface) (.of_plain hplain _),
    .of (.moveImmediate .byte) rfl nofun fun m _ hface => ?_⟩
  exact .behind (n := 1) (k := 1) (run_fetchOperands_register hface)
    (.behind (n := 1) (k := 0) (run_fetchByte hface.tail) (.of_plain hplain _))

theorem share_moveWord (index field : BitVec 3) (low high : Byte) :
    Share r modifiers false [numbered 0xb8 index, low, high]
      [0xc7, operandByte 3 field index, low, high] := by
  have hplain : Plain (setRegister .word index (Word.ofBytes low high)) := .setRegister _ _ _
  refine ⟨_, .landing _ none, .of _ (ofByte_numbered index).moveWord nofun fun m _ hface =>
      .behind (n := 2) (k := 0) (run_fetchWord hface) (.of_plain hplain _),
    .of (.moveImmediate .word) rfl nofun fun m _ hface => ?_⟩
  exact .behind (n := 1) (k := 2) (run_fetchOperands_register hface)
    (.behind (n := 2) (k := 0) (run_fetchWord hface.tail) (.of_plain hplain _))

/-! ## Pairs of operations on two operands -/

theorem ofByte_arithmetic (operation : BitVec 3) (width : Width) :
    Opcode.ofByte (arithmetic operation (wide 0x00 width))
        = .instruction (.arithmetic (.ofIndex operation) .toForm width)
      ∧ Opcode.ofByte (arithmetic operation (wide 0x02 width))
        = .instruction (.arithmetic (.ofIndex operation) .toField width)
      ∧ Opcode.ofByte (arithmetic operation (wide 0x04 width))
        = .instruction (.arithmetic (.ofIndex operation) .toAccumulator width) := by
  cases width <;> revert operation <;> decide

/-- The body of an operation on an operand and a number. -/
def combining (operation : Arithmetic.Operation) (width : Width) (operand : Operand)
    (b : BitVec width.bits) : Microprogram (Option Word) := do
  let a ← operand.load width
  landing (do
    let value ← settle (operation.compute a b)
    if operation.keepsResult then operand.store width value) none

theorem lands_combining {operation : Arithmetic.Operation} {width : Width} {operand : Operand}
    {b : BitVec width.bits} : Lands false (combining operation width operand b) :=
  .bind fun _ => .landing _ none

theorem performs_arithmeticGroup {width : Width} {short : Bool} (operands : List Byte)
    {number : List Byte} {named : Operands} {value : BitVec width.bits}
    (hoperands : (Operands.fetch override).run m = (.ok named, m.past operands.length))
    (hnumber : (fetchNumber width short).run (m.past operands.length)
      = (.ok value, (m.past operands.length).past number.length)) :
    Performs (performArithmeticGroup width short override) m (operands ++ number).length
      (combining (.ofIndex named.field) width named.operand value) := by
  rw [List.length_append]
  refine .behind (k := number.length) hoperands ?_
  refine .look (.loadOperand _ _) (.loadOperand _ _) fun a => ?_
  exact .behind (n := number.length) (k := 0) hnumber
    (.of_plain (.combine _ a value fun _ => .storeOperand _ _ _) _)

/-- The body of a multiplication of an operand by a number. -/
def multiplying (named : Operands) (b : Word) : Microprogram (Option Word) := do
  let a ← named.operand.load .word
  landing (do
    setRegister .word named.field (Product.signed a b).lower
    modifyRegisters fun r => { r with flags := (Product.signed a b).setFlags r.flags }) none

theorem performs_multiplyBy {short : Bool} {operands number : List Byte} {named : Operands}
    {value : Word}
    (hoperands : (Operands.fetch override).run m = (.ok named, m.past operands.length))
    (hnumber : (fetchNumber .word short).run (m.past operands.length)
      = (.ok value, (m.past operands.length).past number.length)) :
    Performs (performMultiplyBy short override) m (operands ++ number).length
      (multiplying named value) := by
  have hplain : ∀ a : Word, Plain (do
      setRegister .word named.field (Product.signed a value).lower
      modifyRegisters fun r => { r with flags := (Product.signed a value).setFlags r.flags }) :=
    fun _ => .bind (.setRegister _ _ _) fun _ => .setProductFlags _
  rw [List.length_append]
  refine .behind (k := number.length) hoperands ?_
  refine .look (.loadOperand _ _) (.loadOperand _ _) fun a => ?_
  exact .behind (n := number.length) (k := 0) hnumber (.of_plain (hplain a) _)

theorem share_accumulator (operation : BitVec 3) (width : Width) (value : BitVec width.bits) :
    Share r modifiers false (arithmetic operation (wide 0x04 width) :: number width value)
      (wide 0x80 width :: operandByte 3 operation 0 :: number width value) := by
  refine ⟨combining (.ofIndex operation) width (.register 0) value, lands_combining,
    .of _ (ofByte_arithmetic operation width).2.2 nofun fun m _ hface => ?_,
    .of (.arithmeticGroup width false) (by cases width <;> rfl) nofun fun m _ hface => ?_⟩
  · refine .look (.getRegister width accumulator) (.getRegister width accumulator) fun a => ?_
    exact .behind (n := (number width value).length) (k := 0) (run_fetchNumber width hface)
      (.of_plain (.combine _ a value fun _ => .setRegister _ _ _) _)
  · exact performs_arithmeticGroup [operandByte 3 operation 0]
      (run_fetchOperands_register hface) (run_fetchNumber width hface.tail)

theorem share_test (width : Width) (value : BitVec width.bits) :
    Share r modifiers false (wide 0xa8 width :: number width value)
      (wide 0xf6 width :: operandByte 3 0 0 :: number width value) := by
  have hplain : ∀ a : BitVec width.bits,
      Plain (discard (settle (Arithmetic.bitwise (a &&& value)))) := fun a =>
    .bind (.settle fun flags => Arithmetic.settled_bitwise _ flags) fun _ => .done _
  refine ⟨getRegister width accumulator >>= fun a =>
      landing (discard (settle (Arithmetic.bitwise (a &&& value)))) none,
    .bind fun _ => .landing _ none,
    .of (.testAccumulator width) (by cases width <;> rfl) nofun fun m _ hface => ?_,
    .of (.unaryGroup width) (by cases width <;> rfl) nofun fun m _ hface => ?_⟩
  · refine .look (.getRegister width accumulator) (.getRegister width accumulator) fun a => ?_
    exact .behind (n := (number width value).length) (k := 0) (run_fetchNumber width hface)
      (.of_plain (hplain a) _)
  · rw [List.length_cons, Nat.add_comm]
    refine .behind (n := 1) (k := (number width value).length) (run_fetchOperands_register hface) ?_
    refine .look (.getRegister width accumulator) (.getRegister width accumulator) fun a => ?_
    refine .ignore run_registers ?_
    exact .behind (n := (number width value).length) (k := 0) (run_fetchNumber width hface.tail)
      (.of_plain (hplain a) _)

theorem share_group {operands : List Byte} (hcomplete : isOperands operands = true)
    (value : Byte) :
    Share r modifiers false (0x82 :: operands ++ [value]) (0x80 :: operands ++ [value]) := by
  obtain ⟨named, hnamed⟩ := exists_run_fetchOperands r modifiers.override hcomplete
  have hperforms : ∀ m : Machine, m.registers = r → m.Faces (operands ++ [value]) →
      Performs (performArithmeticGroup .byte false modifiers.override) m
        (operands ++ [value]).length
        (combining (.ofIndex named.field) .byte named.operand value) := fun m hr hface =>
    performs_arithmeticGroup operands (hnamed m [value] hr hface)
      (run_fetchByte (faces_append_iff.mp hface).2)
  exact ⟨_, lands_combining,
    .of (.arithmeticGroup .byte false) rfl nofun hperforms,
    .of (.arithmeticGroup .byte false) rfl nofun hperforms⟩

theorem share_short {operands : List Byte} (hcomplete : isOperands operands = true)
    (value : Byte) :
    Share r modifiers false (0x83 :: operands ++ [value])
      (0x81 :: operands ++ Word.toBytes (value.signExtend 16)) := by
  obtain ⟨named, hnamed⟩ := exists_run_fetchOperands r modifiers.override hcomplete
  refine ⟨combining (.ofIndex named.field) .word named.operand (value.signExtend 16),
    lands_combining,
    .of (.arithmeticGroup .word true) rfl nofun
      fun m hr hface => ?_,
    .of (.arithmeticGroup .word false) rfl nofun
      fun m hr hface => ?_⟩
  · exact performs_arithmeticGroup operands (hnamed m _ hr hface)
      (run_fetchSigned (faces_append_iff.mp hface).2)
  · exact performs_arithmeticGroup operands (hnamed m _ hr hface)
      (run_fetchNumber .word (faces_append_iff.mp hface).2)

theorem share_multiplyShort {operands : List Byte} (hcomplete : isOperands operands = true)
    (value : Byte) :
    Share r modifiers false (0x6b :: operands ++ [value])
      (0x69 :: operands ++ Word.toBytes (value.signExtend 16)) := by
  obtain ⟨named, hnamed⟩ := exists_run_fetchOperands r modifiers.override hcomplete
  refine ⟨multiplying named (value.signExtend 16), .bind fun _ => .landing _ none,
    .of (.multiplyBy true) rfl nofun fun m hr hface => ?_,
    .of (.multiplyBy false) rfl nofun fun m hr hface => ?_⟩
  · exact performs_multiplyBy (hnamed m _ hr hface)
      (run_fetchSigned (faces_append_iff.mp hface).2)
  · exact performs_multiplyBy (hnamed m _ hr hface)
      (run_fetchNumber .word (faces_append_iff.mp hface).2)

theorem share_registers (operation : BitVec 3) (width : Width) (target source : BitVec 3) :
    Share r modifiers false [arithmetic operation (wide 0x00 width), operandByte 3 source target]
      [arithmetic operation (wide 0x02 width), operandByte 3 target source] := by
  let operation' := Arithmetic.Operation.ofIndex operation
  have hplain : Plain (do
      let a ← getRegister width target
      let b ← getRegister width source
      let value ← settle (operation'.compute a b)
      if operation'.keepsResult then setRegister width target value) :=
    .bind (.getRegister _ _) fun a => .bind (.getRegister _ _) fun b =>
      .combine _ a b fun _ => .setRegister _ _ _
  refine ⟨_, .landing _ none, .of _ (ofByte_arithmetic operation width).1 nofun fun m _ hface =>
      .behind (n := 1) (k := 0) (run_fetchOperands_register hface) (.of_plain hplain _),
    .of _ (ofByte_arithmetic operation width).2.1 nofun fun m _ hface => ?_⟩
  exact .behind (n := 1) (k := 0) (run_fetchOperands_register hface) (.of_plain hplain _)

/-! ## Pairs of moves -/

theorem share_move (width : Width) (target source : BitVec 3) :
    Share r modifiers false [wide 0x88 width, operandByte 3 source target]
      [wide 0x8a width, operandByte 3 target source] := by
  have hplain : Plain (getRegister width source >>= setRegister width target) :=
    .bind (.getRegister _ _) fun _ => .setRegister _ _ _
  refine ⟨landing (getRegister width source >>= setRegister width target) none, .landing _ none,
    .of (.moveToForm width) (by cases width <;> rfl) nofun fun m _ hface => ?_,
    .of (.moveToField width) (by cases width <;> rfl) nofun fun m _ hface => ?_⟩
  · exact .behind (n := 1) (k := 0) (run_fetchOperands_register hface) (.of_plain hplain _)
  · exact .behind (n := 1) (k := 0) (run_fetchOperands_register hface) (.of_plain hplain _)

theorem run_fetchPlace {first second : Byte} (hface : m.Faces (first :: second :: rest)) :
    (fetchPlace override).run m
      = (.ok ⟨override.getD m.registers.ds, Word.ofBytes first second⟩, m.past 2) := by
  unfold fetchPlace
  rw [run_bind_of_ok _ (run_fetchWord hface)]
  rfl

theorem share_loadDirect (width : Width) (low high : Byte) :
    Share r modifiers false [wide 0xa0 width, low, high]
      [wide 0x8a width, operandByte 0 0 6, low, high] := by
  let place : FarPointer := ⟨modifiers.override.getD r.ds, Word.ofBytes low high⟩
  have hplain : Plain (loadData width place >>= setRegister width accumulator) :=
    .bind (.loadData _ _) fun _ => .setRegister _ _ _
  refine ⟨landing (loadData width place >>= setRegister width accumulator) none, .landing _ none,
    .of (.loadAccumulator width) (by cases width <;> rfl) nofun fun m hr hface => ?_,
    .of (.moveToField width) (by cases width <;> rfl) nofun fun m hr hface => ?_⟩
  all_goals obtain rfl := hr
  · exact .behind (n := 2) (k := 0) (run_fetchPlace hface) (.of_plain hplain _)
  · exact .behind (n := 3) (k := 0) (run_fetchOperands_direct hface) (.of_plain hplain _)

theorem share_storeDirect (width : Width) (low high : Byte) :
    Share r modifiers false [wide 0xa2 width, low, high]
      [wide 0x88 width, operandByte 0 0 6, low, high] := by
  let place : FarPointer := ⟨modifiers.override.getD r.ds, Word.ofBytes low high⟩
  have hplain : Plain (getRegister width accumulator >>= storeData width place) :=
    .bind (.getRegister _ _) fun _ => .storeData _ _ _
  refine ⟨landing (getRegister width accumulator >>= storeData width place) none, .landing _ none,
    .of (.storeAccumulator width) (by cases width <;> rfl) nofun fun m hr hface => ?_,
    .of (.moveToForm width) (by cases width <;> rfl) nofun fun m hr hface => ?_⟩
  all_goals obtain rfl := hr
  · exact .behind (n := 2) (k := 0) (run_fetchPlace hface) (.of_plain hplain _)
  · exact .behind (n := 3) (k := 0) (run_fetchOperands_direct hface) (.of_plain hplain _)

/-! ## Pairs of shifts -/

/-- The body of a shift by a given count. -/
def shifting (width : Width) (named : Operands) (count : Byte) : Microprogram (Option Word) :=
  landing (do
    let value ← named.operand.load width
    let shifted ← settle ((Shift.ofIndex named.field).compute value count)
    named.operand.store width shifted) none

theorem performs_shiftImmediate {width : Width} {operands : List Byte} {named : Operands}
    {count : Byte}
    (hoperands : (Operands.fetch override).run m = (.ok named, m.past operands.length))
    (hface : m.Faces (operands ++ [count])) :
    Performs (performShiftGroup width .immediate override) m (operands ++ [count]).length
      (shifting width named count) := by
  rw [List.length_append]
  refine .behind (k := 1) hoperands ?_
  exact .behind (n := 1) (k := 0) (run_fetchByte (faces_append_iff.mp hface).2)
    (.of_plain (.shift _ _ _ _) _)

theorem share_shiftOne (width : Width) {operands : List Byte}
    (hcomplete : isOperands operands = true) :
    Share r modifiers false (wide 0xd0 width :: operands) (wide 0xc0 width :: operands ++ [1]) := by
  obtain ⟨named, hnamed⟩ := exists_run_fetchOperands r modifiers.override hcomplete
  refine ⟨shifting width named 1, .landing _ none,
    .of (.shiftGroup width .one) (by cases width <;> rfl) nofun fun m hr hface => ?_,
    .of (.shiftGroup width .immediate) (by cases width <;> rfl) nofun fun m hr hface =>
      performs_shiftImmediate (hnamed m _ hr hface) hface⟩
  rw [← List.append_nil operands] at hface
  exact .behind (n := operands.length) (k := 0) (hnamed m [] hr hface)
    (.ignore rfl (.of_plain (.shift _ _ _ _) _))

theorem share_shiftCounter (width : Width) {operands : List Byte}
    (hcomplete : isOperands operands = true) :
    Share r modifiers false (wide 0xd2 width :: operands)
      (wide 0xc0 width :: operands ++ [r.byte .cl]) := by
  obtain ⟨named, hnamed⟩ := exists_run_fetchOperands r modifiers.override hcomplete
  refine ⟨shifting width named (r.byte .cl), .landing _ none,
    .of (.shiftGroup width .counter) (by cases width <;> rfl) nofun fun m hr hface => ?_,
    .of (.shiftGroup width .immediate) (by cases width <;> rfl) nofun fun m hr hface =>
      performs_shiftImmediate (hnamed m _ hr hface) hface⟩
  rw [← List.append_nil operands] at hface
  refine .behind (n := operands.length) (k := 0) (hnamed m [] hr hface) ?_
  obtain rfl := hr
  exact .ignore rfl (.of_plain (.shift _ _ _ _) _)

/-! ## Pairs of transfers of control -/

theorem share_returnNear : Share r modifiers true [0xc3] [0xc2, 0, 0] := by
  have hperforms : ∀ m : Machine, Performs (do
      jumpTo (← pop)
      release 0) m 0 (pop >>= fun target => landing (release 0) (some target)) := fun m =>
    .bind .pop (fun _ => .landing (.release 0) _) fun target between _ =>
      .of_jumpTo (.release 0) target between 0
  refine ⟨_, .bind fun _ => .landing _ (some _), .of (.returnNear false) rfl nofun
      fun m _ _ => .ignore rfl (hperforms m),
    .of (.returnNear true) rfl nofun fun m _ hface => ?_⟩
  exact .behind (n := 2) (k := 0) (run_fetchWord hface) (hperforms _)

theorem share_returnFar : Share r modifiers true [0xcb] [0xca, 0, 0] := by
  have hplain : Plain (do
      let segment ← pop
      modifyRegisters fun r => { r with cs := segment }
      release 0) :=
    .bind .pop fun segment =>
      .bind (.modify (fun _ _ => rfl) fun _ => .refl _) fun _ => .release 0
  have hperforms : ∀ m : Machine, Performs (do
      jumpTo (← pop)
      let segment ← pop
      modifyRegisters fun r => { r with cs := segment }
      release 0) m 0 (pop >>= fun target => landing (do
        let segment ← pop
        modifyRegisters fun r => { r with cs := segment }
        release 0) (some target)) := fun m =>
    .bind .pop (fun _ => .landing hplain _) fun target between _ =>
      .of_jumpTo hplain target between 0
  refine ⟨_, .bind fun _ => .landing _ (some _), .of (.returnFar false) rfl nofun
      fun m _ _ => .ignore rfl (hperforms m),
    .of (.returnFar true) rfl nofun fun m _ hface => ?_⟩
  exact .behind (n := 2) (k := 0) (run_fetchWord hface) (hperforms _)

theorem share_jump (value : Byte) :
    Share r modifiers true [0xeb, value] (0xe9 :: Word.toBytes (value.signExtend 16 - 1)) := by
  have htarget : r.ip + 2 + (value.signExtend 16 - 1) = r.ip + 1 + value.signExtend 16 := by
    bv_omega
  refine ⟨landing (done ()) (some (r.ip + 1 + value.signExtend 16)), .landing _ (some _),
    .of (.jump true) rfl nofun fun m hr hface => ?_,
    .of (.jump false) rfl nofun fun m hr hface => ?_⟩
  all_goals obtain rfl := hr
  · exact .behind (n := 1) (k := 0) (run_fetchSigned hface) (.of_jumpBy _ _ _)
  · rw [← htarget]
    exact .behind (n := 2) (k := 0) (run_fetchNumber .word hface) (.of_jumpBy _ _ _)

/-- Synonyms share a body, wherever the instruction lies. -/
theorem Synonym.share {code code' : List Byte} {transfers : Bool}
    (h : Synonym r transfers code code') (modifiers : Modifiers) (ip : Word) :
    Share { r with ip := ip } modifiers transfers code code' := by
  cases h with
  | increment index => exact share_increment index
  | decrement index => exact share_decrement index
  | push index => exact share_push index
  | pop index field => exact share_pop index field
  | exchange index other => exact share_exchange index other
  | exchange' index other => exact share_exchange' index other
  | moveByte index field value => exact share_moveByte index field value
  | moveWord index field low high => exact share_moveWord index field low high
  | accumulator operation width value => exact share_accumulator operation width value
  | test width value => exact share_test width value
  | group operands complete value => exact share_group complete value
  | short operands complete value => exact share_short complete value
  | pushShort value => exact share_pushShort value
  | multiplyShort operands complete value => exact share_multiplyShort complete value
  | move width target source => exact share_move width target source
  | registers operation width target source =>
    exact share_registers operation width target source
  | loadDirect width low high => exact share_loadDirect width low high
  | storeDirect width low high => exact share_storeDirect width low high
  | shiftOne width operands complete => exact share_shiftOne width complete
  | shiftCounter width operands complete => exact share_shiftCounter width complete
  | returnNear => exact share_returnNear
  | returnFar => exact share_returnFar
  | jump value => exact share_jump value

end Encoding

namespace Machine

open Encoding

variable {m m₁ m₂ : Machine} {modifiers code code₁ code₂ : List Byte}
  {body : Microprogram (Option Word)}

/-- A step of an encoding comes to what the encoding means. -/
theorem undergoes_of_means
    (hmeans : Means (m.past (modifiers.length + 1)).registers
      (gather Modifiers.none m.registers modifiers) code body)
    (hmodify : ∀ byte ∈ modifiers, isModifier byte = true)
    (hfew : modifiers.length ≤ Encoding.maxModifiers) (hface : m.Faces (modifiers ++ code)) :
    m.Undergoes (modifiers ++ code).length body := by
  obtain ⟨opcode, rest, instruction, rfl, hopcode, hhalt, hperforms⟩ := hmeans
  rw [List.append_cons, faces_append_iff, List.length_append, List.length_singleton] at hface
  rw [List.length_append, List.length_cons, Nat.add_comm rest.length, ← Nat.add_assoc]
  exact undergoes_of_performs hface.1 hmodify hfew hopcode hhalt (hperforms _ rfl hface.2)

/-- Two machines with the same registers, in front of synonyms behind the same modifiers, come to
the same by a step, if their memories differ in hidden bytes alone and the step stays off these.
Only their instruction pointers may differ. -/
theorem step_synonyms {transfers : Bool} {hidden : Slot → Prop}
    (hsynonym : Synonym m₁.registers transfers code₁ code₂)
    (hmodify : ∀ byte ∈ modifiers, isModifier byte = true)
    (hfew : modifiers.length ≤ Encoding.maxModifiers)
    (hface₁ : m₁.Faces (modifiers ++ code₁)) (hface₂ : m₂.Faces (modifiers ++ code₂))
    (hregisters : m₁.registers = m₂.registers)
    (hmemory : m₁.memory.SameOutside hidden m₂.memory)
    (huntouched : ∀ slot, m₁.Touches slot → ¬ hidden slot) :
    m₁.step.1 = m₂.step.1
      ∧ (∃ ip, m₁.step.2.registers = { m₂.step.2.registers with ip := ip })
      ∧ m₁.step.2.memory.SameOutside hidden m₂.step.2.memory
      ∧ (m₁.step.1 = .continued →
        if transfers then m₁.step.2.registers.ip = m₂.step.2.registers.ip
        else m₁.step.2.registers.ip
            = m₁.registers.ip + BitVec.ofNat 16 (modifiers ++ code₁).length
          ∧ m₂.step.2.registers.ip
            = m₂.registers.ip + BitVec.ofNat 16 (modifiers ++ code₂).length) := by
  obtain ⟨r, memory₁⟩ := m₁
  obtain ⟨r', memory₂⟩ := m₂
  obtain rfl : r = r' := hregisters
  obtain ⟨body, hlands, hmeans₁, hmeans₂⟩ := hsynonym.share
    (gather Modifiers.none r modifiers) (r.ip + BitVec.ofNat 16 (modifiers.length + 1))
  have h₁ := undergoes_of_means hmeans₁ hmodify hfew hface₁
  have h₂ := undergoes_of_means (m := ⟨r, memory₂⟩) hmeans₂ hmodify hfew hface₂
  obtain ⟨hresult, hsame, hhidden⟩ := run_sameOutside body hmemory
    fun granted hgranted _ slot hslot => huntouched slot ⟨granted, h₁.accesses granted hgranted,
      h₁.plain.access_ne_execute _ granted hgranted, hslot⟩
  obtain ⟨ip₁, hafter₁⟩ := h₁.after
  obtain ⟨ip₂, hafter₂⟩ := h₂.after
  refine ⟨?_, ⟨ip₁, ?_⟩, ?_, fun hcontinued => ?_⟩
  · rw [h₁.outcome, h₂.outcome, hresult]
  · rw [hafter₁, hafter₂]
    unfold moved
    rw [hsame]
  · rw [hafter₁, hafter₂]
    exact hhidden
  · cases htarget : (body.run ⟨r, memory₁⟩).1 with
    | error cause =>
      rw [h₁.outcome, htarget] at hcontinued
      cases hcontinued
    | ok target =>
      have hip₁ := h₁.ip target htarget
      have hip₂ := h₂.ip target (hresult ▸ htarget)
      obtain rfl := hlands _ target htarget
      cases target with
      | none => exact ⟨hip₁, hip₂⟩
      | some target => exact hip₁.trans hip₂.symm

/-! ## An instance -/

/-- A machine that is about to add a number to a word of the extra segment, with the number as a
single byte. -/
def addingShort : Machine :=
  ⟨{ Registers.initial with bp := 0x102 }, .onePage [0x26, 0x83, 0x46, 0xfe, 0x80]⟩

/-- The same with the number as a word. -/
def addingLong : Machine :=
  ⟨{ Registers.initial with bp := 0x102 }, .onePage [0x26, 0x81, 0x46, 0xfe, 0x80, 0xff]⟩

/-- Both add 0xff80 to the word at 0x100, with an instruction of five and one of six bytes. -/
theorem step_synonyms_adding :
    addingShort.step.1 = addingLong.step.1
      ∧ addingShort.step.2.memory.SameOutside (·.offset < 6) addingLong.step.2.memory
      ∧ addingShort.step.2.registers.ip = 5 ∧ addingLong.step.2.registers.ip = 6 := by
  have hface : addingShort.Faces ([0x26] ++ [0x83, 0x46, 0xfe, 0x80]) :=
    faces_onePage [] rfl rfl (by decide)
  have hface' : addingLong.Faces ([0x26] ++ [0x81, 0x46, 0xfe, 0x80, 0xff]) :=
    faces_onePage [] rfl rfl (by decide)
  have hplaces : ∀ granted ∈ addingShort.accesses, granted.access = .execute
      ∨ 0x100 ≤ granted.place.linear ∧ granted.place.linear < pageSize := by
    decide +kernel
  have huntouched : ∀ slot, addingShort.Touches slot → ¬ slot.offset < 6 := by
    rintro slot ⟨granted, hgranted, hdata, hslot⟩
    obtain ⟨hlow, hhigh⟩ := (hplaces granted hgranted).resolve_left hdata
    have hplace : slot = ⟨0, granted.place.linear⟩ :=
      Except.ok.inj (hslot.symm.trans (PagedMemory.locate_onePage _ granted.access hhigh))
    rw [hplace]
    exact Nat.not_lt.mpr (Nat.le_trans (by decide) hlow)
  have hmemory : addingShort.memory.SameOutside (·.offset < 6) addingLong.memory :=
    PagedMemory.sameOutside_onePage (by decide) (by decide) rfl
  obtain ⟨houtcome, -, hafter, hip⟩ := step_synonyms
    (.short [0x46, 0xfe] rfl 0x80) (by decide) (by decide) hface hface' rfl hmemory huntouched
  have hcontinued : addingShort.step.1 = .continued := by decide +kernel
  exact ⟨houtcome, hafter, (hip hcontinued).1, (hip hcontinued).2⟩

end Machine

end CmStream
