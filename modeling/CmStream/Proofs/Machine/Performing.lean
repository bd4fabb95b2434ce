import CmStream.Proofs.Machine.Fetching
import CmStream.Proofs.Machine.Instructions

/-!
# What an instruction amounts to

An instruction is its bytes and what it does once they have been read. `Microprogram.Performs`
says of a program that it comes to what a plain program comes to, its body, and how far it has
read then. Two instructions with one body differ in nothing but where they leave the instruction
pointer.
-/

namespace CmStream

open Machine

namespace Microprogram

variable {α : Type} {m between : Machine} {n k : Nat} {p q : Microprogram Unit}
  {body : Microprogram (Option Word)}

/-- A program comes to what its body comes to, but for the instruction pointer. Behind a body that
succeeds, this is where the body says, or else `n` bytes further on. -/
structure Performs (p : Microprogram Unit) (m : Machine) (n : Nat)
    (body : Microprogram (Option Word)) : Prop where
  plain : Plain body
  ending : (p.run m).1 = (body.run m).1.map fun _ => ()
  after : ∃ ip, (p.run m).2 = (body.run m).2.moved ip
  ip : ∀ target, (body.run m).1 = .ok target →
    (p.run m).2.registers.ip = target.getD (m.past n).registers.ip
  accesses : ∀ granted ∈ body.accesses m, granted ∈ p.accesses m

/-- The body that does what a program does; control goes to a place or on behind the program. -/
def landing (p : Microprogram Unit) (target : Option Word) : Microprogram (Option Word) :=
  p >>= fun _ => pure target

theorem run_landing (p : Microprogram Unit) (target : Option Word) (m : Machine) :
    (p.landing target).run m = ((p.run m).1.map fun _ => target, (p.run m).2) := by
  unfold landing
  rw [run_bind]
  rcases p.run m with ⟨result, after⟩
  cases result <;> rfl

theorem accesses_landing (p : Microprogram Unit) (target : Option Word) (m : Machine) :
    (p.landing target).accesses m = p.accesses m := by
  unfold landing
  rw [accesses_bind]
  rcases p.run m with ⟨result, after⟩
  cases result <;> exact List.append_nil _

theorem Plain.landing (h : Plain p) (target : Option Word) : Plain (p.landing target) :=
  .bind h fun _ => .done _

/-- If a body succeeds, it says where control goes, or that it goes on behind the program. -/
def Lands (transfers : Bool) (body : Microprogram (Option Word)) : Prop :=
  ∀ m target, (body.run m).1 = .ok target → target.isSome = transfers

theorem Lands.landing (p : Microprogram Unit) (target : Option Word) :
    Lands target.isSome (p.landing target) := by
  intro m place hplace
  rw [run_landing] at hplace
  cases hresult : (p.run m).1 with
  | error cause =>
    rw [hresult] at hplace
    cases hplace
  | ok value =>
    rw [hresult] at hplace
    cases hplace
    rfl

theorem Lands.bind {transfers : Bool} {first : Microprogram α}
    {f : α → Microprogram (Option Word)} (h : ∀ value, Lands transfers (f value)) :
    Lands transfers (first >>= f) := by
  intro m target htarget
  rw [run_bind] at htarget
  rcases hrun : first.run m with ⟨result, after⟩
  rw [hrun] at htarget
  cases result with
  | error cause => cases htarget
  | ok value => exact h value after target htarget

namespace Performs

/-- A program that does what a plain program does. -/
theorem of_run_eq (h : Plain q) (hrun : p.run m = q.run m)
    (haccesses : ∀ granted ∈ q.accesses m, granted ∈ p.accesses m) :
    Performs p m 0 (q.landing none) where
  plain := h.landing none
  ending := by
    rw [run_landing, hrun]
    cases (q.run m).1 <;> rfl
  after := ⟨(q.run m).2.registers.ip, by rw [run_landing, hrun, moved_self]⟩
  ip target htarget := by
    rw [run_landing] at htarget
    rw [hrun, (h.stays m).ip]
    cases hresult : (q.run m).1 with
    | error cause =>
      rw [hresult] at htarget
      cases htarget
    | ok value =>
      rw [hresult] at htarget
      cases htarget
      rw [past_zero]
      rfl
  accesses granted hgranted := haccesses granted (accesses_landing q none m ▸ hgranted)

theorem of_plain (h : Plain p) (m : Machine) : Performs p m 0 (p.landing none) :=
  of_run_eq h rfl fun _ => id

/-- A jump, and what is left to do behind it. -/
theorem of_jumpTo (h : Plain p) (target : Word) (m : Machine) (n : Nat) :
    Performs (Instruction.jumpTo target >>= fun _ => p) m n (p.landing (some target)) := by
  have hrun : (Instruction.jumpTo target >>= fun _ => p).run m
      = ((p.run m).1, (p.run m).2.moved target) := h.run_moved target m
  have haccesses : (Instruction.jumpTo target >>= fun _ => p).accesses m = p.accesses m :=
    h.accesses_moved target m
  refine ⟨h.landing _, ?_, ⟨target, ?_⟩, fun place hplace => ?_, fun granted hgranted => ?_⟩
  · rw [run_landing, hrun]
    cases (p.run m).1 <;> rfl
  · rw [run_landing, hrun]
  · rw [run_landing] at hplace
    rw [hrun]
    cases hresult : (p.run m).1 with
    | error cause =>
      rw [hresult] at hplace
      cases hplace
    | ok value =>
      rw [hresult] at hplace
      cases hplace
      rfl
  · rw [accesses_landing] at hgranted
    rwa [haccesses]

/-- Reading bytes first. -/
theorem behind {first : Microprogram α} {f : α → Microprogram Unit} {value : α}
    (hfirst : first.run m = (.ok value, m.past n))
    (h : Performs (f value) (m.past n) k body) : Performs (first >>= f) m (n + k) body := by
  obtain ⟨hplain, hending, ⟨ip, hafter⟩, hip, haccesses⟩ := h
  have hbody : body.run (m.past n)
      = ((body.run m).1, (body.run m).2.moved (m.past n).registers.ip) := hplain.run_moved _ m
  have hbodyAccesses : body.accesses (m.past n) = body.accesses m := hplain.accesses_moved _ m
  rw [hbody] at hending hafter hip
  rw [hbodyAccesses] at haccesses
  refine ⟨hplain, ?_, ⟨ip, ?_⟩, fun target htarget => ?_, fun granted hgranted => ?_⟩
  · rw [run_bind_of_ok f hfirst, hending]
  · rw [run_bind_of_ok f hfirst, hafter, moved_moved]
  · rw [run_bind_of_ok f hfirst, hip target htarget, past_add]
  · rw [accesses_bind_of_ok f hfirst]
    exact List.mem_append_right _ (haccesses granted hgranted)

/-- A look first at what makes no difference. -/
theorem ignore {first : Microprogram α} {f : α → Microprogram Unit} {value : α}
    (hfirst : first.run m = (.ok value, m)) (h : Performs (f value) m n body) :
    Performs (first >>= f) m n body := by
  have hbehind : Performs (first >>= f) m (0 + n) body :=
    behind (by rw [past_zero]; exact hfirst) (by rw [past_zero]; exact h)
  rwa [Nat.zero_add] at hbehind

/-- A jump over a distance and nothing else. -/
theorem of_jumpBy (distance : Word) (m : Machine) (n : Nat) :
    Performs (Instruction.jumpBy distance) m n
      ((done ()).landing (some (m.registers.ip + distance))) where
  plain := .landing (.done _) _
  ending := rfl
  after := ⟨m.registers.ip + distance, rfl⟩
  ip target htarget := by
    cases htarget
    rfl
  accesses granted hgranted := by cases hgranted

/-- The same plain part in front of both. -/
theorem bind {first : Microprogram α} {f : α → Microprogram Unit}
    {g : α → Microprogram (Option Word)} (hfirst : Plain first) (hrest : ∀ value, Plain (g value))
    (h : ∀ value between, first.run m = (.ok value, between) →
      Performs (f value) between n (g value)) :
    Performs (first >>= f) m n (first >>= g) := by
  have hip := (hfirst.stays m).ip
  rcases hrun : first.run m with ⟨result, between⟩
  rw [hrun] at hip
  cases result with
  | error cause =>
    refine ⟨.bind hfirst hrest, ?_, ⟨between.registers.ip, ?_⟩, fun target htarget => ?_, ?_⟩
    · rw [run_bind, run_bind, hrun]
      rfl
    · rw [run_bind, run_bind, hrun]
      rfl
    · rw [run_bind, hrun] at htarget
      cases htarget
    · rw [accesses_bind_of_error f hrun, accesses_bind_of_error g hrun]
      exact fun _ => id
  | ok value =>
    obtain ⟨-, hending, ⟨ip, hafter⟩, hland, haccesses⟩ := h value between hrun
    refine ⟨.bind hfirst hrest, ?_, ⟨ip, ?_⟩, fun target htarget => ?_, fun granted hgranted => ?_⟩
    · rw [run_bind_of_ok f hrun, run_bind_of_ok g hrun, hending]
    · rw [run_bind_of_ok f hrun, run_bind_of_ok g hrun, hafter]
    · rw [run_bind_of_ok g hrun] at htarget
      rw [run_bind_of_ok f hrun, hland target htarget]
      unfold past skip
      dsimp only
      rw [hip]
    · rw [accesses_bind_of_ok g hrun] at hgranted
      rw [accesses_bind_of_ok f hrun]
      rcases List.mem_append.mp hgranted with hmem | hmem
      · exact List.mem_append_left _ hmem
      · exact List.mem_append_right _ (haccesses granted hmem)

/-- A look at registers or data in front of both. -/
theorem look {first : Microprogram α} {f : α → Microprogram Unit}
    {g : α → Microprogram (Option Word)} (hlooks : Looks first) (hfirst : Plain first)
    (h : ∀ value, Performs (f value) m n (g value)) :
    Performs (first >>= f) m n (first >>= g) := by
  refine bind hfirst (fun value => (h value).plain) fun value between hrun => ?_
  rw [hlooks.eq_of_run hrun]
  exact h value

end Performs

end Microprogram

/-! ## Whole steps -/

namespace Machine

open Microprogram Instruction

/-- A step of an instruction of `n` bytes comes to what a body comes to, but for the instruction
pointer. -/
structure Undergoes (m : Machine) (n : Nat) (body : Microprogram (Option Word)) : Prop where
  plain : Plain body
  outcome : m.step.1 = match (body.run m).1 with
    | .ok _ => .continued
    | .error cause => .stopped (.gaveUp m.registers.codePointer cause)
  after : ∃ ip, m.step.2 = (body.run m).2.moved ip
  ip : ∀ target, (body.run m).1 = .ok target →
    m.step.2.registers.ip = target.getD (m.past n).registers.ip
  accesses : ∀ granted ∈ body.accesses m, granted ∈ m.accesses

variable {m : Machine} {code : List Byte} {opcode : Byte} {instruction : Instruction} {n : Nat}
  {body : Microprogram (Option Word)}

/-- What a step does is what its instruction performs behind modifiers and opcode. -/
theorem undergoes_of_performs (hface : m.Faces (code ++ [opcode]))
    (hmodify : ∀ byte ∈ code, Encoding.isModifier byte = true) (hfew : code.length ≤ maxModifiers)
    (hopcode : Opcode.ofByte opcode = .instruction instruction) (hhalt : instruction ≠ .halt)
    (h : Performs (instruction.perform opcode (gather Modifiers.none m.registers code))
      (m.past (code.length + 1)) n body) : m.Undergoes (code.length + 1 + n) body := by
  have hfetch := run_fetch_gather Modifiers.none hface hmodify hfew hopcode
  obtain ⟨hplain, hending, hafter, hip, haccesses⟩ := Performs.behind
    (f := fun fetched => fetched.instruction.perform fetched.opcode fetched.modifiers) hfetch h
  rw [run_bind_of_ok _ hfetch] at hending hafter hip
  rcases hperform : (instruction.perform opcode (gather Modifiers.none m.registers code)).run
    (m.past (code.length + 1)) with ⟨result, last⟩
  rw [hperform] at hending hafter hip
  have hrun : fetchAndPerform.run m = (result.map fun _ => false, last) := by
    unfold fetchAndPerform
    rw [run_bind_of_ok _ hfetch, run_bind, hperform]
    cases result with
    | error cause => rfl
    | ok _ => exact congrArg (fun halts => (Except.ok halts, last)) (beq_eq_false_iff_ne.mpr hhalt)
  have hoff : ∀ granted ∈ body.accesses m, granted ∈ m.accesses := fun granted hgranted => by
    have hmem := haccesses granted hgranted
    unfold Machine.accesses fetchAndPerform
    rw [accesses_bind_of_ok _ hfetch] at hmem ⊢
    refine (List.mem_append.mp hmem).elim (List.mem_append_left _) fun hlater => ?_
    rw [accesses_bind]
    exact List.mem_append_right _ (List.mem_append_left _ hlater)
  have hlast : m.step.2 = last := by
    unfold step
    rw [hrun]
    cases result <;> rfl
  refine ⟨hplain, ?_, hlast ▸ hafter, fun target htarget => ?_, hoff⟩
  · unfold step
    obtain rfl := hending
    rw [hrun]
    cases (body.run m).1 <;> rfl
  · rw [hlast]
    exact hip target htarget

end Machine

end CmStream
