import CmStream.Decompression

/-!
# Runs that need not end

A program may run for ever. With a limit on the steps of every run it is cut short; without one
there is nothing to wait for. The functions here take the limit as it is granted, a number or none
at all, and give nothing exactly where a run does not end.
-/

namespace CmStream

/-- The ending of a run whose last step, counted among those made, does not continue. -/
def Outcome.ending (made : Nat) : Outcome → Except Stop Nat
  | .stopped stop => .error stop
  | _ => .ok made

namespace Machine

/-- Steps until the machine halts, a step stops it or the limit is reached; the steps made so far
are counted. -/
def loop (limit : Option Nat) (made : Nat) (m : Machine) :
    Option (Except Stop Nat × Machine) :=
  if limit.any (· ≤ made) then some (.error (.stepLimit made), m)
  else if m.step.1 = .continued then m.step.2 |>.loop limit (made + 1)
  else some (m.step.1.ending (made + 1), m.step.2)
partial_fixpoint

/-- A run under a limit or under none. -/
def runWith (limit : Option Nat) (m : Machine) : Option (Except Stop Nat × Machine) :=
  loop limit 0 m

end Machine

namespace Sandbox

/-- Runs the decompressor on a block whose header has been read. -/
def executeWith (limit : Option Nat) (s : Sandbox) (block : Block) (header : BlockHeader) :
    Option (Except Stop Nat × Sandbox) :=
  match s.prepare block header with
  | (.ok (), m) => (m.runWith limit).map fun (ending, after) => (ending, ⟨after, s.entry⟩)
  | (.error stop, m) => some (.error stop, ⟨m, s.entry⟩)

/-- Runs the decompressor on a block, unless the header of the block cannot be read. -/
def callWith (limit : Option Nat) (s : Sandbox) (block : Block) :
    Option (Except FormatError CallResult × Sandbox) :=
  match block.header with
  | .error error => some (.error error, s)
  | .ok header =>
    (s.executeWith limit block header).map fun (ending, after) =>
      (.ok (CallResult.ofEnding ending after.machine.registers), after)

/-- Runs the decompressor on one block after the other, whatever comes of each of them. -/
def callAllWith (limit : Option Nat) :
    Sandbox → List Block → Option (List (Except FormatError CallResult) × Sandbox)
  | s, [] => some ([], s)
  | s, block :: rest =>
    (s.callWith limit block).bind fun (result, after) =>
      (callAllWith limit after rest).map fun (results, last) => (result :: results, last)

/-- The output of some blocks, up to the first that does not keep to what it declares. -/
def decompressWith (limit : Option Nat) :
    Sandbox → List Block → Option (Except Error (List Byte))
  | _, [] => some (.ok [])
  | s, block :: rest =>
    (s.callWith limit block).bind fun (result, after) =>
      match result with
      | .error error => some (.error (.format error))
      | .ok result =>
        match result.check block with
        | .error error => some (.error (.execution block.offset error))
        | .ok () =>
          (decompressWith limit after rest).map
            (Except.map (after.output block.uncompressedLength ++ ·))

end Sandbox

/-- Decompresses a stream, under a limit on the steps of every block or under none. -/
def decompressWith (limit : Option Nat) (bytes : List Byte) :
    Option (Except Error (List Byte)) :=
  match Container.parse bytes with
  | .error error => some (.error (.format error))
  | .ok container =>
    match Sandbox.load container.image with
    | .error error => some (.error (.setup error))
    | .ok s => s.decompressWith limit container.blocks

end CmStream
