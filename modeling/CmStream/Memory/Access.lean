import CmStream.Text.Hex

/-!
# Kinds of access and permissions

A page grants each kind of access separately, and grants none at all unless it is valid.
A refused access is a fault, which names the linear address and the kind of access.
-/

namespace CmStream

inductive Access where
  | read
  | write
  | execute
  deriving DecidableEq, Repr

structure Permissions where
  read : Bool
  write : Bool
  execute : Bool
  valid : Bool
  deriving DecidableEq, Repr

namespace Permissions

/-- Every kind of access is granted. -/
def all : Permissions := ⟨true, true, true, true⟩

/-- The permissions that the four lowest bits of a mask stand for, in the order of the fields. -/
def ofMask (mask : Nat) : Permissions :=
  ⟨mask.testBit 0, mask.testBit 1, mask.testBit 2, mask.testBit 3⟩

def grants (p : Permissions) : Access → Bool
  | .read => p.valid && p.read
  | .write => p.valid && p.write
  | .execute => p.valid && p.execute

theorem grants_all (access : Access) : all.grants access = true := by
  cases access <;> rfl

end Permissions

/-- A refused access. -/
structure Fault where
  address : Nat
  access : Access
  deriving DecidableEq, Repr

namespace Fault

def message (fault : Fault) : String :=
  let attempt := match fault.access with
    | .read => "read from"
    | .write => "write to"
    | .execute => "execute at"
  "memory fault: " ++ attempt ++ " linear address " ++ Text.markedHex 5 fault.address

end Fault

end CmStream
