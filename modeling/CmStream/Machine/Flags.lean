import CmStream.Word

/-!
# Flags

Nine bits of the flags word have a meaning. Of the others, bit 1 always reads as one and the
rest as zero once a program has loaded the word.
-/

namespace CmStream

inductive Flag where
  | carry
  | parity
  | auxiliary
  | zero
  | sign
  | trap
  | interrupt
  | direction
  | overflow
  deriving DecidableEq, Repr

namespace Flag

/-- The place of a flag in the flags word. -/
def bit : Flag → Nat
  | carry => 0
  | parity => 2
  | auxiliary => 4
  | zero => 6
  | sign => 7
  | trap => 8
  | interrupt => 9
  | direction => 10
  | overflow => 11

def mask (flag : Flag) : Word := BitVec.twoPow 16 flag.bit

def all : List Flag :=
  [carry, parity, auxiliary, zero, sign, trap, interrupt, direction, overflow]

theorem bit_lt (flag : Flag) : flag.bit < 16 := by cases flag <;> decide

theorem bit_injective {f g : Flag} (h : f.bit = g.bit) : f = g := by
  cases f <;> cases g <;> simp_all [bit]

end Flag

namespace Flags

/-! A flags word and its single flags. -/

def get (flags : Word) (flag : Flag) : Bool := flags.getLsbD flag.bit

def set (flags : Word) (flag : Flag) (value : Bool) : Word :=
  if value then flags ||| flag.mask else flags &&& ~~~flag.mask

/-- The flags that a mask names. -/
def named (mask : Word) : List Flag := Flag.all.filter (get mask)

def setAll (flags : Word) (names : List Flag) (value : Bool) : Word :=
  names.foldl (fun word flag => set word flag value) flags

/-- The flags word in which only the bit that always reads as one is set. -/
def none : Word := 0x0002

/-- The bits that have a meaning. -/
def meaningful : Word := 0x0fd5

/-- The flags word that loading a value gives: bits without a meaning are not taken over. -/
def load (value : Word) : Word := (value &&& meaningful) ||| none

theorem get_set (flags : Word) (f g : Flag) (value : Bool) :
    get (set flags f value) g = if f = g then value else get flags g := by
  have hf := f.bit_lt
  have hg := g.bit_lt
  by_cases h : f = g
  · subst h
    cases value <;> simp [get, set, Flag.mask, hf]
  · have hne : g.bit ≠ f.bit := fun same => h (Flag.bit_injective same).symm
    cases value <;> simp [get, set, Flag.mask, h, hne, hg]

theorem getLsbD_set (flags : Word) (flag : Flag) (value : Bool) {i : Nat} (hi : i < 16) :
    (set flags flag value).getLsbD i = if i = flag.bit then value else flags.getLsbD i := by
  have hbit := flag.bit_lt
  unfold set Flag.mask
  by_cases h : i = flag.bit
  · subst h
    cases value <;> simp [hi]
  · cases value <;> simp [hi, h]

/-- Two flags words are the same in every bit, those without a meaning among them, other than some
flags. -/
def SameBut (changed : List Flag) (before after : Word) : Prop :=
  ∀ i, (∀ flag ∈ changed, i ≠ flag.bit) → after.getLsbD i = before.getLsbD i

theorem SameBut.refl (changed : List Flag) (flags : Word) : SameBut changed flags flags :=
  fun _ _ => rfl

/-- One of the flags that may differ is set. -/
theorem SameBut.set {changed : List Flag} {before after : Word} (h : SameBut changed before after)
    {flag : Flag} (hflag : flag ∈ changed) (value : Bool) :
    SameBut changed before (Flags.set after flag value) := by
  intro i hother
  rcases Nat.lt_or_ge i 16 with hi | hi
  · rw [getLsbD_set after flag value hi, if_neg (hother flag hflag)]
    exact h i hother
  · rw [BitVec.getLsbD_of_ge _ i hi, BitVec.getLsbD_of_ge _ i hi]

end Flags

end CmStream
