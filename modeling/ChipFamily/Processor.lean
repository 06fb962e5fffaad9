import ChipFamily.Fault

namespace ChipFamily

abbrev StackPointer := UInt16

/-- The pointer of an empty stack is one below slot 0, in sixteen-bit arithmetic. -/
def StackPointer.empty : StackPointer := 0xFFFF

/-- The number of slots up to and with the top one. -/
def StackPointer.depth (p : StackPointer) : UInt16 := p + 1

/-- What memory and the return stack ask of the processor that they serve. -/
class Processor (σ : Type) where
  counter : σ → Address
  pointer : σ → StackPointer
  /-- Asks for the next slot up. The answer `true` says that there is none. -/
  raise : σ → Bool × σ
  /-- Asks for the next slot down. The answer `true` says that the stack is empty. -/
  lower : σ → Bool × σ
  enterTrap : Fault → σ → σ

/-- A processor whose pointer has moved down by one whenever it says that it could move. -/
class HonestProcessor (σ : Type) extends Processor σ where
  pointer_lower (cpu : σ) : (lower cpu).1 = false → pointer (lower cpu).2 = pointer cpu - 1

/-- The registers that memory and the return stack can see. -/
structure Registers where
  counter : Address
  pointer : StackPointer
  /-- The number of slots that the pointer may reach. -/
  depth : UInt16
  pending : Option Fault
  traps : UInt32
  deriving DecidableEq, Repr

def Registers.powerOn (entry : Address) (depth : UInt16) : Registers :=
  ⟨entry, .empty, depth, none, 0⟩

def Registers.reset (r : Registers) (entry : Address) : Registers :=
  powerOn entry r.depth

/-- Taking the pending trap leaves the count of traps alone. -/
def Registers.takeTrap (r : Registers) : Option Fault × Registers :=
  (r.pending, { r with pending := none })

def Registers.raise (r : Registers) : Bool × Registers :=
  let next := r.pointer + 1
  if next < r.depth then (false, { r with pointer := next }) else (true, r)

def Registers.lower (r : Registers) : Bool × Registers :=
  if r.pointer = .empty then (true, r) else (false, { r with pointer := r.pointer - 1 })

/-- A new trap replaces one that is still pending. -/
def Registers.enterTrap (fault : Fault) (r : Registers) : Registers :=
  { r with pending := some fault, traps := r.traps + 1 }

instance : HonestProcessor Registers where
  counter := Registers.counter
  pointer := Registers.pointer
  raise := Registers.raise
  lower := Registers.lower
  enterTrap := Registers.enterTrap
  pointer_lower r h := by
    unfold Registers.lower at h ⊢
    split at h
    · cases h
    · rw [if_neg ‹_›]

end ChipFamily
