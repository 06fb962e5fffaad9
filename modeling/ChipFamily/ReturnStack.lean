import ChipFamily.Processor

namespace ChipFamily

inductive StackError where
  | overflow (address : Address)
  | underflow
  deriving DecidableEq, Repr

def StackError.message : StackError → String
  | .overflow address => s!"call stack overflow pushing {address.text}"
  | .underflow => "call stack underflow"

/-- A number of slots that no return stack has. -/
structure CapacityError where
  capacity : Nat
  deriving DecidableEq, Repr

def CapacityError.message (e : CapacityError) : String :=
  s!"call stack capacity must be 1..65535, got {e.capacity}"

/-- The slots for return addresses. The pointer to the top one is with the processor. -/
structure ReturnStack where
  slots : Array Address
  capacity_pos : 0 < slots.size
  capacity_lt : slots.size < StackPointer.empty.toNat

/-- What a pop gives. There is no address if no slot was read. -/
structure Popped where
  address : Option Address
  underflow : Bool
  deriving DecidableEq, Repr

/-- The popped address, or else the one that the target holds already. -/
def Popped.into (p : Popped) (target : Address) : Address :=
  p.address.getD target

def Popped.result : Popped → Except StackError Address
  | ⟨some address, false⟩ => .ok address
  | _ => .error .underflow

namespace ReturnStack

variable {σ : Type}

def capacity (s : ReturnStack) : Nat := s.slots.size

def blank (capacity : Nat) (h : 0 < capacity) (h' : capacity < StackPointer.empty.toNat) :
    ReturnStack :=
  ⟨Array.replicate capacity 0, by simpa using h, by simpa using h'⟩

def ofCapacity (capacity : Nat) : Except CapacityError ReturnStack :=
  if h : 0 < capacity ∧ capacity < StackPointer.empty.toNat then .ok (blank capacity h.1 h.2)
  else .error ⟨capacity⟩

def slot? (s : ReturnStack) (i : Nat) : Option Address := s.slots[i]?

/-- The occupied slots, the oldest first. -/
def entries (s : ReturnStack) (top : StackPointer) : List Address :=
  s.slots.toList.take top.depth.toNat

def clear (s : ReturnStack) : ReturnStack :=
  blank s.capacity s.capacity_pos s.capacity_lt

def store (s : ReturnStack) (i : Nat) (address : Address) : ReturnStack :=
  ⟨s.slots.setIfInBounds i address, by simpa using s.capacity_pos, by simpa using s.capacity_lt⟩

/-- A processor that moves its pointer past the last slot is asked to move it back. -/
def push [Processor σ] (s : ReturnStack) (cpu : σ) (address : Address) :
    Except StackError Unit × ReturnStack × σ :=
  let (full, cpu) := Processor.raise cpu
  if full then (.error (.overflow address), s, cpu)
  else
    let top := (Processor.pointer cpu).toNat
    if top < s.capacity then (.ok (), s.store top address, cpu)
    else (.error (.overflow address), s, (Processor.lower cpu).2)

/-- A pointer past the last slot names nothing that was pushed. -/
def Stray (s : ReturnStack) (top : StackPointer) : Prop :=
  top ≠ .empty ∧ s.capacity ≤ top.toNat

instance (s : ReturnStack) (top : StackPointer) : Decidable (s.Stray top) :=
  inferInstanceAs (Decidable (_ ∧ _))

/-- Asks for the slots below a stray pointer, until it is stray no more or the processor answers
that the stack is empty. There is no result if that takes more than `limit` requests. -/
def settleWithin [Processor σ] (s : ReturnStack) (limit : Nat) (cpu : σ) :
    Option (StackPointer × σ) :=
  let top := Processor.pointer cpu
  if s.Stray top then
    match limit with
    | 0 => none
    | limit + 1 =>
      let (isEmpty, cpu) := Processor.lower cpu
      if isEmpty then some (top, cpu) else s.settleWithin limit cpu
  else some (top, cpu)

/-- The top slot is read before the pointer goes down, which is also tried on an empty stack. -/
def take [Processor σ] (s : ReturnStack) (top : StackPointer) (cpu : σ) : Popped × σ :=
  let (underflow, cpu) := Processor.lower cpu
  (⟨if top = .empty then none else s.slot? top.toNat, underflow⟩, cpu)

/-- A pop from any processor, if at most `limit` requests bring a stray pointer back. -/
def popWithin [Processor σ] (s : ReturnStack) (limit : Nat) (cpu : σ) : Option (Popped × σ) :=
  (s.settleWithin limit cpu).map fun (top, cpu) => s.take top cpu

theorem Stray.pos {s : ReturnStack} {top : StackPointer} (h : s.Stray top) : 0 < top.toNat :=
  Nat.lt_of_lt_of_le s.capacity_pos h.2

theorem isSome_settleWithin [HonestProcessor σ] (s : ReturnStack) (limit : Nat) (cpu : σ)
    (h : (Processor.pointer cpu).toNat ≤ limit) : (s.settleWithin limit cpu).isSome := by
  induction limit generalizing cpu with
  | zero =>
    have hs : ¬ s.Stray (Processor.pointer cpu) := fun hs => by
      have := hs.pos
      omega
    rw [settleWithin, if_neg hs]
    rfl
  | succ limit ih =>
    rw [settleWithin]
    split
    · rename_i hs
      cases hl : (Processor.lower cpu).1 with
      | true => simp [hl]
      | false =>
        simp only [hl]
        apply ih
        have hp := hs.pos
        have h1 : (1 : UInt16) ≤ Processor.pointer cpu := UInt16.le_iff_toNat_le.2 hp
        rw [HonestProcessor.pointer_lower cpu hl, UInt16.toNat_sub_of_le _ _ h1]
        exact Nat.sub_le_of_le_add h
    · rfl

/-- A stray pointer of an honest processor comes back before it has gone down to slot 0. -/
def pop [HonestProcessor σ] (s : ReturnStack) (cpu : σ) : Popped × σ :=
  let limit := (Processor.pointer cpu).toNat
  (s.popWithin limit cpu).get (by
    simpa [popWithin] using s.isSome_settleWithin limit cpu (Nat.le_refl limit))

end ReturnStack
end ChipFamily
