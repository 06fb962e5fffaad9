import ChipFamily.Processor
import ChipFamily.ReturnStack
import ChipFamily.Setup

namespace ChipFamily

structure Machine where
  registers : Registers
  memory : Memory
  stack : ReturnStack
  setup : Setup
  /-- The program image that a reset loads again. -/
  program : Option (List UInt8)

namespace Machine

def model (m : Machine) : Model := m.setup.model

def entry (m : Machine) : Address := m.model.entry

def writeBoot (m : Machine) : Except LoadError Machine := do
  let memory ← m.memory.loadBoot m.setup.bootBytes m.entry
  return { m with memory }

/-- A machine whose memory holds the boot image and nothing else. -/
def build (setup : Setup) : Except LoadError Machine := do
  setup.validate
  let model := setup.model
  writeBoot
    { registers := .powerOn model.entry (UInt16.ofNat model.stackCapacity)
      memory := .blank model.memorySize model.memorySize_pos model.memorySize_le
      stack := .blank model.stackCapacity model.stackCapacity_pos model.stackCapacity_lt
      setup
      program := none }

def loadProgram (m : Machine) (image : List UInt8) : Except LoadError Nat × Machine :=
  match m.memory.loadProgram m.entry image with
  | .ok (length, memory) => (.ok length, { m with memory, program := some image })
  | .error e => (.error e, m)

/-- Clears memory and loads the boot image and a program. The answer says whether both fitted. -/
def start (m : Machine) (file : File) : Bool × Machine :=
  let cleared := { m with memory := m.memory.wipe, program := none }
  match cleared.writeBoot with
  | .error _ => (false, cleared)
  | .ok m =>
    match m.memory.loadFile m.entry file with
    | .error _ => (false, m)
    | .ok (length, memory) =>
      let program := (memory.read m.entry (UInt16.ofNat length)).toOption
      (true, { m with memory, program })

/-- Loads the program image again that was loaded last. -/
def reload (m : Machine) : Except LoadError Machine :=
  match m.program with
  | none => .ok m
  | some image => do
    let (_, memory) ← m.memory.loadProgram m.entry image
    return { m with memory }

/-- An image that does not fit is left out. -/
def reset (m : Machine) : Machine :=
  let cleared :=
    { m with
      memory := m.memory.wipe
      stack := m.stack.clear
      registers := m.registers.reset m.entry }
  let booted := cleared.writeBoot.toOption.getD cleared
  booted.reload.toOption.getD booted

def read (m : Machine) (start : Address) (length : UInt16) : Except RangeError (List UInt8) :=
  m.memory.read start length

def write (m : Machine) (start : Address) (block : List UInt8) : Machine :=
  let (memory, registers) := m.memory.write m.registers start block
  { m with memory, registers }

/-- The outcome of an operation on memory, which is kept if the operation fails. -/
def keep (m : Machine) : Except RangeError Memory → Except RangeError Unit × Machine
  | .ok memory => (.ok (), { m with memory })
  | .error e => (.error e, m)

def copy (m : Machine) (src dst : Address) (length : UInt16) : Except RangeError Unit × Machine :=
  m.keep (m.memory.copy src dst length)

def clear (m : Machine) (start : Address) (length : UInt16) : Except RangeError Unit × Machine :=
  m.keep (m.memory.clear start length)

def fetch? (m : Machine) : Option UInt16 := m.memory.fetch? m.registers.counter

def checkedFetch (m : Machine) : Except RangeError UInt16 :=
  m.memory.checkedFetch m.registers.counter

def push (m : Machine) (address : Address) : Except StackError Unit × Machine :=
  let (result, stack, registers) := m.stack.push m.registers address
  (result, { m with stack, registers })

def pop (m : Machine) : Popped × Machine :=
  let (popped, registers) := m.stack.pop m.registers
  (popped, { m with registers })

def takeTrap (m : Machine) : Option Fault × Machine :=
  let (fault, registers) := m.registers.takeTrap
  (fault, { m with registers })

def enterTrap (m : Machine) (fault : Fault) : Machine :=
  { m with registers := m.registers.enterTrap fault }

def setCounter (m : Machine) (counter : Address) : Machine :=
  { m with registers := { m.registers with counter } }

def setPointer (m : Machine) (pointer : StackPointer) : Machine :=
  { m with registers := { m.registers with pointer } }

end Machine
end ChipFamily
