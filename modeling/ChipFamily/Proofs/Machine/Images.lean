import ChipFamily.Machine.Command
import ChipFamily.Proofs.Memory.Access
import ChipFamily.Proofs.ReturnStack.OnRegisters

namespace ChipFamily.Machine

/-- A machine as it is after power-on, with nothing in memory but the boot image. -/
def fresh (setup : Setup) : Machine where
  registers := .powerOn setup.model.entry (UInt16.ofNat setup.model.stackCapacity)
  memory := (Memory.blank setup.model.memorySize setup.model.memorySize_pos
    setup.model.memorySize_le).place 0 setup.bootBytes
  stack := .blank setup.model.stackCapacity setup.model.stackCapacity_pos
    setup.model.stackCapacity_lt
  setup
  program := none

/-- The boot image fits below the entry point, and the stored program above it. -/
structure ImagesFit (m : Machine) : Prop where
  boot_le : m.setup.bootBytes.length ≤ m.entry.toNat
  entry_lt : m.entry.toNat < m.memory.size
  program_lt : ∀ image, m.program = some image → m.entry.toNat + image.length < m.memory.size

def bootMemory (m : Machine) : Memory :=
  m.memory.wipe.place 0 m.setup.bootBytes

def imageMemory (m : Machine) : Memory :=
  match m.program with
  | none => m.bootMemory
  | some image => m.bootMemory.place m.entry.toNat image

variable {m : Machine}

@[simp] theorem size_bootMemory (m : Machine) : m.bootMemory.size = m.memory.size := by
  rw [bootMemory, Memory.size_place, Memory.size_wipe]

@[simp] theorem size_imageMemory (m : Machine) : m.imageMemory.size = m.memory.size := by
  rw [imageMemory]
  split
  · exact m.size_bootMemory
  · rw [Memory.size_place, size_bootMemory]

theorem writeBoot_of_le (hb : m.setup.bootBytes.length ≤ m.entry.toNat)
    (he : m.entry.toNat < m.memory.size) :
    m.writeBoot = .ok { m with memory := m.memory.place 0 m.setup.bootBytes } := by
  rw [writeBoot, Memory.loadBoot_of_le (Nat.le_min.2 ⟨hb, by omega⟩)]
  rfl

theorem build_of_le {setup : Setup} (h : setup.bootBytes.length ≤ setup.model.entry.toNat) :
    build setup = .ok (fresh setup) := by
  have he := setup.model.entry_lt_memorySize
  rw [build, Setup.validate, if_pos h]
  exact writeBoot_of_le h (by rw [Memory.size_blank]; exact he)

theorem build_of_not_le {setup : Setup}
    (h : ¬ setup.bootBytes.length ≤ setup.model.entry.toNat) :
    build setup = .error (.bootTooLarge setup.bootBytes.length setup.model.entry.toNat) := by
  rw [build, Setup.validate, if_neg h]
  rfl

theorem eq_fresh_of_build {setup : Setup} (h : build setup = .ok m) :
    setup.bootBytes.length ≤ setup.model.entry.toNat ∧ m = fresh setup := by
  by_cases hb : setup.bootBytes.length ≤ setup.model.entry.toNat
  · rw [build_of_le hb] at h
    cases h
    exact ⟨hb, rfl⟩
  · rw [build_of_not_le hb] at h
    cases h

theorem size_fresh (setup : Setup) : (fresh setup).memory.size = setup.model.memorySize := by
  rw [fresh, Memory.size_place, Memory.size_blank]

theorem imagesFit_fresh {setup : Setup}
    (h : setup.bootBytes.length ≤ setup.model.entry.toNat) : (fresh setup).ImagesFit where
  boot_le := h
  entry_lt := by
    rw [size_fresh]
    exact setup.model.entry_lt_memorySize
  program_lt image hi := by cases hi

theorem loadProgram_of_lt {image : List UInt8}
    (hl : m.entry.toNat + image.length < m.memory.size) :
    m.loadProgram image =
      (.ok image.length, { m with
        memory := m.memory.place m.entry.toNat image
        program := some image }) := by
  rw [loadProgram, Memory.loadProgram_of_lt hl]

theorem loadProgram_of_not_lt {image : List UInt8}
    (hl : ¬ m.entry.toNat + image.length < m.memory.size) :
    m.loadProgram image =
      (.error (.programTooLarge image.length (m.memory.room m.entry)), m) := by
  rw [loadProgram, Memory.loadProgram_of_not_lt hl]

theorem ImagesFit.writeBoot_wiped (h : m.ImagesFit) (registers : Registers)
    (stack : ReturnStack) (program : Option (List UInt8)) :
    writeBoot ⟨registers, m.memory.wipe, stack, m.setup, program⟩ =
      .ok ⟨registers, m.bootMemory, stack, m.setup, program⟩ :=
  writeBoot_of_le h.boot_le (by rw [Memory.size_wipe]; exact h.entry_lt)

theorem ImagesFit.start_of_unreadable (h : m.ImagesFit) {file : File} {cause : ReadError}
    (hc : file.contents = .error cause) :
    m.start file = (false, { m with memory := m.bootMemory, program := none }) := by
  rw [start, h.writeBoot_wiped]
  simp only [Memory.loadFile, hc]

theorem ImagesFit.start_of_too_large (h : m.ImagesFit) {file : File} {image : List UInt8}
    (hc : file.contents = .ok image) (hl : ¬ m.entry.toNat + image.length < m.memory.size) :
    m.start file = (false, { m with memory := m.bootMemory, program := none }) := by
  rw [← m.size_bootMemory] at hl
  have hload := Memory.loadProgram_of_not_lt hl
  rw [start, h.writeBoot_wiped]
  simp only [Memory.loadFile, hc, entry, model] at hload ⊢
  rw [hload]

/-- The program is stored as a whole, though its length is taken as a word. -/
theorem ImagesFit.start_of_lt (h : m.ImagesFit) {file : File} {image : List UInt8}
    (hc : file.contents = .ok image) (hl : m.entry.toNat + image.length < m.memory.size) :
    m.start file =
      (true, { m with
        memory := m.bootMemory.place m.entry.toNat image
        program := some image }) := by
  rw [← m.size_bootMemory] at hl
  have hload := Memory.loadProgram_of_lt hl
  have hread := Memory.read_place hl
  rw [start, h.writeBoot_wiped]
  simp only [Memory.loadFile, hc, entry, model] at hload hread ⊢
  rw [hload]
  simp only [hread, Except.toOption]

theorem ImagesFit.reset_eq (h : m.ImagesFit) :
    m.reset =
      { m with
        registers := m.registers.reset m.entry
        memory := m.imageMemory
        stack := m.stack.clear } := by
  -- Neither image is left out, since both fit.
  rw [reset, h.writeBoot_wiped]
  simp only [Except.toOption, Option.getD_some, reload, imageMemory]
  cases hp : m.program with
  | none => rfl
  | some image =>
    have hl := h.program_lt image hp
    rw [← m.size_bootMemory] at hl
    have hload := Memory.loadProgram_of_lt hl
    simp only [entry, model] at hload ⊢
    rw [hload]
    rfl

/-- What no command changes. -/
structure Shape where
  setup : Setup
  memorySize : Nat
  stackCapacity : Nat
  stackDepth : UInt16

def shape (m : Machine) : Shape :=
  ⟨m.setup, m.memory.size, m.stack.capacity, m.registers.depth⟩

theorem program_keep (m : Machine) (result : Except RangeError Memory) :
    (m.keep result).2.program = m.program := by
  cases result <;> rfl

theorem shape_write (m : Machine) (start : Address) (block : List UInt8) :
    (m.write start block).shape = m.shape := by
  by_cases h : Memory.Inside m.memory.size start block.length
  · rw [write, Memory.write_of_inside _ h]
    simp only [shape, Memory.size_place]
  · rw [write, Memory.write_of_not_inside _ h]
    rfl

theorem shape_copy (m : Machine) (src dst : Address) (n : UInt16) :
    (m.copy src dst n).2.shape = m.shape := by
  by_cases h : Memory.Inside m.memory.size src n.toNat ∧ Memory.Inside m.memory.size dst n.toNat
  · obtain ⟨memory, hc, hb⟩ := Memory.copy_of_inside h.1 h.2
    rw [copy, hc]
    simp only [keep, shape, Memory.size, hb, size_moveForward]
  · rw [copy, Memory.copy_of_not_inside h]
    rfl

theorem shape_clear (m : Machine) (start : Address) (n : UInt16) :
    (m.clear start n).2.shape = m.shape := by
  by_cases h : Memory.Inside m.memory.size start n.toNat
  · rw [clear, Memory.clear_of_inside h]
    simp only [keep, shape, Memory.size_place]
  · rw [clear, Memory.clear_of_not_inside h]
    rfl

theorem shape_push (m : Machine) (address : Address) :
    (m.push address).2.shape = m.shape := by
  by_cases h : m.stack.HasRoom m.registers
  · rw [push, m.stack.push_of_room _ h]
    simp only [shape, ReturnStack.store, ReturnStack.capacity, Array.size_setIfInBounds]
  · rw [push, m.stack.push_of_no_room _ h]

theorem shape_pop (m : Machine) : m.pop.2.shape = m.shape := by
  obtain ⟨p, hp⟩ := m.stack.exists_pop m.registers
  simp only [pop, shape, hp]

theorem ImagesFit.of_shape (h : m.ImagesFit) {m' : Machine} (hs : m'.shape = m.shape)
    (hp : ∀ image, m'.program = some image → m.entry.toNat + image.length < m.memory.size) :
    m'.ImagesFit := by
  have hsetup : m'.setup = m.setup := congrArg Shape.setup hs
  have hsize : m'.memory.size = m.memory.size := congrArg Shape.memorySize hs
  refine ⟨?_, ?_, ?_⟩ <;> rw [entry, model, hsetup]
  · exact h.boot_le
  · rw [hsize]
    exact h.entry_lt
  · rw [hsize]
    exact hp

theorem ImagesFit.of_kept (h : m.ImagesFit) {m' : Machine} (hs : m'.shape = m.shape)
    (hp : m'.program = m.program) : m'.ImagesFit := by
  apply h.of_shape hs
  intro image hi
  exact h.program_lt image (hp.symm.trans hi)

theorem ImagesFit.of_none (h : m.ImagesFit) {m' : Machine} (hs : m'.shape = m.shape)
    (hp : m'.program = none) : m'.ImagesFit := by
  apply h.of_shape hs
  intro image hi
  rw [hp] at hi
  cases hi

theorem ImagesFit.of_some (h : m.ImagesFit) {m' : Machine} (hs : m'.shape = m.shape)
    {image : List UInt8} (hp : m'.program = some image)
    (hl : m.entry.toNat + image.length < m.memory.size) : m'.ImagesFit := by
  apply h.of_shape hs
  intro image' hi
  rw [hp] at hi
  cases hi
  exact hl

theorem ImagesFit.shape_reset (h : m.ImagesFit) : m.reset.shape = m.shape := by
  rw [h.reset_eq]
  simp only [shape, size_imageMemory, ReturnStack.clear, ReturnStack.blank, ReturnStack.capacity,
    Array.size_replicate, Registers.reset, Registers.powerOn]

end ChipFamily.Machine
