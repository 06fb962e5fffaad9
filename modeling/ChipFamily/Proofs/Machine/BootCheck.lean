import ChipFamily.Proofs.Machine.StartUp
import ChipFamily.Proofs.Memory.Loading

namespace ChipFamily

variable {setup : Setup} {e : LoadError}

namespace Setup

theorem validate_eq_ok_iff :
    setup.validate = .ok () ↔ setup.bootBytes.length ≤ setup.model.entry.toNat := by
  rw [validate]
  split <;> simp_all

theorem validate_eq_error_iff :
    setup.validate = .error e ↔ setup.model.entry.toNat < setup.bootBytes.length ∧
      e = .bootTooLarge setup.bootBytes.length setup.model.entry.toNat := by
  rw [validate]
  by_cases h : setup.bootBytes.length ≤ setup.model.entry.toNat
  · rw [if_pos h]
    constructor
    · intro hok
      cases hok
    · intro hlong
      exact absurd h (Nat.not_le.2 hlong.1)
  · rw [if_neg h, Except.error.injEq, and_iff_right (Nat.not_le.1 h), eq_comm]

theorem bootBytes_of_image {bytes : List UInt8} (h : setup.boot = .image bytes) :
    setup.bootBytes = bytes := by
  rw [bootBytes, h]

theorem length_bootBytes_le (h : ∀ bytes, setup.boot ≠ .image bytes) :
    setup.bootBytes.length ≤ setup.model.entry.toNat := by
  obtain ⟨model, boot⟩ := setup
  cases boot with
  | empty => exact Nat.zero_le _
  | font => exact length_bootBytes_font model
  | image bytes => exact absurd rfl (h bytes)

/-- Memory has room up to the entry point, so the size of memory is no limit of its own. -/
theorem loadBoot_eq_validate {memory : Memory} (h : memory.size = setup.model.memorySize) :
    (memory.loadBoot setup.bootBytes setup.model.entry).map (fun _ => ()) = setup.validate := by
  have hlimit : min setup.model.entry.toNat memory.size = setup.model.entry.toNat := by
    have hlt := setup.model.entry_lt_memorySize
    omega
  rw [Memory.loadBoot, validate, hlimit]
  split <;> rfl

end Setup

namespace Machine

variable {m new : Machine}

/-- Writing the boot image does not fail once it is checked. -/
theorem build_eq (setup : Setup) : build setup = setup.validate.map fun _ => fresh setup := by
  rw [Setup.validate]
  by_cases h : setup.bootBytes.length ≤ setup.model.entry.toNat
  · rw [build_of_le h, if_pos h]
    rfl
  · rw [build_of_not_le h, if_neg h]
    rfl

theorem exists_build_iff : (∃ new, build setup = .ok new) ↔ setup.validate = .ok () := by
  rw [build_eq]
  cases setup.validate <;> simp [Except.map]

theorem build_eq_error_iff : build setup = .error e ↔ setup.validate = .error e := by
  rw [build_eq]
  cases setup.validate <;> simp [Except.map]

theorem exists_build_iff_le : (∃ new, build setup = .ok new) ↔
    setup.bootBytes.length ≤ setup.model.entry.toNat :=
  exists_build_iff.trans Setup.validate_eq_ok_iff

/-- The machine to which a start writes the boot image. -/
def emptied (m : Machine) : Machine := { m with memory := m.memory.wipe, program := none }

/-- The machine to which a reset writes the boot image. -/
def cleared (m : Machine) : Machine :=
  { m with
    memory := m.memory.wipe
    stack := m.stack.clear
    registers := m.registers.reset m.entry }

/-- The start of a machine that took its boot image, with the program of the file or without one. -/
def StartsFrom (m booted : Machine) (file : File) : Prop :=
  m.start file = (false, booted) ∨ ∃ image, file.contents = .ok image ∧
    (m.start file).1 = true ∧ booted.loadProgram image = (.ok image.length, (m.start file).2)

/-- A machine in which a start and a reset find room for every image that they load. -/
structure Intact (setup : Setup) (m : Machine) : Prop where
  setup_eq : m.setup = setup
  boot_le : setup.bootBytes.length ≤ setup.model.entry.toNat
  program_lt : ∀ image, m.program = some image →
    setup.model.entry.toNat + image.length < setup.model.memorySize
  memorySize : m.memory.size = setup.model.memorySize
  stackCapacity : m.stack.capacity = setup.model.stackCapacity
  stackDepth : m.registers.depth.toNat = setup.model.stackCapacity
  start_boots : ∃ booted, m.emptied.writeBoot = .ok booted ∧ ∀ file, m.StartsFrom booted file
  reset_reloads : ∃ booted, m.cleared.writeBoot = .ok booted ∧ booted.reload = .ok m.reset

theorem ImagesFit.startsFrom (h : m.ImagesFit) (file : File) :
    m.StartsFrom { m with memory := m.bootMemory, program := none } file := by
  by_cases hf : ∃ image, file.contents = .ok image ∧ m.entry.toNat + image.length < m.memory.size
  · obtain ⟨image, hc, hl⟩ := hf
    have hstart := h.start_of_lt hc hl
    rw [← m.size_bootMemory] at hl
    refine .inr ⟨image, hc, congrArg Prod.fst hstart, ?_⟩
    rw [hstart]
    exact loadProgram_of_lt hl
  · exact .inl (h.start_of_not_lt fun image hc hl => hf ⟨image, hc, hl⟩)

theorem ImagesFit.start_boots (h : m.ImagesFit) :
    ∃ booted, m.emptied.writeBoot = .ok booted ∧ ∀ file, m.StartsFrom booted file :=
  ⟨_, h.writeBoot_wiped m.registers m.stack none, h.startsFrom⟩

theorem exists_reload (h : ∀ image, m.program = some image →
    m.entry.toNat + image.length < m.memory.size) : ∃ reloaded, m.reload = .ok reloaded := by
  rw [reload]
  cases hp : m.program with
  | none => exact ⟨m, rfl⟩
  | some image =>
    simp only [Memory.loadProgram_of_lt (h image hp)]
    exact ⟨_, rfl⟩

theorem ImagesFit.reset_reloads (h : m.ImagesFit) :
    ∃ booted, m.cleared.writeBoot = .ok booted ∧ booted.reload = .ok m.reset := by
  have hboot := h.writeBoot_wiped (m.registers.reset m.entry) m.stack.clear m.program
  have hprogram := h.program_lt
  rw [← m.size_bootMemory] at hprogram
  obtain ⟨reloaded, hreload⟩ := exists_reload
    (m := ⟨m.registers.reset m.entry, m.bootMemory, m.stack.clear, m.setup, m.program⟩) hprogram
  refine ⟨_, hboot, hreload.trans (congrArg Except.ok ?_)⟩
  rw [reset, hboot]
  simp only [Except.toOption, Option.getD_some, hreload]

theorem intact_run (hb : build setup = .ok new) (cs : List Command) :
    Intact setup (new.run cs).2 := by
  obtain ⟨hle, rfl⟩ := eq_fresh_of_build hb
  obtain ⟨hfit, hshape, -⟩ := (imagesFit_fresh hle).run cs
  have hsetup : (run (fresh setup) cs).2.setup = setup := congrArg Shape.setup hshape
  have hsize : (run (fresh setup) cs).2.memory.size = setup.model.memorySize :=
    (congrArg Shape.memorySize hshape).trans (size_fresh setup)
  have hprogram := hfit.program_lt
  rw [entry, model, hsetup, hsize] at hprogram
  have hdepth : (run (fresh setup) cs).2.registers.depth =
      UInt16.ofNat setup.model.stackCapacity := congrArg Shape.stackDepth hshape
  have hcapacity := setup.model.stackCapacity_lt
  refine ⟨hsetup, hle, hprogram, hsize, ?_, ?_, hfit.start_boots, hfit.reset_reloads⟩
  · exact (congrArg Shape.stackCapacity hshape).trans Array.size_replicate
  · rw [hdepth]
    exact UInt16.toNat_ofNat_of_lt (Nat.lt_succ_of_lt hcapacity)

/-- A machine is built exactly if its boot image fits, and all that it loads later fits too. -/
theorem images_fit_after_build (setup : Setup) :
    ((∃ new, build setup = .ok new) ↔ setup.validate = .ok ()) ∧
    (setup.validate = .ok () ↔ setup.bootBytes.length ≤ setup.model.entry.toNat) ∧
    (∀ e, build setup = .error e ↔ setup.validate = .error e) ∧
    (∀ e, setup.validate = .error e ↔ setup.model.entry.toNat < setup.bootBytes.length ∧
      e = .bootTooLarge setup.bootBytes.length setup.model.entry.toNat) ∧
    (∀ bytes, setup.boot = .image bytes →
      ((∃ new, build setup = .ok new) ↔ bytes.length ≤ setup.model.entry.toNat) ∧
      ∀ e, build setup = .error e ↔ setup.model.entry.toNat < bytes.length ∧
        e = .bootTooLarge bytes.length setup.model.entry.toNat) ∧
    ((∀ bytes, setup.boot ≠ .image bytes) → ∃ new, build setup = .ok new) ∧
    (∀ memory : Memory, memory.size = setup.model.memorySize →
      (memory.loadBoot setup.bootBytes setup.model.entry).map (fun _ => ()) = setup.validate) ∧
    ∀ new, build setup = .ok new → ∀ cs, Intact setup (new.run cs).2 := by
  refine ⟨exists_build_iff, Setup.validate_eq_ok_iff, ?_, ?_, ?_, ?_, ?_, ?_⟩
  · intro e
    exact build_eq_error_iff
  · intro e
    exact Setup.validate_eq_error_iff
  · intro bytes hb
    rw [← Setup.bootBytes_of_image hb]
    refine ⟨exists_build_iff_le, fun e => ?_⟩
    exact build_eq_error_iff.trans Setup.validate_eq_error_iff
  · intro hb
    exact exists_build_iff_le.2 (Setup.length_bootBytes_le hb)
  · intro memory h
    exact Setup.loadBoot_eq_validate h
  · intro new hb cs
    exact intact_run hb cs

end Machine
end ChipFamily
