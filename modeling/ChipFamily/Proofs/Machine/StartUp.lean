import ChipFamily.Proofs.Machine.Reset
import ChipFamily.Proofs.Memory.LastWriter

namespace ChipFamily

/-- The byte at a place, of the boot image at the bottom, of the program at the entry, or zero. -/
def startUpByte (boot : List UInt8) (entry : Nat) (program : List UInt8) (k : Nat) : UInt8 :=
  if k < boot.length then boot.getD k 0
  else if entry ≤ k ∧ k < entry + program.length then program.getD (k - entry) 0
  else 0

theorem Setup.length_bootBytes_font (model : Model) :
    (Setup.mk model .font).bootBytes.length ≤ model.entry.toNat := by
  cases model <;>
    simp only [bootBytes, Model.hasLargeFont, List.length_append, Font.length_small,
      Font.length_large, if_true, Bool.false_eq_true, if_false] <;> decide

namespace Machine

/-- What a machine can become by commands and by any change of its registers. -/
inductive Reachable (setup : Setup) : Machine → Prop where
  | built {m : Machine} (h : build setup = .ok m) : Reachable setup m
  | performed {m : Machine} (h : Reachable setup m) (c : Command) : Reachable setup (m.perform c).2
  | changed {m : Machine} (h : Reachable setup m) (registers : Registers) :
      Reachable setup { m with registers }

/-- A machine started from `m`: new memory with or without a program, and all else from `m`. -/
structure StartedFrom (setup : Setup) (m : Machine) (program : Option (List UInt8))
    (after : Machine) : Prop where
  memorySize : after.memory.size = setup.model.memorySize
  memory : after.memory.Holds
    (startUpByte setup.bootBytes setup.model.entry.toNat (program.getD []))
  program : after.program = program
  registers : after.registers = m.registers
  stack : after.stack = m.stack
  setup : after.setup = setup

variable {setup : Setup} {m : Machine} {file : File} {image : List UInt8}

theorem Reachable.kept (h : Reachable setup m) :
    m.ImagesFit ∧ m.setup = setup ∧ m.memory.size = setup.model.memorySize := by
  induction h with
  | built hb =>
    obtain ⟨hle, rfl⟩ := eq_fresh_of_build hb
    exact ⟨imagesFit_fresh hle, rfl, size_fresh setup⟩
  | performed _ c ih =>
    obtain ⟨hfit, hsetup, hsize⟩ := ih
    have hc := hfit.keeps c
    exact ⟨hc.fit, (congrArg Shape.setup hc.shape).trans hsetup,
      (congrArg Shape.memorySize hc.shape).trans hsize⟩
  | changed _ registers ih =>
    obtain ⟨hfit, hsetup, hsize⟩ := ih
    exact ⟨⟨hfit.boot_le, hfit.entry_lt, hfit.program_lt⟩, hsetup, hsize⟩

theorem ImagesFit.bootMemory_holds (h : m.ImagesFit) :
    m.bootMemory.Holds (startUpByte m.setup.bootBytes m.entry.toNat []) := by
  have hle : 0 + m.setup.bootBytes.length ≤ m.memory.wipe.size := by
    have hb := h.boot_le
    have he := h.entry_lt
    rw [Memory.size_wipe]
    omega
  have hblank := Memory.holds_blank m.memory.size m.memory.size_pos m.memory.size_le
  refine (hblank.place (.inr hle)).congr fun k => ?_
  have hempty : ¬ (m.entry.toNat ≤ k ∧ k < m.entry.toNat + ([] : List UInt8).length) := by
    rw [List.length_nil]
    omega
  simp only [startUpByte, if_neg hempty, Nat.zero_le, true_and, Nat.zero_add, Nat.sub_zero]

theorem ImagesFit.program_holds (h : m.ImagesFit)
    (hl : m.entry.toNat + image.length < m.memory.size) :
    (m.bootMemory.place m.entry.toNat image).Holds
      (startUpByte m.setup.bootBytes m.entry.toNat image) := by
  rw [← m.size_bootMemory] at hl
  refine (h.bootMemory_holds.place (Memory.inside_of_lt hl)).congr fun k => ?_
  -- The boot image ends below the entry point, so no place lies in both images.
  have hb := h.boot_le
  have hempty : ¬ (m.entry.toNat ≤ k ∧ k < m.entry.toNat + ([] : List UInt8).length) := by
    rw [List.length_nil]
    omega
  simp only [startUpByte, if_neg hempty]
  by_cases hk : k < m.setup.bootBytes.length
  · rw [if_neg (by omega), if_pos hk, if_pos hk]
  · rw [if_neg hk, if_neg hk]

theorem Reachable.started_of_lt (h : Reachable setup m) (hc : file.contents = .ok image)
    (hl : setup.model.entry.toNat + image.length < setup.model.memorySize) :
    (m.start file).1 = true ∧ StartedFrom setup m (some image) (m.start file).2 := by
  obtain ⟨hfit, rfl, hsize⟩ := h.kept
  have hm : m.entry.toNat + image.length < m.memory.size := hsize ▸ hl
  rw [hfit.start_of_lt hc hm]
  refine ⟨rfl, ?_, hfit.program_holds hm, rfl, rfl, rfl, rfl⟩
  rw [Memory.size_place, size_bootMemory, hsize]

theorem ImagesFit.start_of_not_lt (h : m.ImagesFit)
    (hf : ∀ image, file.contents = .ok image →
      ¬ m.entry.toNat + image.length < m.memory.size) :
    m.start file = (false, { m with memory := m.bootMemory, program := none }) := by
  cases hc : file.contents with
  | error cause => exact h.start_of_unreadable hc
  | ok image => exact h.start_of_too_large hc (hf image hc)

theorem Reachable.start_failed (h : Reachable setup m)
    (hf : ∀ image, file.contents = .ok image →
      ¬ setup.model.entry.toNat + image.length < setup.model.memorySize) :
    (m.start file).1 = false ∧ StartedFrom setup m none (m.start file).2 := by
  obtain ⟨hfit, rfl, hsize⟩ := h.kept
  rw [hfit.start_of_not_lt (hsize ▸ hf)]
  exact ⟨rfl, m.size_bootMemory.trans hsize, hfit.bootMemory_holds, rfl, rfl, rfl, rfl⟩

/-- A start loads the boot image and then the program into cleared memory. -/
theorem Reachable.start_eq_loadProgram (h : Reachable setup m) (hc : file.contents = .ok image)
    (hl : setup.model.entry.toNat + image.length < setup.model.memorySize) :
    ∃ booted, writeBoot { m with memory := m.memory.wipe } = .ok booted ∧
      booted.loadProgram image = (.ok image.length, (m.start file).2) := by
  obtain ⟨hfit, rfl, hsize⟩ := h.kept
  have hm : m.entry.toNat + image.length < m.memory.size := hsize ▸ hl
  refine ⟨{ m with memory := m.bootMemory }, hfit.writeBoot_wiped .., ?_⟩
  rw [hfit.start_of_lt hc hm]
  exact loadProgram_of_lt (m.size_bootMemory.symm ▸ hm)

/-- From every state a start succeeds exactly with a readable file that fits. -/
theorem Reachable.start_iff_fits (h : Reachable setup m) (file : File) :
    ((m.start file).1 = true ↔ ∃ image, file.contents = .ok image ∧
      setup.model.entry.toNat + image.length < setup.model.memorySize) ∧
    ((m.start file).1 = true → ∃ image, file.contents = .ok image ∧
      StartedFrom setup m (some image) (m.start file).2 ∧
      ∃ booted, writeBoot { m with memory := m.memory.wipe } = .ok booted ∧
        booted.loadProgram image = (.ok image.length, (m.start file).2)) ∧
    ((m.start file).1 = false → StartedFrom setup m none (m.start file).2) := by
  by_cases hfits : ∃ image, file.contents = .ok image ∧
      setup.model.entry.toNat + image.length < setup.model.memorySize
  · obtain ⟨image, hc, hl⟩ := hfits
    obtain ⟨hloaded, hafter⟩ := h.started_of_lt hc hl
    refine ⟨⟨fun _ => ⟨image, hc, hl⟩, fun _ => hloaded⟩, ?_, ?_⟩
    · intro _
      exact ⟨image, hc, hafter, h.start_eq_loadProgram hc hl⟩
    · intro hfailed
      cases hloaded.symm.trans hfailed
  · obtain ⟨hfailed, hafter⟩ := h.start_failed fun image hc hl => hfits ⟨image, hc, hl⟩
    refine ⟨⟨fun hloaded => ?_, fun hfits' => absurd hfits' hfits⟩, ?_, fun _ => hafter⟩
    · cases hfailed.symm.trans hloaded
    · intro hloaded
      cases hfailed.symm.trans hloaded

/-- The longest program of a machine with 64K, started over a longer history. -/
theorem start_up_to_last_byte :
    ∃ m, Reachable ⟨.xoChip, .font⟩ m ∧ m.program = some [1, 2, 3] ∧
      let started := m.start ⟨"rom", .ok (List.replicate 65023 0x6A)⟩
      started.1 = true ∧ started.2.program = some (List.replicate 65023 0x6A) ∧
        started.2.memory.bytes[0xFFFE]? = some 0x6A ∧ started.2.memory.bytes[0xFFFF]? = some 0 := by
  have hboot : (Setup.mk .xoChip .font).bootBytes.length ≤ 512 := Setup.length_bootBytes_font _
  have hb : build ⟨.xoChip, .font⟩ = .ok (fresh ⟨.xoChip, .font⟩) := build_of_le hboot
  have hl : (fresh ⟨.xoChip, .font⟩).entry.toNat + [(1 : UInt8), 2, 3].length <
      (fresh ⟨.xoChip, .font⟩).memory.size := by
    rw [size_fresh]
    decide
  generalize fresh ⟨.xoChip, .font⟩ = new at hb hl
  have hm := (Reachable.built hb).performed (.loadProgram [1, 2, 3])
  have hp : (new.perform (.loadProgram [1, 2, 3])).2.program = some [1, 2, 3] := by
    rw [perform, loadProgram_of_lt hl]
    rfl
  refine ⟨_, hm, hp, ?_⟩
  have hlength : (List.replicate 65023 (0x6A : UInt8)).length = 65023 := List.length_replicate
  have hlast : (List.replicate 65023 (0x6A : UInt8))[65022]? = some 0x6A :=
    List.getElem?_replicate_of_lt (by omega)
  generalize List.replicate 65023 (0x6A : UInt8) = image at hlength hlast
  obtain ⟨hiff, hloaded, -⟩ := hm.start_iff_fits ⟨"rom", .ok image⟩
  have hstarted := hiff.2 ⟨image, rfl, by rw [hlength]; decide⟩
  obtain ⟨image', hc, hafter, -⟩ := hloaded hstarted
  obtain rfl : image = image' := Except.ok.inj hc
  have hentry : (Setup.mk .xoChip .font).model.entry.toNat = 512 := rfl
  refine ⟨hstarted, hafter.program, ?_, ?_⟩
  · rw [hafter.memory 0xFFFE (by rw [hafter.memorySize]; decide), Option.getD_some, startUpByte,
      if_neg (by omega), if_pos (by omega), hentry, List.getD_eq_getElem?_getD, hlast]
    rfl
  · rw [hafter.memory 0xFFFF (by rw [hafter.memorySize]; decide), Option.getD_some, startUpByte,
      if_neg (by omega), if_neg (by omega)]

/-- A fresh machine with a program loaded, or without one. -/
def startUp (setup : Setup) : Option (List UInt8) → Machine
  | none => fresh setup
  | some image => ((fresh setup).loadProgram image).2

theorem bootMemory_fresh (setup : Setup) : (fresh setup).bootMemory = (fresh setup).memory :=
  (cleared_eq_fresh rfl).2.2

end Machine

/-- The image of a file, if it can be read and leaves a byte of memory free above it. -/
def Model.loadable (model : Model) (file : File) : Option (List UInt8) :=
  file.contents.toOption.filter fun image => image.length < model.memorySize - model.entry.toNat

theorem Model.loadable_eq_some_iff {model : Model} {file : File} {image : List UInt8} :
    model.loadable file = some image ↔
      file.contents = .ok image ∧ model.entry.toNat + image.length < model.memorySize := by
  have hlt : image.length < model.memorySize - model.entry.toNat ↔
      model.entry.toNat + image.length < model.memorySize := by omega
  rw [loadable, Option.filter_eq_some_iff, decide_eq_true_iff, hlt]
  cases file.contents <;> simp [Except.toOption]

theorem Machine.start_fresh {setup : Setup}
    (hle : setup.bootBytes.length ≤ setup.model.entry.toNat) (file : File) :
    (fresh setup).start file =
      ((setup.model.loadable file).isSome, startUp setup (setup.model.loadable file)) := by
  have hfit := imagesFit_fresh hle
  have hsize := size_fresh setup
  cases hp : setup.model.loadable file with
  | none =>
    have hf (image) (hc : file.contents = .ok image) :
        ¬ (fresh setup).entry.toNat + image.length < (fresh setup).memory.size := by
      intro hlt
      rw [hsize] at hlt
      cases hp.symm.trans (Model.loadable_eq_some_iff.2 ⟨hc, hlt⟩)
    rw [hfit.start_of_not_lt hf, bootMemory_fresh]
    rfl
  | some image =>
    obtain ⟨hc, hl⟩ := Model.loadable_eq_some_iff.1 hp
    have hm : (fresh setup).entry.toNat + image.length < (fresh setup).memory.size := by
      rw [hsize]
      exact hl
    rw [hfit.start_of_lt hc hm, startUp, loadProgram_of_lt hm, bootMemory_fresh]
    rfl

end ChipFamily
