import ChipFamily.Proofs.Machine.Images

namespace ChipFamily.Machine

/-- The image accepted last. A program that is refused leaves it, and a failed start leaves none. -/
def Command.lastImage (last : Option (List UInt8)) : Command → Answer → Option (List UInt8)
  | .loadProgram image, .loaded (.ok _) => some image
  | .start file, .started true => file.contents.toOption
  | .start _, .started false => none
  | _, _ => last

def lastImage (last : Option (List UInt8)) : List Command → List Answer → Option (List UInt8)
  | c :: cs, answer :: answers => lastImage (c.lastImage last answer) cs answers
  | _, _ => last

variable {m : Machine}

/-- A command keeps the images fitting, and stores just the image that it accepts. -/
structure Keeps (m : Machine) (c : Command) : Prop where
  fit : (m.perform c).2.ImagesFit
  shape : (m.perform c).2.shape = m.shape
  program : (m.perform c).2.program = c.lastImage m.program (m.perform c).1

theorem ImagesFit.keeps_loadProgram (h : m.ImagesFit) (image : List UInt8) :
    m.Keeps (.loadProgram image) := by
  by_cases hl : m.entry.toNat + image.length < m.memory.size
  · have hs : shape { m with
        memory := m.memory.place m.entry.toNat image
        program := some image } = m.shape := by
      simp only [Machine.shape, Memory.size_place]
    refine ⟨?_, ?_, ?_⟩ <;> rw [perform, loadProgram_of_lt hl]
    · exact h.of_some hs rfl hl
    · exact hs
    · rfl
  · refine ⟨?_, ?_, ?_⟩ <;> rw [perform, loadProgram_of_not_lt hl]
    · exact h
    · rfl
    · rfl

theorem ImagesFit.keeps_of_failed (h : m.ImagesFit) {file : File}
    (hf : m.start file = (false, { m with memory := m.bootMemory, program := none })) :
    m.Keeps (.start file) := by
  have hs : shape { m with memory := m.bootMemory, program := none } = m.shape := by
    simp only [Machine.shape, size_bootMemory]
  refine ⟨?_, ?_, ?_⟩ <;> rw [perform, hf]
  · exact h.of_none hs rfl
  · exact hs
  · rfl

theorem ImagesFit.keeps_start (h : m.ImagesFit) (file : File) : m.Keeps (.start file) := by
  cases hc : file.contents with
  | error cause => exact h.keeps_of_failed (h.start_of_unreadable hc)
  | ok image =>
    by_cases hl : m.entry.toNat + image.length < m.memory.size
    · have hs : shape { m with
          memory := m.bootMemory.place m.entry.toNat image
          program := some image } = m.shape := by
        simp only [Machine.shape, Memory.size_place, size_bootMemory]
      refine ⟨?_, ?_, ?_⟩ <;> rw [perform, h.start_of_lt hc hl]
      · exact h.of_some hs rfl hl
      · exact hs
      · change some image = file.contents.toOption
        rw [hc]
        rfl
    · exact h.keeps_of_failed (h.start_of_too_large hc hl)

theorem ImagesFit.keeps (h : m.ImagesFit) (c : Command) : m.Keeps c := by
  cases c with
  | read | fetch | checkedFetch | query => exact ⟨h, rfl, rfl⟩
  | write start block =>
    have hs := m.shape_write start block
    exact ⟨h.of_kept hs rfl, hs, rfl⟩
  | copy src dst n =>
    have hs := m.shape_copy src dst n
    have hp : (m.copy src dst n).2.program = m.program := m.program_keep _
    exact ⟨h.of_kept hs hp, hs, hp⟩
  | clear start n =>
    have hs := m.shape_clear start n
    have hp : (m.clear start n).2.program = m.program := m.program_keep _
    exact ⟨h.of_kept hs hp, hs, hp⟩
  | push address =>
    have hs := m.shape_push address
    exact ⟨h.of_kept hs rfl, hs, rfl⟩
  | pop =>
    have hs := m.shape_pop
    exact ⟨h.of_kept hs rfl, hs, rfl⟩
  | loadProgram image => exact h.keeps_loadProgram image
  | start file => exact h.keeps_start file
  | reset =>
    have hs := h.shape_reset
    have hp : m.reset.program = m.program := by rw [h.reset_eq]
    exact ⟨h.of_kept hs hp, hs, hp⟩
  | takeTrap | enterTrap | setCounter | setPointer =>
    exact ⟨h.of_kept rfl rfl, rfl, rfl⟩

theorem ImagesFit.run (h : m.ImagesFit) (cs : List Command) :
    (m.run cs).2.ImagesFit ∧ (m.run cs).2.shape = m.shape ∧
      (m.run cs).2.program = lastImage m.program cs (m.run cs).1 := by
  induction cs generalizing m with
  | nil => exact ⟨h, rfl, rfl⟩
  | cons c cs ih =>
    obtain ⟨hc, hs, hp⟩ := h.keeps c
    obtain ⟨hcs, hss, hps⟩ := ih hc
    simp only [Machine.run, lastImage]
    exact ⟨hcs, hss.trans hs, hps.trans (by rw [hp])⟩

theorem cleared_eq_fresh {setup : Setup} (hs : m.shape = (fresh setup).shape) :
    m.registers.reset m.entry = (fresh setup).registers ∧
      m.stack.clear = (fresh setup).stack ∧ m.bootMemory = (fresh setup).memory := by
  have hsetup : m.setup = setup := congrArg Shape.setup hs
  have hsize : m.memory.size = setup.model.memorySize :=
    (congrArg Shape.memorySize hs).trans (size_fresh setup)
  have hcapacity : m.stack.capacity = setup.model.stackCapacity :=
    (congrArg Shape.stackCapacity hs).trans Array.size_replicate
  have hdepth : m.registers.depth = UInt16.ofNat setup.model.stackCapacity :=
    congrArg Shape.stackDepth hs
  refine ⟨?_, ?_, ?_⟩
  · rw [Registers.reset, hdepth, entry, model, hsetup]
    rfl
  · exact ReturnStack.clear_eq_blank setup.model.stackCapacity_pos setup.model.stackCapacity_lt
      hcapacity
  · rw [bootMemory, Memory.wipe_eq_blank setup.model.memorySize_pos setup.model.memorySize_le hsize,
      hsetup]
    rfl

theorem ImagesFit.reset_of_none {setup : Setup} (h : m.ImagesFit)
    (hs : m.shape = (fresh setup).shape) (hp : m.program = none) : m.reset = fresh setup := by
  have hsetup : m.setup = setup := congrArg Shape.setup hs
  obtain ⟨hregisters, hstack, hboot⟩ := cleared_eq_fresh hs
  rw [h.reset_eq, hregisters, hstack, imageMemory, hp, hsetup]
  simp only [hboot]
  rfl

theorem ImagesFit.reset_of_some {setup : Setup} {image : List UInt8} (h : m.ImagesFit)
    (hs : m.shape = (fresh setup).shape) (hp : m.program = some image) :
    (fresh setup).loadProgram image = (.ok image.length, m.reset) := by
  have hsetup : m.setup = setup := congrArg Shape.setup hs
  obtain ⟨hregisters, hstack, hboot⟩ := cleared_eq_fresh hs
  have hentry : m.entry = (fresh setup).entry := by rw [entry, model, hsetup]; rfl
  have hl := h.program_lt image hp
  rw [← size_bootMemory, hboot, hentry] at hl
  rw [loadProgram_of_lt hl, h.reset_eq, hregisters, hstack, imageMemory, hp, hsetup]
  simp only [hboot, hentry]
  rfl

/-- After any run a reset gives the fresh machine, with the program that was accepted last. -/
theorem reset_run {setup : Setup} {new : Machine} (hb : build setup = .ok new)
    (cs : List Command) :
    match lastImage none cs (new.run cs).1 with
    | none => (new.run cs).2.reset = new
    | some image => new.loadProgram image = (.ok image.length, (new.run cs).2.reset) := by
  obtain ⟨hle, rfl⟩ := eq_fresh_of_build hb
  obtain ⟨hfit, hs, hp⟩ := (imagesFit_fresh hle).run cs
  split
  · rename_i hlast
    exact hfit.reset_of_none hs (hp.trans hlast)
  · rename_i image hlast
    exact hfit.reset_of_some hs (hp.trans hlast)

theorem reset_run_program :
    ∃ new, build {} = .ok new ∧
      new.loadProgram [0x00, 0xE0] = (.ok 2,
        (new.run [.loadProgram [0x00, 0xE0], .setCounter 0x300, .push 0x302]).2.reset) := by
  have hb : build {} = .ok (fresh {}) := build_of_le (by decide)
  have hl : (fresh {}).entry.toNat + [(0x00 : UInt8), 0xE0].length < (fresh {}).memory.size := by
    rw [size_fresh]
    decide
  generalize fresh {} = new at hb hl
  have hlast : lastImage none [.loadProgram [0x00, 0xE0], .setCounter 0x300, .push 0x302]
      (new.run [.loadProgram [0x00, 0xE0], .setCounter 0x300, .push 0x302]).1 =
        some [0x00, 0xE0] := by
    simp only [run, perform, loadProgram_of_lt hl]
    rfl
  have h := reset_run hb [.loadProgram [0x00, 0xE0], .setCounter 0x300, .push 0x302]
  rw [hlast] at h
  exact ⟨new, hb, h⟩

end ChipFamily.Machine
