import ChipFamily.Proofs.Machine.Images
import ChipFamily.Proofs.ReturnStack.Mirrors

namespace ChipFamily

/-- A row in which two others are merged, each in its own order. -/
inductive Interleaving {α : Type} : List α → List α → List α → Prop where
  | nil : Interleaving [] [] []
  | left {x : α} {xs ys zs : List α} (h : Interleaving xs ys zs) :
      Interleaving (x :: xs) ys (x :: zs)
  | right {y : α} {xs ys zs : List α} (h : Interleaving xs ys zs) :
      Interleaving xs (y :: ys) (y :: zs)

namespace Registers

/-- The stack pointer and its limit of some registers, and all else of others. -/
def join (ofStack ofMemory : Registers) : Registers :=
  { ofMemory with pointer := ofStack.pointer, depth := ofStack.depth }

theorem mirrors_join (k : Registers) :
    Processor.Mirrors (fun r : Registers => r.join k) where
  pointer _ := rfl
  raise r := by
    simp only [processor_raise, raise, join]
    split <;> rfl
  lower r := by
    simp only [processor_lower, lower, join]
    split <;> rfl

end Registers

namespace Machine

inductive Side where
  | stack
  | memory
  deriving DecidableEq, Repr

/-- The part of the machine that a command is about. A reset and a query are about both. -/
def Command.side? : Command → Option Side
  | .push _ | .pop | .setPointer _ => some .stack
  | .read .. | .write .. | .copy .. | .clear .. | .fetch | .checkedFetch | .loadProgram _
  | .start _ | .takeTrap | .enterTrap _ | .setCounter _ => some .memory
  | .reset | .query _ => none

/-- The stack side of a machine, and the memory side of another. -/
def join (ofStack ofMemory : Machine) : Machine :=
  { ofMemory with
    stack := ofStack.stack
    registers := ofStack.registers.join ofMemory.registers }

theorem join_self (m : Machine) : m.join m = m := rfl

variable (s k : Machine) {c : Command}

theorem perform_join_of_stack (hc : c.side? = some .stack) :
    (s.join k).perform c = ((s.perform c).1, (s.perform c).2.join k) := by
  have hjoin := Registers.mirrors_join k.registers
  cases c with
  | push address =>
    have hpush := ReturnStack.push_mirror hjoin s.stack s.registers address
    simp only [perform, push, join]
    rw [hpush]
    rfl
  | pop =>
    have hpop := ReturnStack.pop_mirror hjoin s.stack s.registers
    simp only [perform, pop, join]
    rw [hpop]
    rfl
  | setPointer pointer => rfl
  | _ => cases hc

theorem keep_join (result : Except RangeError Memory) :
    (s.join k).keep result = ((k.keep result).1, s.join (k.keep result).2) := by
  cases result <;> rfl

theorem write_join (start : Address) (block : List UInt8) :
    (s.join k).write start block = s.join (k.write start block) := by
  by_cases h : Memory.Inside k.memory.size start block.length
  · simp only [write, join]
    rw [Memory.write_of_inside _ h, Memory.write_of_inside _ h]
  · simp only [write, join]
    rw [Memory.write_of_not_inside _ h, Memory.write_of_not_inside _ h]
    rfl

theorem loadProgram_join (image : List UInt8) :
    (s.join k).loadProgram image =
      ((k.loadProgram image).1, s.join (k.loadProgram image).2) := by
  simp only [loadProgram, entry, model, join]
  split <;> rfl

theorem start_join (file : File) :
    (s.join k).start file = ((k.start file).1, s.join (k.start file).2) := by
  simp only [start, writeBoot, entry, model, join]
  cases k.memory.wipe.loadBoot k.setup.bootBytes k.setup.model.entry with
  | error e => rfl
  | ok booted =>
    simp only [pure, Except.pure, bind, Except.bind]
    cases booted.loadFile k.setup.model.entry file with
    | error e => rfl
    | ok loaded => rfl

theorem perform_join_of_memory (hc : c.side? = some .memory) :
    (s.join k).perform c = ((k.perform c).1, s.join (k.perform c).2) := by
  cases c with
  | read | fetch | checkedFetch | takeTrap | enterTrap | setCounter => rfl
  | write start block => exact congrArg (Prod.mk Answer.done) (s.write_join k start block)
  | copy src dst n => exact congrArg (Prod.map Answer.ranged id) (s.keep_join k _)
  | clear start n => exact congrArg (Prod.map Answer.ranged id) (s.keep_join k _)
  | loadProgram image => exact congrArg (Prod.map Answer.loaded id) (s.loadProgram_join k image)
  | start file => exact congrArg (Prod.map Answer.started id) (s.start_join k file)
  | _ => cases hc

/-- The commands of a run that are about one side, each with its answer. -/
def sideLog (m : Machine) (side : Side) (cs : List Command) : List (Command × Answer) :=
  (cs.zip (m.run cs).1).filter fun entry => entry.1.side? = some side

theorem sideLog_cons_of_eq {side : Side} (m : Machine) (cs : List Command)
    (hc : c.side? = some side) :
    m.sideLog side (c :: cs) = (c, (m.perform c).1) :: (m.perform c).2.sideLog side cs := by
  rw [sideLog, run, List.zip_cons_cons, List.filter_cons_of_pos (by simpa using hc)]
  rfl

theorem sideLog_cons_of_ne {side : Side} (m : Machine) (cs : List Command)
    (hc : c.side? ≠ some side) :
    m.sideLog side (c :: cs) = (m.perform c).2.sideLog side cs := by
  rw [sideLog, run, List.zip_cons_cons, List.filter_cons_of_neg (by simpa using hc)]
  rfl

/-- In a merged run each side goes its own way, as if the commands of the other were not there. -/
theorem run_join {S M cs : List Command} (h : Interleaving S M cs)
    (hS : ∀ c ∈ S, c.side? = some .stack) (hM : ∀ c ∈ M, c.side? = some .memory) :
    ((s.join k).run cs).2 = (s.run S).2.join (k.run M).2 ∧
      (s.join k).sideLog .stack cs = s.sideLog .stack S ∧
      (s.join k).sideLog .memory cs = k.sideLog .memory M := by
  -- A step of the merging moves one of the two machines, and either may be the next to move.
  induction h generalizing s k with
  | nil => exact ⟨rfl, rfl, rfl⟩
  | @left c S M cs _ ih =>
    have hc : c.side? = some .stack := hS c List.mem_cons_self
    have hne : c.side? ≠ some .memory := by
      rw [hc]
      decide
    have hstep := perform_join_of_stack s k hc
    obtain ⟨hend, hstack, hmemory⟩ :=
      ih (s.perform c).2 k (fun c hc => hS c (List.mem_cons_of_mem _ hc)) hM
    rw [sideLog_cons_of_eq _ _ hc, sideLog_cons_of_eq _ _ hc, sideLog_cons_of_ne _ _ hne, run,
      hstep]
    exact ⟨hend, congrArg _ hstack, hmemory⟩
  | @right c S M cs _ ih =>
    have hc : c.side? = some .memory := hM c List.mem_cons_self
    have hne : c.side? ≠ some .stack := by
      rw [hc]
      decide
    have hstep := perform_join_of_memory s k hc
    obtain ⟨hend, hstack, hmemory⟩ :=
      ih s (k.perform c).2 hS (fun c hc => hM c (List.mem_cons_of_mem _ hc))
    rw [sideLog_cons_of_eq _ _ hc, sideLog_cons_of_eq _ _ hc, sideLog_cons_of_ne _ _ hne, run,
      hstep]
    exact ⟨hend, hstack, congrArg _ hmemory⟩

/-- Commands about the stack and commands about memory do not see each other, however merged. -/
theorem run_interleaving (m : Machine) {S M cs cs' : List Command}
    (hS : ∀ c ∈ S, c.side? = some .stack) (hM : ∀ c ∈ M, c.side? = some .memory)
    (h : Interleaving S M cs) (h' : Interleaving S M cs') :
    (m.run cs).2 = (m.run cs').2 ∧ ∀ side, m.sideLog side cs = m.sideLog side cs' := by
  obtain ⟨hend, hstack, hmemory⟩ := run_join m m h hS hM
  obtain ⟨hend', hstack', hmemory'⟩ := run_join m m h' hS hM
  rw [join_self] at *
  refine ⟨hend.trans hend'.symm, ?_⟩
  intro side
  cases side with
  | stack => exact hstack.trans hstack'.symm
  | memory => exact hmemory.trans hmemory'.symm

/-- A pop from a stray pointer, between a write that traps and the taking of the trap. -/
theorem run_interleaving_stray_pop :
    (∀ c ∈ [Command.setPointer 0x30, .pop], c.side? = some .stack) ∧
    (∀ c ∈ [Command.setCounter 0x204, .write 0xFFF [1, 2], .takeTrap],
      c.side? = some .memory) ∧
    (fresh {}).sideLog .memory
        [.setPointer 0x30, .setCounter 0x204, .write 0xFFF [1, 2], .pop, .takeTrap] =
      [(.setCounter 0x204, .done), (.write 0xFFF [1, 2], .done),
        (.takeTrap, .trap (some ⟨.outOfBounds, 0x204⟩))] := by
  have hS : ∀ c ∈ [Command.setPointer 0x30, .pop], c.side? = some .stack := by decide
  have hM : ∀ c ∈ [Command.setCounter 0x204, .write 0xFFF [1, 2], .takeTrap],
      c.side? = some .memory := by decide
  have hout : ¬ Memory.Inside (fresh {}).memory.size 0xFFF [(1 : UInt8), 2].length := by
    rw [size_fresh]
    decide
  generalize fresh {} = m at hout
  have hwrite : (m.setCounter 0x204).write 0xFFF [1, 2] =
      (m.setCounter 0x204).enterTrap ⟨.outOfBounds, 0x204⟩ := by
    have hout' : ¬ Memory.Inside (m.setCounter 0x204).memory.size 0xFFF [(1 : UInt8), 2].length :=
      hout
    rw [write, Memory.write_of_not_inside _ hout']
    rfl
  have hmerged : Interleaving [Command.setPointer 0x30, .pop]
      [.setCounter 0x204, .write 0xFFF [1, 2], .takeTrap]
      [.setPointer 0x30, .setCounter 0x204, .write 0xFFF [1, 2], .pop, .takeTrap] :=
    .left (.right (.right (.left (.right .nil))))
  have happended : Interleaving [Command.setPointer 0x30, .pop]
      [.setCounter 0x204, .write 0xFFF [1, 2], .takeTrap]
      [.setCounter 0x204, .write 0xFFF [1, 2], .takeTrap, .setPointer 0x30, .pop] :=
    .right (.right (.right (.left (.left .nil))))
  refine ⟨hS, hM, ((run_interleaving m hS hM hmerged happended).2 .memory).trans ?_⟩
  simp only [sideLog, run, perform, hwrite]
  rfl

end Machine
end ChipFamily
