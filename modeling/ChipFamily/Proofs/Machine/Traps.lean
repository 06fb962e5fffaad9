import ChipFamily.Proofs.Except
import ChipFamily.Proofs.Machine.Images

namespace ChipFamily

/-- What a command did to the trap latch. -/
inductive TrapEvent where
  | entered (fault : Fault)
  | taken
  | cleared
  deriving DecidableEq

namespace TrapEvent

/-- How many traps were entered since the last reset. The latest event comes first. -/
def count : List TrapEvent → Nat
  | .entered _ :: log => count log + 1
  | .taken :: log => count log
  | .cleared :: _ | [] => 0

def latched : List TrapEvent → Option Fault
  | .entered fault :: _ => some fault
  | .taken :: _ | .cleared :: _ | [] => none

end TrapEvent

namespace Registers

/-- The latch and the count of traps, kept modulo the word, are those of a log. -/
structure Follow (r : Registers) (log : List TrapEvent) : Prop where
  traps : r.traps = UInt32.ofNat (TrapEvent.count log)
  pending : r.pending = TrapEvent.latched log

variable {r : Registers} {log : List TrapEvent}

theorem follow_powerOn (entry : Address) (depth : UInt16) : (powerOn entry depth).Follow [] :=
  ⟨rfl, rfl⟩

theorem Follow.enterTrap (h : r.Follow log) (fault : Fault) :
    (r.enterTrap fault).Follow (.entered fault :: log) := by
  refine ⟨?_, rfl⟩
  rw [TrapEvent.count, UInt32.ofNat_add, ← h.traps]
  rfl

theorem Follow.takeTrap (h : r.Follow log) : r.takeTrap.2.Follow (.taken :: log) :=
  ⟨h.traps, rfl⟩

theorem Follow.reset (r : Registers) (entry : Address) (log : List TrapEvent) :
    (r.reset entry).Follow (.cleared :: log) :=
  ⟨rfl, rfl⟩

theorem Follow.moved (h : r.Follow log) {counter : Address} {pointer : StackPointer} :
    Follow { r with counter, pointer } log :=
  ⟨h.traps, h.pending⟩

end Registers

namespace Machine

variable {m : Machine}

theorem registers_of_writeBoot {m' : Machine} (h : m.writeBoot = .ok m') :
    m'.registers = m.registers := by
  obtain ⟨memory, -, hm⟩ := exists_of_bind_eq_ok h
  cases hm
  rfl

theorem registers_of_reload {m' : Machine} (h : m.reload = .ok m') :
    m'.registers = m.registers := by
  rw [reload] at h
  split at h
  · cases h
    rfl
  · obtain ⟨loaded, -, hm⟩ := exists_of_bind_eq_ok h
    cases hm
    rfl

theorem registers_getD {ε : Type} {result : Except ε Machine}
    (h : ∀ m', result = .ok m' → m'.registers = m.registers) :
    (result.toOption.getD m).registers = m.registers := by
  cases result with
  | error e => rfl
  | ok m' => exact h m' rfl

theorem registers_keep (m : Machine) (result : Except RangeError Memory) :
    (m.keep result).2.registers = m.registers := by
  cases result <;> rfl

theorem registers_loadProgram (m : Machine) (image : List UInt8) :
    (m.loadProgram image).2.registers = m.registers := by
  rw [loadProgram]
  split <;> rfl

theorem registers_start (m : Machine) (file : File) :
    (m.start file).2.registers = m.registers := by
  rw [start]
  split
  · rfl
  · rename_i booted hw
    have hr := registers_of_writeBoot hw
    split
    · exact hr
    · exact hr

theorem registers_reset (m : Machine) : m.reset.registers = m.registers.reset m.entry := by
  rw [reset, registers_getD fun _ => registers_of_reload,
    registers_getD fun _ => registers_of_writeBoot]

theorem registers_push (m : Machine) (address : Address) :
    ∃ pointer, (m.push address).2.registers = { m.registers with pointer } :=
  m.stack.exists_push m.registers address

theorem registers_pop (m : Machine) :
    ∃ pointer, m.pop.2.registers = { m.registers with pointer } :=
  m.stack.exists_pop m.registers

/-- Only a write can enter a trap by itself, and then does so once. -/
def trapEvent? (m : Machine) : Command → Option TrapEvent
  | .enterTrap fault => some (.entered fault)
  | .write start block =>
    if Memory.Inside m.memory.size start block.length then none
    else some (.entered ⟨.outOfBounds, m.registers.counter⟩)
  | .takeTrap => some .taken
  | .reset => some .cleared
  | _ => none

def trapLog (m : Machine) (log : List TrapEvent) : List Command → List TrapEvent
  | [] => log
  | c :: cs => (m.perform c).2.trapLog ((m.trapEvent? c).toList ++ log) cs

theorem trapEvent?_write_of_inside {start : Address} {block : List UInt8}
    (h : Memory.Inside m.memory.size start block.length) :
    m.trapEvent? (.write start block) = none :=
  if_pos h

theorem trapEvent?_write_of_not_inside {start : Address} {block : List UInt8}
    (h : ¬ Memory.Inside m.memory.size start block.length) :
    m.trapEvent? (.write start block) = some (.entered ⟨.outOfBounds, m.registers.counter⟩) :=
  if_neg h

theorem registers_perform {c : Command} (h : m.trapEvent? c = none) :
    ∃ counter pointer,
      (m.perform c).2.registers = { m.registers with counter, pointer } := by
  cases c with
  | read | fetch | checkedFetch | query | setCounter | setPointer => exact ⟨_, _, rfl⟩
  | write start block =>
    by_cases hi : Memory.Inside m.memory.size start block.length
    · refine ⟨m.registers.counter, m.registers.pointer, ?_⟩
      rw [perform, write, Memory.write_of_inside _ hi]
    · rw [trapEvent?_write_of_not_inside hi] at h
      cases h
  | copy src dst n => exact ⟨_, _, m.registers_keep _⟩
  | clear start n => exact ⟨_, _, m.registers_keep _⟩
  | push address =>
    obtain ⟨pointer, hp⟩ := m.registers_push address
    exact ⟨_, pointer, hp⟩
  | pop =>
    obtain ⟨pointer, hp⟩ := m.registers_pop
    exact ⟨_, pointer, hp⟩
  | loadProgram image => exact ⟨_, _, m.registers_loadProgram image⟩
  | start file => exact ⟨_, _, m.registers_start file⟩
  | takeTrap | enterTrap | reset => cases h

theorem follow_perform {log : List TrapEvent} (h : m.registers.Follow log) (c : Command) :
    (m.perform c).2.registers.Follow ((m.trapEvent? c).toList ++ log) := by
  cases he : m.trapEvent? c with
  | none =>
    obtain ⟨counter, pointer, hr⟩ := registers_perform he
    rw [hr]
    exact h.moved
  | some event =>
    cases c with
    | write start block =>
      by_cases hi : Memory.Inside m.memory.size start block.length
      · rw [trapEvent?_write_of_inside hi] at he
        cases he
      · rw [trapEvent?_write_of_not_inside hi] at he
        cases he
        rw [perform, write, Memory.write_of_not_inside _ hi, Registers.processor_counter,
          Registers.processor_enterTrap]
        exact h.enterTrap ⟨.outOfBounds, m.registers.counter⟩
    | takeTrap =>
      cases he
      exact h.takeTrap
    | enterTrap fault =>
      cases he
      exact h.enterTrap fault
    | reset =>
      cases he
      rw [perform, registers_reset]
      exact .reset m.registers m.entry log
    | _ => cases he

theorem follow_run {log : List TrapEvent} (h : m.registers.Follow log) (cs : List Command) :
    (m.run cs).2.registers.Follow (m.trapLog log cs) := by
  induction cs generalizing m log with
  | nil => exact h
  | cons c cs ih => exact ih (follow_perform h c)

/-- After any run the latch and the count are those of the logged events. -/
theorem run_traps {setup : Setup} {new : Machine} (hb : build setup = .ok new)
    (cs : List Command) :
    (TrapEvent.count (new.trapLog [] cs) < UInt32.size →
      (new.run cs).2.registers.traps.toNat = TrapEvent.count (new.trapLog [] cs)) ∧
    (new.run cs).2.registers.pending = TrapEvent.latched (new.trapLog [] cs) ∧
    ∀ c, (new.run cs).2.trapEvent? c = none →
      ((new.run cs).2.perform c).2.registers.traps = (new.run cs).2.registers.traps ∧
      ((new.run cs).2.perform c).2.registers.pending = (new.run cs).2.registers.pending := by
  obtain ⟨-, rfl⟩ := eq_fresh_of_build hb
  have hf := follow_run (m := fresh setup) (Registers.follow_powerOn _ _) cs
  refine ⟨?_, hf.pending, ?_⟩
  · intro hlt
    rw [hf.traps]
    exact UInt32.toNat_ofNat_of_lt hlt
  · intro c hc
    obtain ⟨counter, pointer, hr⟩ := registers_perform hc
    rw [hr]
    exact ⟨rfl, rfl⟩

/-- The empty write starts outside memory too, but only the other one traps. -/
theorem run_traps_write_past_end :
    ∃ new, build {} = .ok new ∧
      (new.run [.setCounter 0x204, .write 0xFFF [1, 2], .write 0xFFFF [], .pop]).2.registers.traps
        = 1 ∧
      (new.run [.setCounter 0x204, .write 0xFFF [1, 2], .write 0xFFFF [], .pop]).2.registers.pending
        = some ⟨.outOfBounds, 0x204⟩ := by
  have hb : build {} = .ok (fresh {}) := build_of_le (by decide)
  have hsize : (fresh {}).memory.size = 4096 := size_fresh {}
  generalize fresh {} = new at hb hsize
  have hlog : new.trapLog []
      [.setCounter 0x204, .write 0xFFF [1, 2], .write 0xFFFF [], .pop] =
        [.entered ⟨.outOfBounds, 0x204⟩] := by
    have hout : ¬ Memory.Inside new.memory.size 0xFFF [(1 : UInt8), 2].length := by
      rw [hsize]
      decide
    have hw : (new.setCounter 0x204).trapEvent? (.write 0xFFF [1, 2]) =
        some (.entered ⟨.outOfBounds, 0x204⟩) := trapEvent?_write_of_not_inside hout
    have hnil (m : Machine) : m.trapEvent? (.write 0xFFFF []) = none :=
      trapEvent?_write_of_inside (.inl rfl)
    simp only [trapLog, perform, hw, hnil]
    rfl
  have h := run_traps hb [.setCounter 0x204, .write 0xFFF [1, 2], .write 0xFFFF [], .pop]
  rw [hlog] at h
  refine ⟨new, hb, ?_, h.2.1⟩
  exact UInt32.toNat_inj.1 (h.1 (by decide))

end Machine
end ChipFamily
