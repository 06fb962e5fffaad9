import ChipFamily.Proofs.ReturnStack.OnRegisters

namespace ChipFamily

/-- A return stack with the register file that holds its pointer. -/
structure RegisterStack where
  stack : ReturnStack
  registers : Registers

namespace RegisterStack

inductive Command where
  | push (address : Address)
  | pop
  | clear
  | reset (entry : Address)
  deriving DecidableEq, Repr

inductive Answer where
  | done
  | pushed (result : Except StackError Unit)
  | popped (p : Popped)

def perform (f : RegisterStack) : Command → Answer × RegisterStack
  | .push address =>
    let (result, stack, registers) := f.stack.push f.registers address
    (.pushed result, ⟨stack, registers⟩)
  | .pop =>
    let (popped, registers) := f.stack.pop f.registers
    (.popped popped, { f with registers })
  | .clear => (.done, { f with stack := f.stack.clear })
  | .reset entry => (.done, { f with registers := f.registers.reset entry })

def run (f : RegisterStack) : List Command → List Answer × RegisterStack
  | [] => ([], f)
  | c :: cs =>
    let (answer, f) := f.perform c
    let (answers, f) := f.run cs
    (answer :: answers, f)

/-- What a command does to a list of at most `limit` addresses, the oldest first. -/
def Command.onList (limit : Nat) (list : List Address) : Command → Answer × List Address
  | .push address =>
    if list.length < limit then (.pushed (.ok ()), list ++ [address])
    else (.pushed (.error (.overflow address)), list)
  | .pop =>
    match list.getLast? with
    | some address => (.popped ⟨some address, false⟩, list.dropLast)
    | none => (.popped ⟨none, true⟩, list)
  | .clear => (.done, list.map fun _ => 0)
  | .reset _ => (.done, [])

def runOnList (limit : Nat) (list : List Address) : List Command → List Answer × List Address
  | [] => ([], list)
  | c :: cs =>
    let (answer, list) := c.onList limit list
    let (answers, list) := runOnList limit list cs
    (answer :: answers, list)

/-- All that can be seen of a stack agrees with a list of addresses. -/
structure Shows (f : RegisterStack) (list : List Address) : Prop where
  entries : f.stack.entries f.registers.pointer = list
  depth : f.registers.pointer.depth.toNat = list.length
  pointer_empty : list = [] → f.registers.pointer = .empty
  pointer_top : list ≠ [] → f.registers.pointer.toNat = list.length - 1

/-- The entries are within the bound that slots and registers set together. -/
structure Holds (limit : Nat) (f : RegisterStack) (list : List Address) : Prop where
  bound : min f.stack.capacity f.registers.depth.toNat = limit
  entries : f.stack.entries f.registers.pointer = list
  within : f.registers.pointer.depth.toNat ≤ limit

variable {limit : Nat} {f : RegisterStack} {list : List Address}

theorem Holds.depth_le_capacity (h : f.Holds limit list) :
    f.registers.pointer.depth.toNat ≤ f.stack.capacity := by
  have hb := h.bound
  have hw := h.within
  omega

theorem Holds.depth_eq (h : f.Holds limit list) :
    f.registers.pointer.depth.toNat = list.length := by
  rw [← h.entries, ReturnStack.entries, List.length_take, Array.length_toList]
  exact (Nat.min_eq_left h.depth_le_capacity).symm

theorem Holds.length_le (h : f.Holds limit list) : list.length ≤ limit :=
  h.depth_eq ▸ h.within

theorem Holds.pointer_empty (h : f.Holds limit []) : f.registers.pointer = .empty := by
  rw [← StackPointer.depth_eq_zero_iff]
  exact UInt16.toNat_inj.1 h.depth_eq

theorem Holds.pointer_top {address : Address} (h : f.Holds limit (list ++ [address])) :
    f.registers.pointer.toNat = list.length := by
  have hd := h.depth_eq
  rw [List.length_append, List.length_singleton] at hd
  have he : f.registers.pointer ≠ .empty := by
    intro he
    rw [StackPointer.depth_eq_zero_iff.2 he] at hd
    exact Nat.succ_ne_zero _ hd.symm
  rw [StackPointer.toNat_depth he] at hd
  exact Nat.succ.inj hd

theorem Holds.shows (h : f.Holds limit list) : f.Shows list where
  entries := h.entries
  depth := h.depth_eq
  pointer_empty he := by
    subst he
    exact h.pointer_empty
  pointer_top hne := by
    obtain ⟨front, address, rfl⟩ := (List.eq_nil_or_concat list).resolve_left hne
    rw [List.concat_eq_append] at h ⊢
    rw [h.pointer_top, List.length_append, List.length_singleton, Nat.add_sub_cancel]

theorem Holds.hasRoom_iff (h : f.Holds limit list) :
    f.stack.HasRoom f.registers ↔ list.length < limit := by
  rw [ReturnStack.HasRoom, UInt16.lt_iff_toNat_lt, h.depth_eq, ← h.bound, Nat.lt_min, and_comm]

theorem holds_powerOn (stack : ReturnStack) (entry : Address) (depth : UInt16) :
    Holds (min stack.capacity depth.toNat) ⟨stack, .powerOn entry depth⟩ [] where
  bound := rfl
  entries := by simp [ReturnStack.entries, Registers.powerOn, StackPointer.depth_eq_zero_iff.2]
  within := by simp [Registers.powerOn, StackPointer.depth_eq_zero_iff.2]

theorem Holds.push (h : f.Holds limit list) (hroom : list.length < limit) (address : Address) :
    ∃ g, f.perform (.push address) = (.pushed (.ok ()), g) ∧ g.Holds limit (list ++ [address]) := by
  have hr := h.hasRoom_iff.2 hroom
  have hd := StackPointer.toNat_depth (StackPointer.ne_empty_of_lt hr.1)
  refine ⟨⟨f.stack.store f.registers.pointer.depth.toNat address,
    { f.registers with pointer := f.registers.pointer.depth }⟩,
    by rw [perform, f.stack.push_of_room _ hr], ?_, ?_, ?_⟩
  · rw [← h.bound, ReturnStack.capacity_store]
  · rw [ReturnStack.entries_store_depth hr.2, h.entries]
  · rw [hd, h.depth_eq]
    exact hroom

theorem Holds.push_full (h : f.Holds limit list) (hfull : ¬ list.length < limit)
    (address : Address) :
    f.perform (.push address) = (.pushed (.error (.overflow address)), f) := by
  rw [perform, f.stack.push_of_no_room _ fun hr => hfull (h.hasRoom_iff.1 hr)]

theorem Holds.pop_empty (h : f.Holds limit []) :
    f.perform .pop = (.popped ⟨none, true⟩, f) := by
  rw [perform, f.stack.pop_of_empty _ h.pointer_empty]

theorem Holds.pop {address : Address} (h : f.Holds limit (list ++ [address])) :
    ∃ g, f.perform .pop = (.popped ⟨some address, false⟩, g) ∧ g.Holds limit list := by
  have htop := h.pointer_top
  have hle := h.depth_le_capacity
  have he := h.entries
  rw [h.depth_eq, List.length_append, List.length_singleton] at hle
  rw [ReturnStack.entries, h.depth_eq, List.length_append, List.length_singleton,
    List.take_add_one] at he
  have hlt : f.registers.pointer.toNat < f.stack.capacity := by
    rw [htop]
    exact hle
  have hget : f.stack.slots[list.length]? = some f.stack.slots[list.length] :=
    Array.getElem?_eq_getElem hle
  rw [Array.getElem?_toList, hget, Option.toList_some] at he
  -- The slots up to the top are the list, so the top one holds its last address.
  obtain ⟨hfront, hlast⟩ := List.append_inj' he rfl
  have hpop := f.stack.pop_of_lt _ hlt
  rw [ReturnStack.slot?, htop, hget, List.singleton_inj.1 hlast] at hpop
  refine ⟨⟨f.stack, { f.registers with pointer := f.registers.pointer - 1 }⟩,
    by rw [perform, hpop], h.bound, ?_, ?_⟩
  · rw [ReturnStack.entries, StackPointer.depth_pred, htop]
    exact hfront
  · rw [StackPointer.depth_pred, htop]
    have hlen := h.length_le
    rw [List.length_append] at hlen
    exact Nat.le_of_add_right_le hlen

theorem Holds.clear (h : f.Holds limit list) :
    Holds limit (f.perform .clear).2 (list.map fun _ => 0) where
  bound := by
    rw [← h.bound]
    simp only [perform, ReturnStack.clear, ReturnStack.blank, ReturnStack.capacity,
      Array.size_replicate]
  entries := by
    have hle := h.depth_le_capacity
    rw [h.depth_eq] at hle
    simp only [perform, ReturnStack.entries, ReturnStack.clear, ReturnStack.blank,
      Array.toList_replicate, List.take_replicate, List.map_const', h.depth_eq,
      Nat.min_eq_left hle]
  within := h.within

theorem Holds.reset (h : f.Holds limit list) (entry : Address) :
    Holds limit (f.perform (.reset entry)).2 [] := by
  rw [← h.bound]
  exact holds_powerOn ..

theorem Holds.perform (h : f.Holds limit list) (c : Command) :
    (f.perform c).1 = (c.onList limit list).1 ∧
      Holds limit (f.perform c).2 (c.onList limit list).2 := by
  cases c with
  | push address =>
    rw [Command.onList]
    split
    · rename_i hroom
      obtain ⟨g, hg, hh⟩ := h.push hroom address
      rw [hg]
      exact ⟨rfl, hh⟩
    · rename_i hfull
      rw [h.push_full hfull]
      exact ⟨rfl, h⟩
  | pop =>
    rcases List.eq_nil_or_concat list with rfl | ⟨front, address, rfl⟩
    · rw [h.pop_empty]
      exact ⟨rfl, h⟩
    · rw [List.concat_eq_append] at h ⊢
      obtain ⟨g, hg, hh⟩ := h.pop
      rw [Command.onList, List.getLast?_concat, List.dropLast_concat, hg]
      exact ⟨rfl, hh⟩
  | clear => exact ⟨rfl, h.clear⟩
  | reset entry => exact ⟨rfl, h.reset entry⟩

theorem Holds.run (h : f.Holds limit list) (cs : List Command) :
    (f.run cs).1 = (runOnList limit list cs).1 ∧
      Holds limit (f.run cs).2 (runOnList limit list cs).2 := by
  induction cs generalizing f list with
  | nil => exact ⟨rfl, h⟩
  | cons c cs ih =>
    obtain ⟨ha, hc⟩ := h.perform c
    obtain ⟨has, hcs⟩ := ih hc
    simp only [RegisterStack.run, runOnList]
    exact ⟨by rw [ha, has], hcs⟩

/-- A new stack is a list bounded by its capacity and by the depth of its registers. -/
theorem run_eq_runOnList (capacity : Nat) (hpos : 0 < capacity) (hlt : capacity < 65535)
    (entry : Address) (depth : UInt16) (cs : List Command) :
    ∃ stack, ReturnStack.ofCapacity capacity = .ok stack ∧
      let limit := min capacity depth.toNat
      let f := (run ⟨stack, .powerOn entry depth⟩ cs).2
      let list := (runOnList limit [] cs).2
      (run ⟨stack, .powerOn entry depth⟩ cs).1 = (runOnList limit [] cs).1 ∧
        f.Shows list ∧ list.length ≤ limit ∧
        (∀ address, list.length = limit →
          f.perform (.push address) = (.pushed (.error (.overflow address)), f)) ∧
        (list = [] → f.perform .pop = (.popped ⟨none, true⟩, f)) := by
  refine ⟨.blank capacity hpos hlt, dif_pos ⟨hpos, hlt⟩, ?_⟩
  have hc : (ReturnStack.blank capacity hpos hlt).capacity = capacity := Array.size_replicate
  have hstart := holds_powerOn (.blank capacity hpos hlt) entry depth
  rw [hc] at hstart
  obtain ⟨hanswers, hh⟩ := hstart.run cs
  refine ⟨hanswers, hh.shows, hh.length_le, ?_, ?_⟩
  · intro address hfull
    exact hh.push_full (fun hroom => Nat.ne_of_lt hroom hfull) address
  · intro hempty
    exact Holds.pop_empty (hempty ▸ hh)

/-- Registers that allow more slots than there are: the third push is refused. -/
theorem run_deeper_than_capacity :
    0 < 2 ∧ 2 < 65535 ∧ ∃ stack, ReturnStack.ofCapacity 2 = .ok stack ∧
      Shows (run ⟨stack, .powerOn 0x200 8⟩ [.push 1, .push 2, .push 3, .pop, .clear]).2 [0] := by
  obtain ⟨stack, hs, _, hshows, _⟩ := run_eq_runOnList 2 (by decide) (by decide) 0x200 8
    [.push 1, .push 2, .push 3, .pop, .clear]
  exact ⟨by decide, by decide, stack, hs, hshows⟩

end RegisterStack
end ChipFamily
