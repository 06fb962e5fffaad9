import ChipFamily.Proofs.Processor
import ChipFamily.ReturnStack

namespace ChipFamily.ReturnStack

section AnyProcessor

variable {σ : Type} [Processor σ] {s : ReturnStack} {cpu : σ} (limit : Nat)

theorem push_of_full (h : (Processor.raise cpu).1 = true) (address : Address) :
    s.push cpu address = (.error (.overflow address), s, (Processor.raise cpu).2) := by
  rw [push]
  exact if_pos h

theorem push_of_lt (h : (Processor.raise cpu).1 = false)
    (hlt : (Processor.pointer (Processor.raise cpu).2).toNat < s.capacity) (address : Address) :
    s.push cpu address =
      (.ok (), s.store (Processor.pointer (Processor.raise cpu).2).toNat address,
        (Processor.raise cpu).2) := by
  simp only [push, h, Bool.false_eq_true, if_false, if_pos hlt]

theorem push_of_not_lt (h : (Processor.raise cpu).1 = false)
    (hlt : ¬ (Processor.pointer (Processor.raise cpu).2).toNat < s.capacity) (address : Address) :
    s.push cpu address =
      (.error (.overflow address), s, (Processor.lower (Processor.raise cpu).2).2) := by
  simp only [push, h, Bool.false_eq_true, if_false, if_neg hlt]

theorem settleWithin_of_not_stray (h : ¬ s.Stray (Processor.pointer cpu)) :
    s.settleWithin limit cpu = some (Processor.pointer cpu, cpu) := by
  unfold settleWithin
  exact if_neg h

theorem settleWithin_zero (h : s.Stray (Processor.pointer cpu)) :
    s.settleWithin 0 cpu = none := by
  unfold settleWithin
  exact if_pos h

theorem settleWithin_succ (h : s.Stray (Processor.pointer cpu)) :
    s.settleWithin (limit + 1) cpu =
      if (Processor.lower cpu).1 then some (Processor.pointer cpu, (Processor.lower cpu).2)
      else s.settleWithin limit (Processor.lower cpu).2 := by
  rw [settleWithin]
  exact if_pos h

theorem take_eq (s : ReturnStack) (top : StackPointer) (cpu : σ) :
    s.take top cpu =
      (⟨if top = .empty then none else s.slot? top.toNat, (Processor.lower cpu).1⟩,
        (Processor.lower cpu).2) :=
  rfl

end AnyProcessor

theorem pop_of_not_stray {σ : Type} [HonestProcessor σ] {s : ReturnStack} {cpu : σ}
    (h : ¬ s.Stray (Processor.pointer cpu)) : s.pop cpu = s.take (Processor.pointer cpu) cpu := by
  have hs (limit : Nat) : s.settleWithin limit cpu = some (Processor.pointer cpu, cpu) :=
    settleWithin_of_not_stray limit h
  simp only [pop, popWithin, hs, Option.map_some, Option.get_some]

variable (s : ReturnStack) (r : Registers)

theorem clear_eq_blank {s : ReturnStack} {capacity : Nat} (hpos : 0 < capacity)
    (hlt : capacity < StackPointer.empty.toNat) (h : s.capacity = capacity) :
    s.clear = blank capacity hpos hlt := by
  subst h
  rfl

@[simp] theorem capacity_store (s : ReturnStack) (i : Nat) (address : Address) :
    (s.store i address).capacity = s.capacity :=
  Array.size_setIfInBounds

theorem slot?_store_self {s : ReturnStack} {i : Nat} (h : i < s.capacity) (address : Address) :
    (s.store i address).slot? i = some address :=
  Array.getElem?_setIfInBounds_self_of_lt h

theorem slot?_store_of_ne {s : ReturnStack} {i j : Nat} (h : j ≠ i) (address : Address) :
    (s.store i address).slot? j = s.slot? j :=
  Array.getElem?_setIfInBounds_ne h.symm

/-- An address that is stored above the top slot joins the entries. -/
theorem entries_store_depth {s : ReturnStack} {top : StackPointer}
    (h : top.depth.toNat < s.capacity) (address : Address) :
    (s.store top.depth.toNat address).entries top.depth = s.entries top ++ [address] := by
  have hne := StackPointer.ne_empty_iff.2 (Nat.lt_trans h s.capacity_lt)
  have hget : (s.slots.toList.set top.depth.toNat address)[top.depth.toNat]? = some address :=
    List.getElem?_set_self h
  rw [entries, entries, StackPointer.toNat_depth hne, store, Array.toList_setIfInBounds,
    List.take_add_one, List.take_set_of_le (Nat.le_refl _), hget, Option.toList_some]

/-- There is room for a push where neither the registers nor the slots are used up. -/
def HasRoom : Prop :=
  r.pointer.depth < r.depth ∧ r.pointer.depth.toNat < s.capacity

theorem push_of_room (h : s.HasRoom r) (address : Address) :
    s.push r address =
      (.ok (), s.store r.pointer.depth.toNat address, { r with pointer := r.pointer.depth }) := by
  rw [push, Registers.processor_raise, r.raise_of_lt h.1]
  exact if_pos h.2

theorem push_of_no_room (h : ¬ s.HasRoom r) (address : Address) :
    s.push r address = (.error (.overflow address), s, r) := by
  rw [push, Registers.processor_raise]
  by_cases hd : r.pointer.depth < r.depth
  · -- The registers step up, find no slot there, and step back.
    have hc : ¬ r.pointer.depth.toNat < s.capacity := fun hc => h ⟨hd, hc⟩
    rw [r.raise_of_lt hd]
    simp only [Registers.processor_pointer, Registers.processor_lower, Bool.false_eq_true,
      if_neg hc, if_false, r.lower_raised hd]
  · rw [r.raise_of_not_lt hd]
    rfl

theorem pop_of_empty (h : r.pointer = .empty) : s.pop r = (⟨none, true⟩, r) := by
  have hs : ¬ s.Stray (Processor.pointer r) := fun hs => hs.1 h
  rw [pop_of_not_stray hs, take, Registers.processor_lower, r.lower_of_empty h,
    Registers.processor_pointer, if_pos h]

theorem pop_of_lt (h : r.pointer.toNat < s.capacity) :
    s.pop r = (⟨s.slot? r.pointer.toNat, false⟩, { r with pointer := r.pointer - 1 }) := by
  have he : r.pointer ≠ .empty := by
    intro he
    have hc := s.capacity_lt
    rw [he] at h
    exact Nat.lt_irrefl _ (Nat.lt_trans h hc)
  have hs : ¬ s.Stray (Processor.pointer r) := fun hs => Nat.not_lt_of_le hs.2 h
  rw [pop_of_not_stray hs, take, Registers.processor_lower, r.lower_of_ne_empty he,
    Registers.processor_pointer, if_neg he]

theorem exists_push (address : Address) :
    ∃ p, (s.push r address).2.2 = { r with pointer := p } := by
  by_cases h : s.HasRoom r
  · exact ⟨_, by rw [s.push_of_room r h]⟩
  · exact ⟨r.pointer, by rw [s.push_of_no_room r h]⟩

theorem exists_settleWithin (limit : Nat) {top : StackPointer} {r' : Registers}
    (h : s.settleWithin limit r = some (top, r')) : ∃ p, r' = { r with pointer := p } := by
  induction limit generalizing r with
  | zero =>
    by_cases hs : s.Stray r.pointer
    · rw [settleWithin_zero hs] at h
      cases h
    · rw [settleWithin_of_not_stray _ hs] at h
      cases h
      exact ⟨_, rfl⟩
  | succ limit ih =>
    by_cases hs : s.Stray r.pointer
    · obtain ⟨p, hp⟩ := r.exists_lower
      rw [settleWithin_succ _ hs, Registers.processor_lower, hp] at h
      split at h
      · cases h
        exact ⟨p, rfl⟩
      · exact ih { r with pointer := p } h
    · rw [settleWithin_of_not_stray _ hs] at h
      cases h
      exact ⟨_, rfl⟩

/-- Of the registers, a pop changes only the pointer, also where it is stray. -/
theorem exists_pop : ∃ p, (s.pop r).2 = { r with pointer := p } := by
  obtain ⟨⟨top, r'⟩, hs⟩ := Option.isSome_iff_exists.1
    (s.isSome_settleWithin (Processor.pointer r).toNat r (Nat.le_refl _))
  obtain ⟨p, rfl⟩ := s.exists_settleWithin r _ hs
  obtain ⟨p', hp'⟩ := Registers.exists_lower { r with pointer := p }
  refine ⟨p', ?_⟩
  simp only [pop, popWithin, hs, Option.map_some, Option.get_some, take]
  exact hp'

end ChipFamily.ReturnStack
