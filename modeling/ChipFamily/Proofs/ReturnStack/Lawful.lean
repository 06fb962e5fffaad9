import ChipFamily.Proofs.ReturnStack.PullBack

namespace ChipFamily

/-- A processor that moves its pointer by one slot or not at all, and never up to the empty one. -/
class Processor.Lawful (σ : Type) [Processor σ] : Prop where
  raise (cpu : σ) :
    (Processor.raise cpu).1 = true ∧
        Processor.pointer (Processor.raise cpu).2 = Processor.pointer cpu ∨
      (Processor.raise cpu).1 = false ∧
        Processor.pointer (Processor.raise cpu).2 = Processor.pointer cpu + 1 ∧
        Processor.pointer (Processor.raise cpu).2 ≠ .empty
  lower_of_empty (cpu : σ) (h : Processor.pointer cpu = .empty) :
    (Processor.lower cpu).1 = true ∧ Processor.pointer (Processor.lower cpu).2 = .empty
  lower_of_ne_empty (cpu : σ) (h : Processor.pointer cpu ≠ .empty) :
    (Processor.lower cpu).1 = false ∧
      Processor.pointer (Processor.lower cpu).2 = Processor.pointer cpu - 1

instance Registers.lawful : Processor.Lawful Registers where
  raise r := by
    by_cases h : r.pointer.depth < r.depth
    · rw [processor_raise, r.raise_of_lt h]
      exact .inr ⟨rfl, rfl, StackPointer.ne_empty_of_lt h⟩
    · rw [processor_raise, r.raise_of_not_lt h]
      exact .inl ⟨rfl, rfl⟩
  lower_of_empty r h := by
    rw [processor_lower, r.lower_of_empty h]
    exact ⟨rfl, h⟩
  lower_of_ne_empty r h := by
    rw [processor_lower, r.lower_of_ne_empty h]
    exact ⟨rfl, rfl⟩

namespace Processor.Lawful

variable {σ : Type} [Processor σ] [Lawful σ]

instance (priority := low) honest : HonestProcessor σ where
  pointer_lower cpu h := by
    by_cases he : pointer cpu = .empty
    · rw [(lower_of_empty cpu he).1] at h
      cases h
    · exact (lower_of_ne_empty cpu he).2

theorem lower_eq_false_iff (cpu : σ) : (lower cpu).1 = false ↔ pointer cpu ≠ .empty := by
  constructor
  · intro h he
    rw [(lower_of_empty cpu he).1] at h
    cases h
  · intro h
    exact (lower_of_ne_empty cpu h).1

/-- No step of pulling a pointer back to the top slot is refused. -/
theorem grants_pulls (s : ReturnStack) {cpu : σ} (he : pointer cpu ≠ .empty) :
    Grants cpu (s.pulls cpu) := by
  intro n hn
  induction n using Nat.strongRecOn with
  | ind n ih =>
    have hs := ReturnStack.stray_lowered he hn fun k hk => ih k hk (Nat.lt_trans hk hn)
    exact (lower_eq_false_iff _).2 hs.1

end Processor.Lawful

/-- Where address and flag agree, so do the two ways to read a pop. -/
theorem Popped.toOption_result {p : Popped} (h : p.address.isSome ↔ p.underflow = false) :
    p.result.toOption = p.address := by
  obtain ⟨address?, underflow⟩ := p
  cases address? with
  | none => rfl
  | some address =>
    have hflag : underflow = false := h.1 rfl
    subst hflag
    rfl

namespace ReturnStack

open Processor (Lawful)

variable {σ : Type} [Processor σ] [Lawful σ] {s : ReturnStack} {cpu : σ}

/-- A refused push leaves slots and pointer, and an accepted one stores its address one slot up. -/
theorem push_refused_or_accepted (s : ReturnStack) (cpu : σ) (address : Address) :
    (∃ cpu', s.push cpu address = (.error (.overflow address), s, cpu') ∧
      Processor.pointer cpu' = Processor.pointer cpu) ∨
    ∃ cpu', s.push cpu address =
        (.ok (), s.store (Processor.pointer cpu).depth.toNat address, cpu') ∧
      Processor.pointer cpu' = (Processor.pointer cpu).depth ∧
      (Processor.pointer cpu).depth.toNat < s.capacity := by
  rcases Lawful.raise cpu with ⟨hfull, hkept⟩ | ⟨hraised, hup, hne⟩
  · exact .inl ⟨_, push_of_full hfull address, hkept⟩
  · have htop : Processor.pointer (Processor.raise cpu).2 = (Processor.pointer cpu).depth := hup
    by_cases hlt : (Processor.pointer (Processor.raise cpu).2).toNat < s.capacity
    · refine .inr ⟨_, ?_, htop, htop ▸ hlt⟩
      rw [← htop]
      exact push_of_lt hraised hlt address
    · refine .inl ⟨_, push_of_not_lt hraised hlt address, ?_⟩
      -- The step back is an exact inverse, also of the step from the pointer of an empty stack.
      rw [(Lawful.lower_of_ne_empty _ hne).2, htop, StackPointer.depth_sub_one]

theorem push_error {address : Address} {e : StackError} (h : (s.push cpu address).1 = .error e) :
    e = .overflow address ∧ (s.push cpu address).2.1 = s ∧
      Processor.pointer (s.push cpu address).2.2 = Processor.pointer cpu := by
  rcases push_refused_or_accepted s cpu address with ⟨cpu', hpush, hp⟩ | ⟨cpu', hpush, _⟩
  · rw [hpush] at h ⊢
    cases h
    exact ⟨rfl, rfl, hp⟩
  · rw [hpush] at h
    cases h

theorem push_ok {address : Address} (h : (s.push cpu address).1 = .ok ()) :
    ∃ cpu', s.push cpu address =
        (.ok (), s.store (Processor.pointer cpu).depth.toNat address, cpu') ∧
      Processor.pointer cpu' = (Processor.pointer cpu).depth ∧
      (Processor.pointer cpu).depth.toNat < s.capacity := by
  rcases push_refused_or_accepted s cpu address with ⟨cpu', hpush, _⟩ | haccepted
  · rw [hpush] at h
    cases h
  · exact haccepted

theorem pop_of_stored {top : StackPointer} (hlt : top.depth.toNat < s.capacity)
    (hcpu : Processor.pointer cpu = top.depth) (address : Address) :
    ((s.store top.depth.toNat address).pop cpu).1 = ⟨some address, false⟩ ∧
      Processor.pointer ((s.store top.depth.toNat address).pop cpu).2 = top := by
  have hne : Processor.pointer cpu ≠ .empty := by
    rw [hcpu, StackPointer.ne_empty_iff]
    exact Nat.lt_trans hlt s.capacity_lt
  have hs : ¬ (s.store top.depth.toNat address).Stray (Processor.pointer cpu) := by
    rintro ⟨_, hle⟩
    rw [capacity_store, hcpu] at hle
    exact Nat.not_lt_of_le hle hlt
  obtain ⟨hflag, hdown⟩ := Lawful.lower_of_ne_empty cpu hne
  rw [pop_of_not_stray hs, take_eq, if_neg hne, hflag, hcpu, slot?_store_self hlt, hdown, hcpu]
  exact ⟨rfl, StackPointer.depth_sub_one top⟩

/-- A pop reads a slot exactly if it does not report an empty stack. -/
theorem isSome_address_iff (s : ReturnStack) (cpu : σ) :
    (s.pop cpu).1.address.isSome ↔ (s.pop cpu).1.underflow = false := by
  by_cases he : Processor.pointer cpu = .empty
  · have hflag : Processor.saysEmpty 0 cpu = true := (Lawful.lower_of_empty cpu he).1
    rw [pop_of_empty_pointer he, hflag]
    simp
  · have hall := Lawful.grants_pulls s he
    have hlt := Nat.lt_trans (pulled_lt_capacity hall) s.capacity_lt
    have hflag : Processor.saysEmpty (s.pulls cpu) cpu = false :=
      (Lawful.lower_eq_false_iff _).2 (StackPointer.ne_empty_iff.2 hlt)
    obtain ⟨address, _, hpop⟩ := pop_of_pulled he hall
    rw [hpop, hflag]
    simp

/-- With a lawful processor a push changes all or nothing, and a pop undoes it. -/
theorem push_atomic_pop_undoes :
    Lawful Registers ∧
      ∀ {σ : Type} [Processor σ] [Lawful σ] (s : ReturnStack) (cpu : σ),
        (∀ address,
          let old := Processor.pointer cpu
          let pushed := s.push cpu address
          let top := Processor.pointer pushed.2.2
          (pushed.1 = .ok () ↔
            (Processor.raise cpu).1 = false ∧
              (Processor.pointer (Processor.raise cpu).2).toNat < s.capacity) ∧
          (∀ e, pushed.1 = .error e → e = .overflow address ∧ pushed.2.1 = s ∧ top = old) ∧
          (pushed.1 = .ok () →
            pushed.2.1.entries top = s.entries old ++ [address] ∧
            (∀ i, i ≠ top.toNat → pushed.2.1.slot? i = s.slot? i) ∧
            let popped := pushed.2.1.pop pushed.2.2
            popped.1 = ⟨some address, false⟩ ∧ popped.1.result = .ok address ∧
              Processor.pointer popped.2 = old)) ∧
        let popped := (s.pop cpu).1
        (popped.address.isSome ↔ popped.underflow = false) ∧
          popped.result.toOption = popped.address ∧
          ∀ target, popped.into target = popped.result.toOption.getD target := by
  refine ⟨Registers.lawful, ?_⟩
  intro σ _ _ s cpu
  refine ⟨?_, ?_⟩
  · intro address
    refine ⟨Session.push_ok_iff s cpu address, fun e he => push_error he, ?_⟩
    intro hok
    obtain ⟨cpu', hpush, hcpu, hlt⟩ := push_ok hok
    obtain ⟨hpopped, hpointer⟩ := pop_of_stored hlt hcpu address
    rw [hpush, hcpu]
    refine ⟨entries_store_depth hlt address, ?_, hpopped, ?_, hpointer⟩
    · intro i hi
      exact slot?_store_of_ne hi address
    · rw [hpopped]
      rfl
  · have hiff := isSome_address_iff s cpu
    refine ⟨hiff, Popped.toOption_result hiff, ?_⟩
    intro target
    rw [Popped.toOption_result hiff, Popped.into]

/-- Two slots on registers that allow eight, with the pointer at slot 0 and with one at no slot. -/
theorem push_atomic_pop_undoes_deep :
    let s := blank 2 (by decide) (by decide)
    let first : Registers := ⟨0x200, 0, 8, none, 0⟩
    let stray : Registers := ⟨0x200, 5, 8, none, 0⟩
    (s.push first 7).1 = .ok () ∧
      (s.push first 7).2.1.entries (s.push first 7).2.2.pointer = [0, 7] ∧
      ((s.push first 7).2.1.pop (s.push first 7).2.2).1.result = .ok 7 ∧
      (s.push stray 9).1 = .error (.overflow 9) ∧ (s.push stray 9).2.2.pointer = 5 ∧
      (s.pop stray).1.underflow = false ∧ (s.pop stray).1.address.isSome := by
  intro s first stray
  have hlaw := push_atomic_pop_undoes.2 (σ := Registers)
  have hok : (s.push first 7).1 = .ok () := rfl
  have hfull : (s.push stray 9).1 = .error (.overflow 9) := rfl
  have hflag : (s.pop stray).1.underflow = false := by decide
  obtain ⟨_, _, hpushed⟩ := (hlaw s first).1 7
  obtain ⟨_, hfailed, _⟩ := (hlaw s stray).1 9
  obtain ⟨hentries, _, _, hresult, _⟩ := hpushed hok
  exact ⟨hok, hentries, hresult, hfull, (hfailed _ hfull).2.2, hflag,
    (hlaw s stray).2.1.2 hflag⟩

end ReturnStack
end ChipFamily
