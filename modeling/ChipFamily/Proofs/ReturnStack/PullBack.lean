import ChipFamily.Proofs.ReturnStack.Session

namespace ChipFamily

namespace Processor

section AnyProcessor

variable {σ : Type} [Processor σ]

/-- The processor after `n` requests for the slot below. -/
def lowered : Nat → σ → σ
  | 0, cpu => cpu
  | n + 1, cpu => lowered n (lower cpu).2

/-- The answer to the request for the slot below that comes after `n` others. -/
def saysEmpty (n : Nat) (cpu : σ) : Bool := (lower (lowered n cpu)).1

/-- None of the first `n` requests for the slot below is answered that the stack is empty. -/
def Grants (cpu : σ) (n : Nat) : Prop := ∀ k, k < n → saysEmpty k cpu = false

theorem Grants.of_le {cpu : σ} {m n : Nat} (h : Grants cpu n) (hm : m ≤ n) : Grants cpu m :=
  fun k hk => h k (Nat.lt_of_lt_of_le hk hm)

theorem lowered_succ (n : Nat) (cpu : σ) : lowered (n + 1) cpu = (lower (lowered n cpu)).2 := by
  induction n generalizing cpu with
  | zero => rfl
  | succ n ih => exact ih (lower cpu).2

/-- Of the first requests all are granted, or there is a first that is not. -/
theorem grants_or_stops (cpu : σ) (n : Nat) :
    Grants cpu n ∨ ∃ m, m < n ∧ Grants cpu m ∧ saysEmpty m cpu = true := by
  induction n with
  | zero => exact .inl fun k hk => absurd hk (Nat.not_lt_zero k)
  | succ n ih =>
    rcases ih with hall | ⟨m, hm, hfirst⟩
    · cases hn : saysEmpty n cpu with
      | true => exact .inr ⟨n, Nat.lt_succ_self n, hall, hn⟩
      | false =>
        refine .inl fun k hk => ?_
        rcases Nat.lt_succ_iff_lt_or_eq.1 hk with hlt | rfl
        · exact hall k hlt
        · exact hn
    · exact .inr ⟨m, Nat.lt_succ_of_lt hm, hfirst⟩

theorem lowered_watched (n : Nat) (w : Watched σ) :
    lowered n w = ⟨lowered n w.cpu, w.requests ++ List.replicate n .lower⟩ := by
  induction n generalizing w with
  | zero =>
    rw [List.replicate_zero, List.append_nil]
    rfl
  | succ n ih =>
    rw [lowered, ih, List.replicate_succ, List.append_cons]
    rfl

theorem saysEmpty_watched (n : Nat) (w : Watched σ) : saysEmpty n w = saysEmpty n w.cpu := by
  rw [saysEmpty, lowered_watched]
  rfl

end AnyProcessor

theorem toNat_pointer_lowered {σ : Type} [HonestProcessor σ] {cpu : σ} {n : Nat}
    (hn : n ≤ (pointer cpu).toNat) (h : Grants cpu n) :
    (pointer (lowered n cpu)).toNat = (pointer cpu).toNat - n := by
  induction n with
  | zero => rfl
  | succ n ih =>
    have hp := ih (Nat.le_of_succ_le hn) (h.of_le (Nat.le_succ n))
    have h1 : (1 : UInt16) ≤ pointer (lowered n cpu) := by
      rw [UInt16.le_iff_toNat_le, hp, UInt16.toNat_one]
      exact Nat.le_sub_of_add_le' hn
    rw [lowered_succ, HonestProcessor.pointer_lower _ (h n (Nat.lt_succ_self n)),
      UInt16.toNat_sub_of_le _ _ h1, hp]
    rfl

end Processor

namespace ReturnStack

open Processor (lowered saysEmpty Grants)

section AnyProcessor

variable {σ : Type} [Processor σ] {s : ReturnStack}

/-- Requests that bring a stray pointer down, but not back, use up that much of the limit. -/
theorem settleWithin_add {n : Nat} (limit : Nat) {cpu : σ}
    (hs : ∀ k, k < n → s.Stray (Processor.pointer (lowered k cpu))) (h : Grants cpu n) :
    s.settleWithin (n + limit) cpu = s.settleWithin limit (lowered n cpu) := by
  induction n generalizing cpu with
  | zero =>
    rw [Nat.zero_add]
    rfl
  | succ n ih =>
    have hfirst : s.Stray (Processor.pointer cpu) := hs 0 (Nat.succ_pos n)
    have hl : (Processor.lower cpu).1 = false := h 0 (Nat.succ_pos n)
    rw [Nat.add_right_comm, settleWithin_succ _ hfirst, hl]
    exact ih (fun k hk => hs (k + 1) (Nat.succ_lt_succ hk))
      fun k hk => h (k + 1) (Nat.succ_lt_succ hk)

/-- A pull-back that ends keeps its end under a higher limit. -/
theorem settleWithin_mono {limit : Nat} {cpu : σ} {r : StackPointer × σ}
    (h : s.settleWithin limit cpu = some r) (more : Nat) :
    s.settleWithin (limit + more) cpu = some r := by
  induction limit generalizing cpu with
  | zero =>
    by_cases hs : s.Stray (Processor.pointer cpu)
    · rw [settleWithin_zero hs] at h
      cases h
    · rw [settleWithin_of_not_stray _ hs] at h ⊢
      exact h
  | succ limit ih =>
    by_cases hs : s.Stray (Processor.pointer cpu)
    · rw [Nat.add_right_comm, settleWithin_succ _ hs]
      rw [settleWithin_succ _ hs] at h
      cases hl : (Processor.lower cpu).1 with
      | true =>
        rw [hl] at h
        exact h
      | false =>
        rw [hl] at h
        exact ih h
    · rw [settleWithin_of_not_stray _ hs] at h ⊢
      exact h

/-- A pop that returns does so in one way, however many requests it is allowed. -/
theorem popWithin_unique {limit limit' : Nat} {cpu : σ} {r r' : Popped × σ}
    (h : s.popWithin limit cpu = some r) (h' : s.popWithin limit' cpu = some r') : r = r' := by
  obtain ⟨settled, hs, rfl⟩ := Option.map_eq_some_iff.1 h
  obtain ⟨settled', hs', rfl⟩ := Option.map_eq_some_iff.1 h'
  -- Both end the same under the sum of the two limits.
  have hsum := settleWithin_mono hs limit'
  rw [Nat.add_comm, settleWithin_mono hs' limit] at hsum
  rw [Option.some.inj hsum]

theorem take_lowered (s : ReturnStack) (top : StackPointer) (n : Nat) (cpu : σ) :
    s.take top (lowered n cpu) =
      (⟨if top = .empty then none else s.slot? top.toNat, saysEmpty n cpu⟩,
        lowered (n + 1) cpu) := by
  rw [take_eq, Processor.lowered_succ]
  rfl

end AnyProcessor

variable {σ : Type} [HonestProcessor σ] {s : ReturnStack} {cpu : σ}

theorem popWithin_iff_pop_eq {r : Popped × σ} :
    (∃ limit, s.popWithin limit cpu = some r) ↔ s.pop cpu = r := by
  constructor
  · rintro ⟨limit, h⟩
    exact popWithin_unique (popWithin_eq_some_pop s cpu) h
  · rintro rfl
    exact ⟨_, popWithin_eq_some_pop s cpu⟩

theorem pop_of_settleWithin {limit : Nat} {top : StackPointer} {settled : σ}
    (h : s.settleWithin limit cpu = some (top, settled)) : s.pop cpu = s.take top settled := by
  apply popWithin_iff_pop_eq.1
  exact ⟨limit, by rw [popWithin, h, Option.map_some]⟩

/-- The number of slots that the pointer is past the top one. -/
def pulls (s : ReturnStack) (cpu : σ) : Nat := (Processor.pointer cpu).toNat - (s.capacity - 1)

theorem le_of_lt_pulls {n : Nat} (hn : n < s.pulls cpu) :
    n + s.capacity ≤ (Processor.pointer cpu).toNat := by
  have hc : 0 < s.capacity := s.capacity_pos
  unfold pulls at hn
  omega

theorem stray_lowered {n : Nat} (he : Processor.pointer cpu ≠ .empty) (hn : n < s.pulls cpu)
    (h : Grants cpu n) : s.Stray (Processor.pointer (lowered n cpu)) := by
  have hle := le_of_lt_pulls hn
  have hp := Processor.toNat_pointer_lowered (Nat.le_of_add_right_le hle) h
  constructor
  · rw [StackPointer.ne_empty_iff, hp]
    exact Nat.lt_of_le_of_lt (Nat.sub_le _ _) (StackPointer.ne_empty_iff.1 he)
  · rw [hp]
    exact Nat.le_sub_of_add_le' hle

theorem settleWithin_lowered {n : Nat} (limit : Nat) (he : Processor.pointer cpu ≠ .empty)
    (hn : n ≤ s.pulls cpu) (h : Grants cpu n) :
    s.settleWithin (n + limit) cpu = s.settleWithin limit (lowered n cpu) := by
  refine settleWithin_add limit (fun k hk => ?_) h
  exact stray_lowered he (Nat.lt_of_lt_of_le hk hn) (h.of_le (Nat.le_of_lt hk))

theorem toNat_pointer_pulled (h : Grants cpu (s.pulls cpu)) :
    (Processor.pointer (lowered (s.pulls cpu) cpu)).toNat =
      min (Processor.pointer cpu).toNat (s.capacity - 1) := by
  have hle : s.pulls cpu ≤ (Processor.pointer cpu).toNat := Nat.sub_le _ _
  rw [Processor.toNat_pointer_lowered hle h, pulls]
  omega

theorem pulled_lt_capacity (h : Grants cpu (s.pulls cpu)) :
    (Processor.pointer (lowered (s.pulls cpu) cpu)).toNat < s.capacity := by
  rw [toNat_pointer_pulled h]
  exact Nat.lt_of_le_of_lt (Nat.min_le_right _ _) (Nat.sub_one_lt_of_lt s.capacity_pos)

/-- A pointer that comes all the way down ends at the top slot, or where it was. -/
theorem pop_of_pulled (he : Processor.pointer cpu ≠ .empty) (h : Grants cpu (s.pulls cpu)) :
    ∃ address, s.slot? (min (Processor.pointer cpu).toNat (s.capacity - 1)) = some address ∧
      s.pop cpu =
        (⟨some address, saysEmpty (s.pulls cpu) cpu⟩, lowered (s.pulls cpu + 1) cpu) := by
  have hlt := pulled_lt_capacity h
  have hne := StackPointer.ne_empty_iff.2 (Nat.lt_trans hlt s.capacity_lt)
  obtain ⟨address, hslot⟩ :
      ∃ address, s.slot? (Processor.pointer (lowered (s.pulls cpu) cpu)).toNat = some address :=
    ⟨_, Array.getElem?_eq_getElem hlt⟩
  have hsettle := settleWithin_lowered 0 he (Nat.le_refl _) h
  rw [settleWithin_of_not_stray _ fun hs => Nat.not_lt_of_le hs.2 hlt] at hsettle
  refine ⟨address, ?_, ?_⟩
  · rw [← toNat_pointer_pulled h, hslot]
  · rw [pop_of_settleWithin hsettle, take_lowered, if_neg hne, hslot]

/-- A pointer whose processor stops on its way down is still past the last slot. -/
theorem pop_of_stopped {n : Nat} (he : Processor.pointer cpu ≠ .empty) (hn : n < s.pulls cpu)
    (h : Grants cpu n) (hstop : saysEmpty n cpu = true) :
    s.pop cpu = (⟨none, saysEmpty (n + 1) cpu⟩, lowered (n + 2) cpu) := by
  -- The refused request left the loop with the pointer that it was asked at, which names no slot.
  have hs := stray_lowered he hn h
  have hnone : s.slot? (Processor.pointer (lowered n cpu)).toNat = none :=
    Array.getElem?_eq_none hs.2
  have hlower : (Processor.lower (lowered n cpu)).1 = true := hstop
  have hsettle := settleWithin_lowered 1 he (Nat.le_of_lt hn) h
  rw [settleWithin_succ 0 hs, if_pos hlower, ← Processor.lowered_succ] at hsettle
  rw [pop_of_settleWithin hsettle, take_lowered, if_neg hs.1, hnone]

theorem pop_of_empty_pointer (he : Processor.pointer cpu = .empty) :
    s.pop cpu = (⟨none, saysEmpty 0 cpu⟩, lowered 1 cpu) := by
  rw [pop_of_not_stray fun hs => hs.1 he, take, if_pos he]
  rfl

/-- A pop does nothing to the processor but lower it, and its flag is the last answer. -/
theorem exists_pop_eq_lowered (s : ReturnStack) (cpu : σ) :
    ∃ n, (s.pop cpu).1.underflow = saysEmpty n cpu ∧ (s.pop cpu).2 = lowered (n + 1) cpu := by
  by_cases he : Processor.pointer cpu = .empty
  · rw [pop_of_empty_pointer he]
    exact ⟨0, rfl, rfl⟩
  · rcases Processor.grants_or_stops cpu (s.pulls cpu) with hall | ⟨n, hn, hfirst, hstop⟩
    · obtain ⟨address, _, hpop⟩ := pop_of_pulled he hall
      rw [hpop]
      exact ⟨_, rfl, rfl⟩
    · rw [pop_of_stopped he hn hfirst hstop]
      exact ⟨n + 1, rfl, rfl⟩

/-- A pop returns, in one way, and leaves the slots. -/
theorem step_popped_iff {p : Popped} {g : Session σ} :
    Session.Step ⟨s, cpu⟩ (.popped p) g ↔ p = (s.pop cpu).1 ∧ g = ⟨s, (s.pop cpu).2⟩ := by
  constructor
  · intro h
    cases h with
    | pop limit hp =>
      rw [popWithin_iff_pop_eq.1 ⟨limit, hp⟩]
      exact ⟨rfl, rfl⟩
  · rintro ⟨rfl, rfl⟩
    exact .pop _ (popWithin_eq_some_pop s cpu)

theorem requests_of_pop {n : Nat} (h : (s.pop (Watched.of cpu)).2 = lowered n (Watched.of cpu)) :
    (s.pop (Watched.of cpu)).2.requests = List.replicate n .lower := by
  rw [h, Processor.lowered_watched]
  rfl

/-- A pop pulls a stray pointer back to the top slot, with one request for each slot. -/
theorem pop_pulls_back {σ : Type} [HonestProcessor σ] (s : ReturnStack) (cpu : σ) :
    let top := Processor.pointer cpu
    let pulls := top.toNat - (s.capacity - 1)
    let popped := (s.pop cpu).1
    let watched := s.pop (Watched.of cpu)
    let requests := watched.2.requests
    (∀ p g, Session.Step ⟨s, cpu⟩ (.popped p) g ↔ p = popped ∧ g = ⟨s, (s.pop cpu).2⟩) ∧
      s.pop cpu = (watched.1, watched.2.cpu) ∧
      (∃ n, requests = List.replicate (n + 1) .lower ∧ popped.underflow = saysEmpty n cpu) ∧
      (top = .empty → popped.address = none ∧ requests.length = 1) ∧
      (top ≠ .empty → (∀ k, k < pulls → saysEmpty k cpu = false) →
        ∃ address, s.slot? (min top.toNat (s.capacity - 1)) = some address ∧
          popped.address = some address ∧ requests.length = pulls + 1) ∧
      (top ≠ .empty → ∀ n, n < pulls → (∀ k, k < n → saysEmpty k cpu = false) →
        saysEmpty n cpu = true → popped.address = none ∧ requests.length = n + 2) := by
  intro top pulls popped watched requests
  have hanswer (n : Nat) : saysEmpty n (Watched.of cpu) = saysEmpty n cpu :=
    Processor.saysEmpty_watched n (Watched.of cpu)
  have hmirror : s.pop cpu = (watched.1, watched.2.cpu) :=
    pop_mirror Watched.mirrors_cpu s (Watched.of cpu)
  have hlength {n : Nat} (h : watched.2 = lowered n (Watched.of cpu)) : requests.length = n := by
    exact (congrArg List.length (requests_of_pop h)).trans List.length_replicate
  refine ⟨fun p g => step_popped_iff, hmirror, ?_, ?_, ?_, ?_⟩
  · obtain ⟨n, hflag, hlast⟩ := exists_pop_eq_lowered s (Watched.of cpu)
    have hpopped : popped = watched.1 := congrArg Prod.fst hmirror
    exact ⟨n, requests_of_pop hlast, by rw [hpopped, hflag, hanswer]⟩
  · intro he
    have hpop : s.pop cpu = _ := pop_of_empty_pointer he
    have hwatched : s.pop (Watched.of cpu) = _ := pop_of_empty_pointer he
    exact ⟨congrArg (·.1.address) hpop, hlength (congrArg Prod.snd hwatched)⟩
  · intro he hall
    obtain ⟨address, hslot, hpop⟩ := pop_of_pulled he hall
    have he' : Processor.pointer (Watched.of cpu) ≠ .empty := he
    have hall' : Grants (Watched.of cpu) pulls := fun k hk => (hanswer k).trans (hall k hk)
    obtain ⟨_, _, hwatched⟩ := pop_of_pulled he' hall'
    exact ⟨address, hslot, congrArg (·.1.address) hpop, hlength (congrArg Prod.snd hwatched)⟩
  · intro he n hn hfirst hstop
    have hpop : s.pop cpu = _ := pop_of_stopped he hn hfirst hstop
    have hwatched : s.pop (Watched.of cpu) = _ :=
      pop_of_stopped he hn (fun k hk => (hanswer k).trans (hfirst k hk)) ((hanswer n).trans hstop)
    exact ⟨congrArg (·.1.address) hpop, hlength (congrArg Prod.snd hwatched)⟩

/-- A processor whose pointer goes down to a floor, and to slot 0 when it is asked to go on. -/
structure Floored where
  pointer : StackPointer
  floor : StackPointer

instance : HonestProcessor Floored where
  counter _ := 0
  pointer := Floored.pointer
  raise cpu := (true, cpu)
  lower cpu :=
    if cpu.pointer ≤ cpu.floor then (true, { cpu with pointer := 0 })
    else (false, { cpu with pointer := cpu.pointer - 1 })
  enterTrap _ cpu := cpu
  pointer_lower cpu h := by
    split at h
    · cases h
    · rw [if_neg ‹_›]

/-- Two slots, and a pointer at 6 that does not go below 4: the third request is refused. -/
theorem pop_pulls_back_floored :
    let cpu : Floored := ⟨6, 4⟩
    let s := ReturnStack.blank 2 (by decide) (by decide)
    Processor.pointer cpu ≠ .empty ∧ 2 < 6 - (s.capacity - 1) ∧
      (∀ k, k < 2 → saysEmpty k cpu = false) ∧ saysEmpty 2 cpu = true ∧
      (s.pop cpu).1.address = none ∧ (s.pop (Watched.of cpu)).2.requests.length = 4 := by
  intro cpu s
  have he : Processor.pointer cpu ≠ .empty := by decide
  have hn : 2 < 6 - (s.capacity - 1) := by decide
  have hfirst : ∀ k, k < 2 → saysEmpty k cpu = false := by decide
  have hstop : saysEmpty 2 cpu = true := by decide
  obtain ⟨_, _, _, _, _, h⟩ := pop_pulls_back s cpu
  exact ⟨he, hn, hfirst, hstop, h he 2 hn hfirst hstop⟩

end ReturnStack
end ChipFamily
