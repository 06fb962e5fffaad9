import ChipFamily.Proofs.ReturnStack.Mirrors

namespace ChipFamily

/-- A return stack with the processor that keeps its pointer. -/
structure Session (σ : Type) where
  stack : ReturnStack
  cpu : σ

namespace Session

/-- What happens to a stack and its processor. A push comes with the pointer read for it. -/
inductive Event where
  | pushed (top : StackPointer) (address : Address) (result : Except StackError Unit)
  | popped (p : Popped)
  | changed

/-- Where a push puts its address, if it puts it anywhere. -/
def raisedTo {σ : Type} [Processor σ] (cpu : σ) : StackPointer :=
  Processor.pointer (Processor.raise cpu).2

/-- A call that returns, which not every pop need do, or a change from outside. -/
inductive Step {σ : Type} [Processor σ] : Session σ → Event → Session σ → Prop where
  | push (s : ReturnStack) (cpu : σ) (address : Address) :
      Step ⟨s, cpu⟩ (.pushed (raisedTo cpu) address (s.push cpu address).1)
        ⟨(s.push cpu address).2.1, (s.push cpu address).2.2⟩
  | pop {s : ReturnStack} {cpu cpu' : σ} {p : Popped} (limit : Nat)
      (h : s.popWithin limit cpu = some (p, cpu')) : Step ⟨s, cpu⟩ (.popped p) ⟨s, cpu'⟩
  | change (s : ReturnStack) (cpu cpu' : σ) : Step ⟨s, cpu⟩ .changed ⟨s, cpu'⟩

/-- A row of steps. The latest event is the first of the log. -/
inductive Run {σ : Type} [Processor σ] (start : Session σ) : List Event → Session σ → Prop where
  | start : Run start [] start
  | step {log : List Event} {e : Event} {f g : Session σ} (h : Run start log f)
      (hs : Step f e g) : Run start (e :: log) g

/-- The address of the last push that was accepted at a slot. -/
def lastPushed (i : Nat) : List Event → Address
  | [] => 0
  | .pushed top address (.ok _) :: earlier =>
    if top.toNat = i then address else lastPushed i earlier
  | _ :: earlier => lastPushed i earlier

/-- A stack whose slots hold what a log says. -/
structure Records (capacity : Nat) (log : List Event) (s : ReturnStack) : Prop where
  capacity_eq : s.capacity = capacity
  slot_eq (i : Nat) (hi : i < capacity) : s.slot? i = some (lastPushed i log)

variable {σ : Type} [Processor σ] {capacity : Nat} {log : List Event} {f g : Session σ}
  {s : ReturnStack} {cpu : σ} {e : Event}

theorem records_blank (hpos : 0 < capacity) (hlt : capacity < StackPointer.empty.toNat) :
    Records capacity [] (.blank capacity hpos hlt) where
  capacity_eq := Array.size_replicate
  slot_eq i hi := by
    rw [ReturnStack.slot?, ReturnStack.blank, Array.getElem?_replicate, if_pos hi]
    rfl

theorem Records.store (h : Records capacity log s) {top : StackPointer}
    (htop : top.toNat < capacity) (address : Address) :
    Records capacity (.pushed top address (.ok ()) :: log) (s.store top.toNat address) where
  capacity_eq := (ReturnStack.capacity_store ..).trans h.capacity_eq
  slot_eq i hi := by
    rw [lastPushed]
    by_cases hti : top.toNat = i
    · subst hti
      rw [if_pos rfl, ReturnStack.slot?_store_self (h.capacity_eq ▸ htop)]
    · rw [if_neg hti, ReturnStack.slot?_store_of_ne (Ne.symm hti), h.slot_eq i hi]

/-- A push is accepted if the processor says that there is a slot and the stack has it too. -/
theorem push_ok_iff (s : ReturnStack) (cpu : σ) (address : Address) :
    (s.push cpu address).1 = .ok () ↔
      (Processor.raise cpu).1 = false ∧ (raisedTo cpu).toNat < s.capacity := by
  cases hr : (Processor.raise cpu).1 with
  | true => simp [ReturnStack.push_of_full hr]
  | false =>
    by_cases hlt : (raisedTo cpu).toNat < s.capacity
    · simp [ReturnStack.push_of_lt hr hlt, hlt]
    · simp [ReturnStack.push_of_not_lt hr hlt, hlt]

theorem push_eq_store {address : Address} (h : (s.push cpu address).1 = .ok ()) :
    (s.push cpu address).2.1 = s.store (raisedTo cpu).toNat address := by
  obtain ⟨hr, hlt⟩ := (push_ok_iff ..).1 h
  rw [ReturnStack.push_of_lt hr hlt]
  rfl

theorem push_eq_self {address : Address} (h : (s.push cpu address).1 ≠ .ok ()) :
    (s.push cpu address).2.1 = s := by
  cases hr : (Processor.raise cpu).1 with
  | true => rw [ReturnStack.push_of_full hr]
  | false =>
    have hlt : ¬ (raisedTo cpu).toNat < s.capacity := fun hlt => h ((push_ok_iff ..).2 ⟨hr, hlt⟩)
    rw [ReturnStack.push_of_not_lt hr hlt]

theorem Step.stack_eq (h : Step f e g) (he : ∀ top address, e ≠ .pushed top address (.ok ())) :
    g.stack = f.stack := by
  cases h with
  | push s cpu address =>
    apply push_eq_self
    intro hok
    exact he (raisedTo cpu) address (by rw [hok])
  | pop limit h => rfl
  | change s cpu cpu' => rfl

theorem lastPushed_cons_of_ne (he : ∀ top address, e ≠ .pushed top address (.ok ())) (i : Nat) :
    lastPushed i (e :: log) = lastPushed i log := by
  rw [lastPushed]
  intro top address _ h
  exact he top address h

theorem Records.step (hf : Records capacity log f.stack) (h : Step f e g) :
    Records capacity (e :: log) g.stack := by
  -- Only an accepted push writes, and to the slot that the log names.
  by_cases he : ∃ top address, e = .pushed top address (.ok ())
  · obtain ⟨top, address, rfl⟩ := he
    generalize hresult : Except.ok () = result at h
    cases h with
    | push s cpu _ =>
      have htop : (raisedTo cpu).toNat < capacity := by
        rw [← hf.capacity_eq]
        exact ((push_ok_iff ..).1 hresult.symm).2
      rw [push_eq_store hresult.symm, ← hresult]
      exact hf.store htop address
  · have hne : ∀ top address, e ≠ .pushed top address (.ok ()) :=
      fun top address h => he ⟨top, address, h⟩
    rw [h.stack_eq hne]
    exact ⟨hf.capacity_eq, fun i hi => (hf.slot_eq i hi).trans (by rw [lastPushed_cons_of_ne hne])⟩

theorem Records.run {start : Session σ} (hs : Records capacity [] start.stack)
    (h : Run start log f) : Records capacity log f.stack := by
  induction h with
  | start => exact hs
  | step _ hstep ih => exact ih.step hstep

/-- A popped address is that of a slot, whatever pointer the processor had. -/
theorem exists_slot_of_popWithin {limit : Nat} {p : Popped} {cpu' : σ} {address : Address}
    (h : s.popWithin limit cpu = some (p, cpu')) (ha : p.address = some address) :
    ∃ i, i < s.capacity ∧ s.slot? i = some address := by
  obtain ⟨⟨top, settled⟩, _, htake⟩ := Option.map_eq_some_iff.1 h
  have hp : (s.take top settled).1.address = some address :=
    (congrArg (fun taken : Popped × σ => taken.1.address) htake).trans ha
  change (if top = .empty then none else s.slot? top.toNat) = some address at hp
  by_cases htop : top = .empty
  · rw [if_pos htop] at hp
    cases hp
  · rw [if_neg htop] at hp
    obtain ⟨hi, _⟩ := Array.getElem?_eq_some_iff.1 hp
    exact ⟨top.toNat, hi, hp⟩

/-- A push asks for one slot up, and gives it back only where the stack has no such slot. -/
theorem requests_push (s : ReturnStack) (cpu : σ) (address : Address) :
    (s.push (Watched.of cpu) address).2.2.requests =
      .raise ::
        if (Processor.raise cpu).1 = false ∧ s.capacity ≤ (raisedTo cpu).toNat then [.lower]
        else [] := by
  cases hr : (Processor.raise cpu).1 with
  | true =>
    have hw : (Processor.raise (Watched.of cpu)).1 = true := hr
    rw [ReturnStack.push_of_full hw, if_neg (by simp)]
    rfl
  | false =>
    have hw : (Processor.raise (Watched.of cpu)).1 = false := hr
    by_cases hlt : (raisedTo cpu).toNat < s.capacity
    · rw [ReturnStack.push_of_lt hw hlt, if_neg fun h => Nat.not_lt_of_le h.2 hlt]
      rfl
    · rw [ReturnStack.push_of_not_lt hw hlt, if_pos ⟨rfl, Nat.le_of_not_lt hlt⟩]
      rfl

/-- Whatever the processor does, a slot holds the address of the last push accepted at it. -/
theorem run_records_pushes (capacity : Nat) (hpos : 0 < capacity) (hlt : capacity < 65535) :
    ∃ new, ReturnStack.ofCapacity capacity = .ok new ∧
      ∀ {σ : Type} [Processor σ] (start : σ) (log : List Event) (f : Session σ),
        Run ⟨new, start⟩ log f →
          f.stack.capacity = capacity ∧
          (∀ i, i < capacity → f.stack.slot? i = some (lastPushed i log)) ∧
          (∀ e g, Step f e g → (∀ top address, e ≠ .pushed top address (.ok ())) →
            g.stack = f.stack) ∧
          (∀ address,
            let watched := f.stack.push (Watched.of f.cpu) address
            ((f.stack.push f.cpu address).1 = .ok () ↔
              (Processor.raise f.cpu).1 = false ∧ (raisedTo f.cpu).toNat < capacity) ∧
            f.stack.push f.cpu address = (watched.1, watched.2.1, watched.2.2.cpu) ∧
            watched.2.2.requests =
              .raise ::
                if (Processor.raise f.cpu).1 = false ∧ capacity ≤ (raisedTo f.cpu).toNat then
                  [.lower]
                else []) ∧
          ∀ p g address, Step f (.popped p) g → p.address = some address →
            ∃ i, i < capacity ∧ f.stack.slot? i = some address := by
  refine ⟨.blank capacity hpos hlt, dif_pos ⟨hpos, hlt⟩, ?_⟩
  intro σ _ start log f hrun
  have hf : Records capacity log f.stack := Records.run (records_blank hpos hlt) hrun
  refine ⟨hf.capacity_eq, hf.slot_eq, ?_, ?_, ?_⟩
  · intro e g hs he
    exact hs.stack_eq he
  · intro address
    have hreq := requests_push f.stack f.cpu address
    have hok := push_ok_iff f.stack f.cpu address
    rw [hf.capacity_eq] at hreq hok
    exact ⟨hok, ReturnStack.push_mirror Watched.mirrors_cpu f.stack (Watched.of f.cpu) address,
      hreq⟩
  · intro p g address hs ha
    obtain ⟨s, cpu⟩ := f
    cases hs with
    | pop limit hpop =>
      rw [← hf.capacity_eq]
      exact exists_slot_of_popWithin hpop ha

/-- A processor that agrees to every move and makes none. -/
structure Unmoved where
  pointer : StackPointer

instance : Processor Unmoved where
  counter _ := 0
  pointer := Unmoved.pointer
  raise cpu := (false, cpu)
  lower cpu := (false, cpu)
  enterTrap _ cpu := cpu

/-- Two pushes to one slot, with one in between that names no slot, and a pop from another slot. -/
theorem run_records_pushes_unmoved :
    0 < 2 ∧ 2 < 65535 ∧ ∃ new, ReturnStack.ofCapacity 2 = .ok new ∧
      ∃ f : Session Unmoved,
        Run ⟨new, ⟨1⟩⟩
            [.popped ⟨some 0, false⟩, .changed, .pushed 1 9 (.ok ()), .changed,
              .pushed 0xFFFF 8 (.error (.overflow 8)), .changed, .pushed 1 7 (.ok ())] f ∧
          f.stack.slot? 0 = some 0 ∧ f.stack.slot? 1 = some 9 := by
  obtain ⟨new, hnew, h⟩ := run_records_pushes 2 (by decide) (by decide)
  cases hnew
  have hrun : Run ⟨ReturnStack.blank 2 (by decide) (by decide), (⟨1⟩ : Unmoved)⟩
      [.popped ⟨some 0, false⟩, .changed, .pushed 1 9 (.ok ()), .changed,
        .pushed 0xFFFF 8 (.error (.overflow 8)), .changed, .pushed 1 7 (.ok ())] _ :=
    .step (.step (.step (.step (.step (.step (.step .start
      (.push _ _ 7)) (.change _ _ ⟨0xFFFF⟩)) (.push _ _ 8)) (.change _ _ ⟨1⟩)) (.push _ _ 9))
      (.change _ _ ⟨0⟩)) (.pop 0 rfl)
  obtain ⟨_, hslot, _⟩ := h _ _ _ hrun
  exact ⟨by decide, by decide, _, rfl, _, hrun, hslot 0 (by decide), hslot 1 (by decide)⟩

end Session
end ChipFamily
