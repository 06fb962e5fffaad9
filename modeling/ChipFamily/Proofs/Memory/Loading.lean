import ChipFamily.Proofs.Memory.LastWriter

namespace ChipFamily.Memory

variable {σ : Type} [Processor σ] {m after : Memory} {start entry limit : Address}
  {block image : List UInt8} {n : Nat}

/-- A write that asks its processor for a trap. -/
def WriteTraps (m : Memory) (cpu : σ) (start : Address) (block : List UInt8) : Prop :=
  ∃ fault, .trap fault ∈ (m.write (Watched.of cpu) start block).2.requests

/-- Memory after a whole block, as a write without a trap leaves it. -/
structure Stored (m : Memory) (start : Address) (block : List UInt8) (after : Memory) : Prop where
  le_size : start.toNat + block.length ≤ m.size
  size_eq : after.size = m.size
  bytes (k : Nat) : after.bytes[k]? =
    if start.toNat ≤ k ∧ k < start.toNat + block.length then block[k - start.toNat]? else m.bytes[k]?
  write_eq {σ : Type} [Processor σ] (cpu : σ) : m.write cpu start block = (after, cpu)
  silent {σ : Type} [Processor σ] (cpu : σ) : ¬ m.WriteTraps cpu start block

theorem writeTraps_iff (cpu : σ) :
    m.WriteTraps cpu start block ↔ ¬ Inside m.size start block.length := by
  rw [WriteTraps]
  by_cases h : Inside m.size start block.length
  · rw [write_of_inside _ h]
    exact iff_of_false (fun ⟨_, hmem⟩ => List.not_mem_nil hmem) (not_not_intro h)
  · rw [write_of_not_inside _ h]
    exact iff_of_true ⟨_, List.mem_singleton_self _⟩ h

theorem stored_place (h : start.toNat + block.length ≤ m.size) :
    m.Stored start block (m.place start.toNat block) where
  le_size := h
  size_eq := size_place ..
  bytes := getElem?_place (.inr h)
  write_eq cpu := write_of_inside cpu (.inr h)
  silent cpu := fun htraps => (writeTraps_iff cpu).1 htraps (.inr h)

theorem loadProgram_eq_ok_iff :
    m.loadProgram entry image = .ok (n, after) ↔ entry.toNat + image.length < m.size ∧
      n = image.length ∧ after = m.place entry.toNat image := by
  by_cases h : entry.toNat + image.length < m.size
  · rw [loadProgram_of_lt h, Except.ok.injEq, Prod.mk.injEq, and_iff_right h, eq_comm,
      eq_comm (a := after)]
  · rw [loadProgram_of_not_lt h]
    exact iff_of_false nofun fun hok => h hok.1

theorem loadBoot_eq_ok_iff :
    m.loadBoot image limit = .ok after ↔ image.length ≤ min limit.toNat m.size ∧
      after = m.place 0 image := by
  by_cases h : image.length ≤ min limit.toNat m.size
  · rw [loadBoot_of_le h, Except.ok.injEq, and_iff_right h, eq_comm]
  · rw [loadBoot_of_not_le h]
    exact iff_of_false nofun fun hok => h hok.1

theorem exists_loadProgram_iff :
    (∃ n after, m.loadProgram entry image = .ok (n, after)) ↔
      entry.toNat + image.length < m.size := by
  simp only [loadProgram_eq_ok_iff, exists_and_left, exists_eq, and_true]

theorem exists_loadBoot_iff :
    (∃ after, m.loadBoot image limit = .ok after) ↔ image.length ≤ min limit.toNat m.size := by
  simp only [loadBoot_eq_ok_iff, exists_and_left, exists_eq, and_true]

theorem stored_of_loadProgram (h : m.loadProgram entry image = .ok (n, after)) :
    n = image.length ∧ m.Stored entry image after := by
  obtain ⟨hlt, hn, rfl⟩ := loadProgram_eq_ok_iff.1 h
  exact ⟨hn, stored_place (Nat.le_of_lt hlt)⟩

theorem stored_of_loadBoot (h : m.loadBoot image limit = .ok after) : m.Stored 0 image after := by
  obtain ⟨hle, rfl⟩ := loadBoot_eq_ok_iff.1 h
  apply stored_place
  rw [UInt16.toNat_zero, Nat.zero_add]
  exact Nat.le_trans hle (Nat.min_le_right ..)

/-- A write may fill memory and may be empty anywhere. A program leaves a byte free. -/
theorem refused_untrapped_iff (cpu : σ) :
    (¬ ∃ n after, m.loadProgram entry image = .ok (n, after)) ∧ ¬ m.WriteTraps cpu entry image ↔
      entry.toNat + image.length = m.size ∨ image.length = 0 ∧ m.size < entry.toNat := by
  rw [exists_loadProgram_iff, writeTraps_iff, Decidable.not_not, Inside]
  omega

/-- An image that is loaded is written, and one that does not fit leaves memory alone. -/
theorem loads_as_write (m : Memory) (cpu : σ) :
    (∀ entry image,
      ((∃ n after, m.loadProgram entry image = .ok (n, after)) ↔
        entry.toNat + image.length < m.size) ∧
      (∀ n after, m.loadProgram entry image = .ok (n, after) →
        n = image.length ∧ m.Stored entry image after) ∧
      (¬ entry.toNat + image.length < m.size →
        m.loadProgram entry image =
          .error (.programTooLarge image.length (m.size - entry.toNat)) ∧
        m.settle ((m.loadProgram entry image).map Prod.snd) = (false, m)) ∧
      ((¬ ∃ n after, m.loadProgram entry image = .ok (n, after)) ∧
          ¬ m.WriteTraps cpu entry image ↔
        entry.toNat + image.length = m.size ∨ image.length = 0 ∧ m.size < entry.toNat)) ∧
    (∀ limit image,
      ((∃ after, m.loadBoot image limit = .ok after) ↔ image.length ≤ min limit.toNat m.size) ∧
      (∀ after, m.loadBoot image limit = .ok after → m.Stored 0 image after) ∧
      (¬ image.length ≤ min limit.toNat m.size →
        m.loadBoot image limit =
          .error (.bootTooLarge image.length (min limit.toNat m.size)) ∧
        m.settle (m.loadBoot image limit) = (false, m))) ∧
    ∀ entry file,
      (∀ image, file.contents = .ok image →
        m.loadFile entry file = m.loadProgram entry image) ∧
      ∀ cause, file.contents = .error cause →
        m.loadFile entry file = .error (.unreadable file.path cause) ∧
        m.settle ((m.loadFile entry file).map Prod.snd) = (false, m) := by
  refine ⟨?_, ?_, ?_⟩
  · intro entry image
    refine ⟨exists_loadProgram_iff, fun n after => stored_of_loadProgram, ?_,
      refused_untrapped_iff cpu⟩
    intro hl
    rw [loadProgram_of_not_lt hl]
    exact ⟨rfl, rfl⟩
  · intro limit image
    refine ⟨exists_loadBoot_iff, fun after => stored_of_loadBoot, ?_⟩
    intro hl
    rw [loadBoot_of_not_le hl]
    exact ⟨rfl, rfl⟩
  · intro entry file
    refine ⟨?_, ?_⟩
    · intro image hc
      rw [loadFile, hc]
    · intro cause hc
      rw [loadFile, hc]
      exact ⟨rfl, rfl⟩

end ChipFamily.Memory
