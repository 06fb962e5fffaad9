import ChipFamily.Machine
import ChipFamily.Proofs.Memory.Access

namespace ChipFamily

/-- A copy down, and a copy to a block that starts past its source, moves the source as it is. -/
theorem copySource_of_apart {src dst n i : Nat} (h : dst ≤ src ∨ src + n ≤ dst) (hi : i < n) :
    copySource src dst i = src + i := by
  rw [copySource]
  split
  · rw [Nat.mod_eq_of_lt (by omega)]
  · rfl

theorem copySource_of_lt {src dst : Nat} (h : src < dst) (i : Nat) :
    copySource src dst i = src + i % (dst - src) :=
  if_pos h

theorem Machine.copy_of_not_inside {m : Machine} {src dst : Address} {n : UInt16}
    (h : ¬ (Memory.Inside m.memory.size src n.toNat ∧ Memory.Inside m.memory.size dst n.toNat)) :
    (m.copy src dst n).2 = m := by
  rw [copy, Memory.copy_of_not_inside h]
  rfl

namespace Memory

variable {m after : Memory} {src dst : Address} {n : UInt16}

theorem inside_both_iff {size : Nat} :
    Inside size src n.toNat ∧ Inside size dst n.toNat ↔
      n = 0 ∨ src.toNat + n.toNat ≤ size ∧ dst.toNat + n.toNat ≤ size := by
  rw [Inside, Inside, ← or_and_left, ← UInt16.toNat_inj]
  rfl

theorem inside_of_copy (h : m.copy src dst n = .ok after) :
    Inside m.size src n.toNat ∧ Inside m.size dst n.toNat := by
  apply Decidable.byContradiction
  intro hout
  rw [copy_of_not_inside hout] at h
  cases h

theorem bytes_copy (h : m.copy src dst n = .ok after) :
    after.bytes = moveForward m.bytes src.toNat dst.toNat n.toNat := by
  obtain ⟨hs, hd⟩ := inside_of_copy h
  obtain ⟨memory, hm, hbytes⟩ := copy_of_inside hs hd
  cases hm.symm.trans h
  exact hbytes

theorem size_copy (h : m.copy src dst n = .ok after) : after.size = m.size := by
  rw [size, bytes_copy h, size_moveForward]
  rfl

/-- Outside the destination all bytes stay, and inside each is one of the source. -/
theorem getElem?_copy (h : m.copy src dst n = .ok after) (k : Nat) :
    after.bytes[k]? =
      if dst.toNat ≤ k ∧ k < dst.toNat + n.toNat then
        m.bytes[copySource src.toNat dst.toNat (k - dst.toNat)]?
      else m.bytes[k]? := by
  obtain ⟨hs, hd⟩ := inside_of_copy h
  rw [bytes_copy h, getElem?_moveForward _ _ _ _ _ hs hd]

theorem getElem?_copy_offset (h : m.copy src dst n = .ok after) {i : Nat} (hi : i < n.toNat) :
    after.bytes[dst.toNat + i]? = m.bytes[copySource src.toNat dst.toNat i]? := by
  rw [getElem?_copy h, if_pos (by omega), Nat.add_sub_cancel_left]

/-- A copy in closed form, which repeats itself where it has written over its source. -/
theorem copy_closed_form (m : Memory) (src dst : Address) (n : UInt16) :
    let fits := n = 0 ∨ src.toNat + n.toNat ≤ m.size ∧ dst.toNat + n.toNat ≤ m.size
    ((∃ after, m.copy src dst n = .ok after) ↔ fits) ∧
      (¬ fits →
        m.copy src dst n =
            .error ⟨if Inside m.size src n.toNat then dst else src, n.toNat, m.size⟩ ∧
          ∀ machine : Machine, machine.memory = m → (machine.copy src dst n).2 = machine) ∧
      ∀ after, m.copy src dst n = .ok after →
        after.size = m.size ∧
        (∀ k, k < dst.toNat ∨ dst.toNat + n.toNat ≤ k → after.bytes[k]? = m.bytes[k]?) ∧
        ∀ i, i < n.toNat →
          dst.toNat + i < m.size ∧
          (dst ≤ src ∨ src.toNat + n.toNat ≤ dst.toNat →
            after.bytes[dst.toNat + i]? = m.bytes[src.toNat + i]?) ∧
          (src < dst ∧ dst.toNat < src.toNat + n.toNat →
            after.bytes[dst.toNat + i]? =
              m.bytes[src.toNat + i % (dst.toNat - src.toNat)]?) := by
  intro fits
  have hfits : Inside m.size src n.toNat ∧ Inside m.size dst n.toNat ↔ fits := inside_both_iff
  refine ⟨?_, ?_, ?_⟩
  · constructor
    · rintro ⟨after, h⟩
      exact hfits.1 (inside_of_copy h)
    · intro h
      obtain ⟨after, hcopy, _⟩ := copy_of_inside (hfits.2 h).1 (hfits.2 h).2
      exact ⟨after, hcopy⟩
  · intro h
    refine ⟨copy_of_not_inside fun hin => h (hfits.1 hin), ?_⟩
    rintro machine rfl
    exact Machine.copy_of_not_inside fun hin => h (hfits.1 hin)
  · intro after h
    refine ⟨size_copy h, ?_, ?_⟩
    · intro k hk
      rw [getElem?_copy h, if_neg (by omega)]
    · intro i hi
      have hd := (inside_of_copy h).2.resolve_left (by omega)
      refine ⟨by omega, ?_, ?_⟩
      · intro hapart
        rw [getElem?_copy_offset h hi, copySource_of_apart _ hi]
        exact hapart.imp_left UInt16.le_iff_toNat_le.1
      · rintro ⟨hlt, _⟩
        rw [getElem?_copy_offset h hi, copySource_of_lt (UInt16.lt_iff_toNat_lt.1 hlt)]

/-- Five bytes go three places up, so that the last two of them are the first two again. -/
example : moveForward #[1, 2, 3, 0, 0, 0, 0, 0] 0 3 5 = #[1, 2, 3, 1, 2, 3, 1, 2] := by decide

end Memory
end ChipFamily
