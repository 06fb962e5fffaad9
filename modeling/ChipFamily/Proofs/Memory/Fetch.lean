import ChipFamily.Proofs.Except
import ChipFamily.Proofs.Memory.Paths

namespace ChipFamily.Memory

variable {m : Memory} {a pc : Address}

theorem toNat_wordOf (high low : UInt8) :
    (wordOf high low).toNat = 256 * high.toNat + low.toNat := by
  have hh := high.toNat_lt
  have hl := low.toNat_lt
  rw [wordOf, UInt16.toNat_add, UInt16.toNat_mul, UInt8.toNat_toUInt16, UInt8.toNat_toUInt16]
  change (256 * high.toNat % 65536 + low.toNat) % 65536 = _
  omega

theorem inside_two_iff : Inside m.size pc 2 ↔ pc.toNat + 1 < m.size := by
  unfold Inside
  omega

/-- The address after a byte that is not the last one of memory does not wrap. -/
theorem toNat_add_one (h : pc.toNat + 1 < m.size) : (pc + 1).toNat = pc.toNat + 1 := by
  have hle : m.size ≤ 65536 := m.size_le
  rw [UInt16.toNat_add, UInt16.toNat_one]
  exact Nat.mod_eq_of_lt (by omega)

theorem readByte_of_lt (h : a.toNat < m.bytes.size) : m.readByte a = .ok m.bytes[a.toNat] :=
  toOption_eq_some_iff.1 (toOption_readByte.trans (Array.getElem?_eq_getElem h))

section InMemory

variable (h : pc.toNat + 1 < m.bytes.size)
include h

theorem fetch?_of_lt :
    m.fetch? pc = some (wordOf m.bytes[pc.toNat] m.bytes[pc.toNat + 1]) := by
  rw [fetch?, Array.getElem?_eq_getElem h, Array.getElem?_eq_getElem (Nat.lt_of_succ_lt h)]
  rfl

theorem checkedFetch_of_lt :
    m.checkedFetch pc = .ok (wordOf m.bytes[pc.toNat] m.bytes[pc.toNat + 1]) := by
  rw [checkedFetch, check_of_inside (inside_two_iff.2 h), Array.getD_eq_getD_getElem?,
    Array.getD_eq_getD_getElem?, Array.getElem?_eq_getElem h,
    Array.getElem?_eq_getElem (Nat.lt_of_succ_lt h)]
  rfl

theorem readByte_add_one_of_lt : m.readByte (pc + 1) = .ok m.bytes[pc.toNat + 1] := by
  rw [← toOption_eq_some_iff, toOption_readByte, toNat_add_one h, Array.getElem?_eq_getElem h]

theorem read_two_of_lt : m.read pc 2 = .ok [m.bytes[pc.toNat], m.bytes[pc.toNat + 1]] := by
  have hin : Inside m.size pc (2 : UInt16).toNat := inside_two_iff.2 h
  rw [read_of_inside hin, Array.toList_extract, List.extract_eq_take_drop,
    Nat.add_sub_cancel_left, List.drop_eq_getElem_cons (Nat.lt_of_succ_lt h),
    List.drop_eq_getElem_cons h]
  rfl

end InMemory

/-- The low byte decides, since there is no higher address in memory than its own. -/
theorem fetch?_eq_none_iff : m.fetch? pc = none ↔ m.size ≤ pc.toNat + 1 := by
  by_cases h : pc.toNat + 1 < m.size
  · rw [fetch?_of_lt h]
    exact iff_of_false nofun (Nat.not_le.2 h)
  · have hlow : m.bytes[pc.toNat + 1]? = none := Array.getElem?_eq_none (Nat.not_lt.1 h)
    rw [fetch?, hlow]
    cases m.bytes[pc.toNat]? <;> exact iff_of_true rfl (Nat.not_lt.1 h)

theorem exists_check_two_eq_error_iff :
    (∃ e, m.check pc 2 = .error e) ↔ m.size ≤ pc.toNat + 1 := by
  by_cases h : Inside m.size pc 2
  · rw [check_of_inside h]
    exact iff_of_false nofun (Nat.not_le.2 (inside_two_iff.1 h))
  · rw [check_of_not_inside h]
    exact iff_of_true ⟨_, rfl⟩ (Nat.not_lt.1 fun hlt => h (inside_two_iff.2 hlt))

theorem exists_checkedFetch_eq_error_iff :
    (∃ e, m.checkedFetch pc = .error e) ↔ m.size ≤ pc.toNat + 1 :=
  exists_bind_pure_eq_error_iff.trans exists_check_two_eq_error_iff

theorem exists_read_two_eq_error_iff :
    (∃ e, m.read pc 2 = .error e) ↔ m.size ≤ pc.toNat + 1 :=
  exists_bind_pure_eq_error_iff.trans exists_check_two_eq_error_iff

/-- A fetch gives the word of two bytes, and fails exactly where a checked one does. -/
theorem fetch_as_checkedFetch (m : Memory) :
    (∀ pc : Address,
      (m.fetch? pc = none ↔ m.size ≤ pc.toNat + 1) ∧
      ((∃ e, m.checkedFetch pc = .error e) ↔ m.size ≤ pc.toNat + 1) ∧
      ((∃ e, m.read pc 2 = .error e) ↔ m.size ≤ pc.toNat + 1) ∧
      (pc.toNat + 1 < m.size → ∃ w high low,
        m.fetch? pc = some w ∧ m.checkedFetch pc = .ok w ∧
        w.toNat = 256 * high.toNat + low.toNat ∧ m.read pc 2 = .ok [high, low] ∧
        m.readByte pc = .ok high ∧ m.readByte (pc + 1) = .ok low ∧
        (pc + 1).toNat = pc.toNat + 1)) ∧
    (m.size = 65536 → m.fetch? 65535 = none ∧ ∃ e, m.checkedFetch 65535 = .error e) ∧
    (m.size = 1 → ∀ pc, m.fetch? pc = none ∧ ∃ e, m.checkedFetch pc = .error e) := by
  refine ⟨?_, ?_, ?_⟩
  · intro pc
    refine ⟨fetch?_eq_none_iff, exists_checkedFetch_eq_error_iff, exists_read_two_eq_error_iff, ?_⟩
    intro h
    exact ⟨_, _, _, fetch?_of_lt h, checkedFetch_of_lt h, toNat_wordOf _ _, read_two_of_lt h,
      readByte_of_lt (Nat.lt_of_succ_lt h), readByte_add_one_of_lt h, toNat_add_one h⟩
  · intro hsize
    have htop : m.size ≤ (65535 : Address).toNat + 1 := Nat.le_of_eq hsize
    exact ⟨fetch?_eq_none_iff.2 htop, exists_checkedFetch_eq_error_iff.2 htop⟩
  · intro hsize pc
    have hlow : m.size ≤ pc.toNat + 1 := by omega
    exact ⟨fetch?_eq_none_iff.2 hlow, exists_checkedFetch_eq_error_iff.2 hlow⟩

/-- The last byte begins no word. -/
example :
    let m : Memory := ⟨#[0xA2, 0x34], by decide, by decide⟩
    m.fetch? 0 = some 0xA234 ∧ m.fetch? 1 = none := by decide

end ChipFamily.Memory
