import ChipFamily.Memory

namespace ChipFamily

/-- The place of the byte that a forward copy puts at offset `i`. A copy upwards repeats bytes. -/
def copySource (src dst i : Nat) : Nat :=
  if src < dst then src + i % (dst - src) else src + i

theorem copySource_lt (src dst : Nat) {i n : Nat} (h : i < n) :
    copySource src dst i < src + n := by
  rw [copySource]
  split
  · exact Nat.add_lt_add_left (Nat.lt_of_le_of_lt (Nat.mod_le _ _) h) src
  · exact Nat.add_lt_add_left h src

theorem copySource_zero (src dst : Nat) : copySource src dst 0 = src := by
  simp only [copySource, Nat.zero_mod, Nat.add_zero, ite_self]

/-- After one byte is moved, the rest has the same sources, but for the place just copied over. -/
theorem copySource_succ (src dst i : Nat) :
    copySource src dst (i + 1) =
      if dst = copySource (src + 1) (dst + 1) i then src
      else copySource (src + 1) (dst + 1) i := by
  simp only [copySource, Nat.add_lt_add_iff_right, Nat.add_sub_add_right]
  by_cases h : src < dst
  · rw [if_pos h, if_pos h, ← Nat.mod_add_mod]
    have hlt := Nat.mod_lt i (Nat.sub_pos_of_lt h)
    by_cases hlast : i % (dst - src) + 1 = dst - src
    · rw [hlast, Nat.mod_self, if_pos (by omega), Nat.add_zero]
    · rw [Nat.mod_eq_of_lt (by omega), if_neg (by omega)]
      omega
  · rw [if_neg h, if_neg h, if_neg (by omega)]
    omega

theorem getElem?_moveForward (bytes : Array UInt8) (src dst n k : Nat)
    (hs : n = 0 ∨ src + n ≤ bytes.size) (hd : n = 0 ∨ dst + n ≤ bytes.size) :
    (moveForward bytes src dst n)[k]? =
      if dst ≤ k ∧ k < dst + n then bytes[copySource src dst (k - dst)]? else bytes[k]? := by
  induction n generalizing bytes src dst with
  | zero =>
    rw [if_neg (by omega)]
    rfl
  | succ n ih =>
    have hmoved : bytes[src]? = some (bytes.getD src 0) := by
      rw [Array.getD_eq_getD_getElem?, Array.getElem?_eq_getElem (by omega)]
      rfl
    -- The rest of the copy starts one place on, over bytes of which one is already moved.
    rw [moveForward, ih _ _ _ (by simp; omega) (by simp; omega)]
    simp only [Array.getElem?_setIfInBounds]
    by_cases hk : dst = k
    · subst hk
      rw [if_neg (by omega), if_pos rfl, if_pos (by omega), if_pos (by omega), Nat.sub_self,
        copySource_zero, hmoved]
    · rw [if_neg hk]
      by_cases hr : dst + 1 ≤ k ∧ k < dst + 1 + n
      · have hrange : dst ≤ k ∧ k < dst + (n + 1) := by omega
        rw [if_pos hr, if_pos hrange, show k - dst = k - (dst + 1) + 1 by omega,
          copySource_succ]
        by_cases hover : dst = copySource (src + 1) (dst + 1) (k - (dst + 1))
        · rw [if_pos hover, if_pos hover, if_pos (by omega), hmoved]
        · rw [if_neg hover, if_neg hover]
      · rw [if_neg hr, if_neg (by omega)]

namespace Memory

/-- A block of `length` bytes inside `size` bytes of memory. An empty block is inside anywhere. -/
def Inside (size : Nat) (start : Address) (length : Nat) : Prop :=
  length = 0 ∨ start.toNat + length ≤ size

instance (size : Nat) (start : Address) (length : Nat) : Decidable (Inside size start length) :=
  inferInstanceAs (Decidable (_ ∨ _))

variable {m : Memory} {start src dst : Address} {block : List UInt8}

theorem check_of_inside {n : Nat} (h : Inside m.size start n) : m.check start n = .ok () :=
  check_eq_ok_iff.2 h

theorem check_of_not_inside {n : Nat} (h : ¬ Inside m.size start n) :
    m.check start n = .error ⟨start, n, m.size⟩ :=
  if_neg fun hle => h (le_room_iff.1 hle)

theorem read_of_inside {n : UInt16} (h : Inside m.size start n.toNat) :
    m.read start n = .ok (m.bytes.extract start.toNat (start.toNat + n.toNat)).toList := by
  rw [read, check_of_inside h]
  rfl

theorem read_of_not_inside {n : UInt16} (h : ¬ Inside m.size start n.toNat) :
    m.read start n = .error ⟨start, n.toNat, m.size⟩ := by
  rw [read, check_of_not_inside h]
  rfl

theorem write_of_inside {σ : Type} [Processor σ] (cpu : σ) (h : Inside m.size start block.length) :
    m.write cpu start block = (m.place start.toNat block, cpu) := by
  rw [write, check_of_inside h]

theorem write_of_not_inside {σ : Type} [Processor σ] (cpu : σ)
    (h : ¬ Inside m.size start block.length) :
    m.write cpu start block =
      (m, Processor.enterTrap ⟨.outOfBounds, Processor.counter cpu⟩ cpu) := by
  rw [write, check_of_not_inside h]

theorem clear_of_inside {n : UInt16} (h : Inside m.size start n.toNat) :
    m.clear start n = .ok (m.place start.toNat (List.replicate n.toNat 0)) := by
  rw [clear, check_of_inside h]
  rfl

theorem clear_of_not_inside {n : UInt16} (h : ¬ Inside m.size start n.toNat) :
    m.clear start n = .error ⟨start, n.toNat, m.size⟩ := by
  rw [clear, check_of_not_inside h]
  rfl

theorem copy_of_inside {n : UInt16} (hs : Inside m.size src n.toNat)
    (hd : Inside m.size dst n.toNat) :
    ∃ memory, m.copy src dst n = .ok memory ∧
      memory.bytes = moveForward m.bytes src.toNat dst.toNat n.toNat := by
  rw [copy, check_of_inside hs, check_of_inside hd]
  exact ⟨_, rfl, rfl⟩

/-- The source is looked at first. -/
theorem copy_of_not_inside {n : UInt16}
    (h : ¬ (Inside m.size src n.toNat ∧ Inside m.size dst n.toNat)) :
    m.copy src dst n =
      .error ⟨if Inside m.size src n.toNat then dst else src, n.toNat, m.size⟩ := by
  rw [copy]
  by_cases hs : Inside m.size src n.toNat
  · rw [check_of_inside hs, if_pos hs, check_of_not_inside fun hd => h ⟨hs, hd⟩]
    rfl
  · rw [check_of_not_inside hs, if_neg hs]
    rfl

theorem loadBoot_of_le {limit : Address} (h : block.length ≤ min limit.toNat m.size) :
    m.loadBoot block limit = .ok (m.place 0 block) :=
  if_pos h

theorem loadBoot_of_not_le {limit : Address} (h : ¬ block.length ≤ min limit.toNat m.size) :
    m.loadBoot block limit = .error (.bootTooLarge block.length (min limit.toNat m.size)) :=
  if_neg h

theorem lt_room_iff {n : Nat} : n < m.room start ↔ start.toNat + n < m.size := by
  unfold room
  omega

theorem loadProgram_of_lt (h : start.toNat + block.length < m.size) :
    m.loadProgram start block = .ok (block.length, m.place start.toNat block) :=
  if_pos (lt_room_iff.2 h)

theorem loadProgram_of_not_lt (h : ¬ start.toNat + block.length < m.size) :
    m.loadProgram start block = .error (.programTooLarge block.length (m.room start)) :=
  if_neg fun hlt => h (lt_room_iff.1 hlt)

theorem inside_of_lt (h : start.toNat + block.length < m.size) :
    Inside m.size start block.length :=
  .inr (Nat.le_of_lt h)

theorem getElem?_place {first : Nat} (h : block.length = 0 ∨ first + block.length ≤ m.size)
    (k : Nat) :
    (m.place first block).bytes[k]? =
      if first ≤ k ∧ k < first + block.length then block[k - first]? else m.bytes[k]? := by
  rcases h with hnil | hle
  · rw [List.length_eq_zero_iff.1 hnil, if_neg (by simp)]
    rfl
  · exact getElem?_overwrite m.bytes first block k hle

theorem wipe_eq_blank {m : Memory} {size : Nat} (hpos : 0 < size) (hle : size ≤ 0x10000)
    (h : m.size = size) : m.wipe = blank size hpos hle := by
  subst h
  rfl

@[simp] theorem size_wipe (m : Memory) : m.wipe.size = m.size :=
  size_blank ..

/-- A block that was just put in place is read back whole, its length being a word. -/
theorem read_place {m : Memory} {start : Address} {block : List UInt8}
    (h : start.toNat + block.length < m.size) :
    (m.place start.toNat block).read start (UInt16.ofNat block.length) = .ok block := by
  have hn : (UInt16.ofNat block.length).toNat = block.length := by
    have hle : m.size ≤ 0x10000 := m.size_le
    exact UInt16.toNat_ofNat_of_lt (Nat.lt_of_lt_of_le (by omega) hle)
  have hi : Inside (m.place start.toNat block).size start (UInt16.ofNat block.length).toNat := by
    rw [size_place, hn]
    exact inside_of_lt h
  rw [read_of_inside hi, hn]
  congr 1
  apply List.ext_getElem?
  intro i
  have hbytes : (m.place start.toNat block).bytes.size = m.size := size_place ..
  rw [Array.getElem?_toList, Array.getElem?_extract, hbytes,
    getElem?_place (inside_of_lt h)]
  by_cases hi : i < block.length
  · rw [if_pos (by omega), if_pos (by omega), Nat.add_sub_cancel_left]
  · rw [if_neg (by omega), List.getElem?_eq_none (by omega)]

end Memory
end ChipFamily
