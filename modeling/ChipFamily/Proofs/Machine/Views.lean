import ChipFamily.Proofs.Except
import ChipFamily.Proofs.Machine.Paths
import ChipFamily.Proofs.ReturnStack.OnRegisters
import ChipFamily.Proofs.Text.Hex

namespace ChipFamily

variable {text start length : String} {r : Reading} {bs : List UInt8} {n : Nat}

theorem StackPointer.toNat_depth_eq (p : StackPointer) :
    p.depth.toNat = if p = .empty then 0 else p.toNat + 1 := by
  split
  · rename_i h
    rw [depth_eq_zero_iff.2 h, UInt16.toNat_zero]
  · rename_i h
    exact toNat_depth h

theorem Fault.text_ne_none (f : Fault) : f.text ≠ "none" := by
  have hspace : ' ' ∈ f.text.toList := by
    simp only [Fault.text, String.toList_append, List.mem_append]
    exact .inl (.inr (by decide))
  exact ne_of_apply_ne String.toList (ne_of_mem_of_not_mem' hspace (by decide))

theorem Address.written_toString (n : Nat) : Written (toString n).toList n :=
  .decimal (numeral_toString n).not_marked (numeral_toString n)

theorem Address.word_of_written (h : Written text.toList n) : ofString? text = word? n := by
  rw [← ofString?_of_written h, String.ofList_toList]

theorem Address.Written.ne_of_not_subset {name : String} (h : Written text.toList n)
    (hname : ¬ name.toList ⊆ "$xX+0123456789ABCDEFabcdef".toList) : text ≠ name := by
  rintro rfl
  exact hname fun c hc => h.mem hc

theorem exists_word (h : n < 65536) : ∃ w : UInt16, w.toNat = n :=
  ⟨.ofNat n, UInt16.toNat_ofNat_of_lt h⟩

theorem colon_mem_range (start length : String) : ':' ∈ (start ++ ":" ++ length).toList := by
  simp only [String.toList_append, List.mem_append]
  exact .inl (.inr (by decide))

theorem range_ne {name : String} (h : ':' ∉ name.toList) : start ++ ":" ++ length ≠ name :=
  ne_of_apply_ne String.toList (ne_of_mem_of_not_mem' (colon_mem_range start length) h)

namespace ReturnStack

theorem length_entries (s : ReturnStack) (top : StackPointer) :
    (s.entries top).length = min top.depth.toNat s.capacity := by
  rw [entries, List.length_take, Array.length_toList]
  rfl

theorem getElem?_entries {s : ReturnStack} {top : StackPointer} {i : Nat}
    (h : i < (s.entries top).length) : (s.entries top)[i]? = s.slots[i]? := by
  have hlt : i < top.depth.toNat := Nat.lt_of_lt_of_le h (List.length_take_le ..)
  rw [entries, List.getElem?_take_of_lt hlt, Array.getElem?_toList]

end ReturnStack

namespace Memory

variable {m : Memory} {q : Query}

theorem Query.ofString?_of_written (h : Address.Written text.toList n) :
    ofString? text = (word? n).map .byte := by
  have hne : text ≠ "size" := h.ne_of_not_subset (by decide)
  have hcolon : ':' ∉ text.toList := fun hc => absurd (h.mem hc) (by decide)
  rw [ofString?, if_neg hne, cutAt?_eq_none_iff.2 hcolon, ← Address.word_of_written h]

/-- A number that is written as an address is answered with its byte, if it has one. -/
theorem query?_of_written (h : Address.Written text.toList n) :
    m.query? text = m.bytes[n]?.map .byte := by
  rw [query?, Query.ofString?_of_written h]
  by_cases hn : n < UInt16.size
  · have hw : (UInt16.ofNat n).toNat = n := UInt16.toNat_ofNat_of_lt hn
    rw [word?, if_pos hn]
    change (m.readByte (UInt16.ofNat n)).toOption.map Reading.byte = _
    rw [toOption_readByte, hw]
  · have hout : m.bytes.size ≤ n := Nat.le_trans m.size_le (Nat.not_lt.1 hn)
    rw [word?, if_neg hn, Array.getElem?_eq_none hout]
    rfl

/-- No length has a colon in it, so that a range which is read has no other colon. -/
theorem Query.ofString?_range_eq_some_iff :
    ofString? (start ++ ":" ++ length) = some q ↔
      ∃ a n, Address.ofString? start = some a ∧ length? length = some n ∧ q = .block a n := by
  constructor
  · intro h
    have hne : start ++ ":" ++ length ≠ "size" := range_ne (by decide)
    obtain ⟨head, rest, hcut⟩ := exists_cutAt?_of_mem (colon_mem_range start length)
    obtain ⟨hhead, htext⟩ := cutAt?_eq_some_iff.1 hcut
    rw [ofString?, if_neg hne, hcut] at h
    obtain ⟨a, ha, h⟩ := Option.bind_eq_some_iff.1 h
    obtain ⟨n, hn, h⟩ := Option.bind_eq_some_iff.1 h
    cases h
    have hrest : ':' ∉ rest.toList :=
      fun hc => absurd ((length?_eq_some_iff.1 hn).mem hc) (by decide)
    have hparts : head.toList ++ ':' :: rest.toList = start.toList ++ ':' :: length.toList := by
      rw [← htext, String.toList_append, String.toList_append, List.append_assoc]
      rfl
    obtain ⟨hs, -, hl⟩ := (List.append_cons_inj_of_notMem hhead hrest).1 hparts
    obtain rfl := String.toList_inj.1 hs
    obtain rfl := String.toList_inj.1 hl
    exact ⟨a, n, ha, hn, rfl⟩
  · rintro ⟨a, n, ha, hn, rfl⟩
    exact ofString?_append_colon ha hn

end Memory

namespace Machine

variable {m : Machine}

/-- The readings of the return stack. Its entries are what the slots below its depth show. -/
structure StackReadings (m : Machine) (depth : UInt16) (capacity : UInt32)
    (entries : List Reading) : Prop where
  depth_shown : m.query? "stack.depth" = some (.word depth)
  capacity_shown : m.query? "stack.capacity" = some (.count capacity)
  entries_shown : m.query? "stack.entries" = some (.list entries)
  depth_eq : depth.toNat =
    if m.registers.pointer = .empty then 0 else m.registers.pointer.toNat + 1
  length_eq : entries.length = min depth.toNat capacity.toNat
  slot_shown (i : Nat) (hi : i < entries.length) (text : String) (hn : Numeral 10 text.toList i) :
    m.query? ("stack." ++ text) = some entries[i]

/-- The readings of the trap. A pending one shows the text of the fault that is taken next. -/
structure TrapReadings (m : Machine) (pending : Bool) (text : String) : Prop where
  pending_shown : m.query? "cpu.trap_pending" = some (.flag pending)
  text_shown : m.query? "cpu.trap" = some (.text text)
  pending_iff : pending = true ↔ text ≠ "none"
  taken : pending = true → ∃ fault, m.takeTrap.1 = some fault ∧ text = fault.text

theorem query?_memory_of_written (h : Address.Written text.toList n) :
    m.query? ("memory." ++ text) = m.memory.bytes[n]?.map .byte := by
  have hne : text ≠ "entry" := h.ne_of_not_subset (by decide)
  rw [query?_memory hne, Memory.query?_of_written h]

theorem query?_range_eq_some_iff :
    m.query? ("memory." ++ (start ++ ":" ++ length)) = some r ↔
      ∃ a n bs, Address.ofString? start = some a ∧ length? length = some n ∧
        m.memory.read a n = .ok bs ∧ r = .bytes bs := by
  have hne : start ++ ":" ++ length ≠ "entry" := range_ne (by decide)
  rw [query?_memory hne, Memory.query?, Option.bind_eq_some_iff]
  constructor
  · rintro ⟨q, hq, hr⟩
    obtain ⟨a, n, ha, hn, rfl⟩ := Memory.Query.ofString?_range_eq_some_iff.1 hq
    obtain ⟨bs, hbs, rfl⟩ := Option.map_eq_some_iff.1 hr
    exact ⟨a, n, bs, ha, hn, toOption_eq_some_iff.1 hbs, rfl⟩
  · rintro ⟨a, n, bs, ha, hn, hbs, rfl⟩
    refine ⟨.block a n, Memory.Query.ofString?_range_eq_some_iff.2 ⟨a, n, ha, hn, rfl⟩, ?_⟩
    rw [Memory.answer?, hbs]
    rfl

theorem query?_byte_of_range
    (h : m.query? ("memory." ++ (start ++ ":" ++ length)) = some (.bytes bs)) :
    ∃ a n, Address.ofString? start = some a ∧ length? length = some n ∧ bs.length = n.toNat ∧
      ∀ i (hi : i < bs.length) text, Address.Written text.toList (a.toNat + i) →
        m.query? ("memory." ++ text) = some (.byte bs[i]) := by
  obtain ⟨a, n, bs, ha, hn, hread, hr⟩ := query?_range_eq_some_iff.1 h
  cases hr
  obtain ⟨-, hlength, hbytes⟩ :=
    Memory.toOption_read_eq_some_iff.1 (toOption_eq_some_iff.2 hread)
  refine ⟨a, n, ha, hn, hlength, ?_⟩
  intro i hi text hw
  rw [query?_memory_of_written hw, ← hbytes i (hlength ▸ hi), List.getElem?_eq_getElem hi]
  rfl

/-- The byte at the highest address of a range is enough for the whole range. -/
theorem exists_query?_range {a : Nat} (hpos : 1 ≤ n) (hle : n ≤ 65535)
    (h : ∀ i, i < n → ∃ text r, Address.Written text.toList (a + i) ∧
      m.query? ("memory." ++ text) = some r)
    (hs : Address.Written start.toList a) (hl : Numeral 10 length.toList n) :
    ∃ bs, m.query? ("memory." ++ (start ++ ":" ++ length)) = some (.bytes bs) := by
  obtain ⟨text, r, hw, hr⟩ := h (n - 1) (by omega)
  rw [query?_memory_of_written hw] at hr
  obtain ⟨b, hb, -⟩ := Option.map_eq_some_iff.1 hr
  obtain ⟨hlast, -⟩ := Array.getElem?_eq_some_iff.1 hb
  have hsize : m.memory.bytes.size ≤ 65536 := m.memory.size_le
  obtain ⟨a, rfl⟩ := exists_word (n := a) (by omega)
  obtain ⟨n, rfl⟩ := exists_word (n := n) (by omega)
  have hin : Memory.Inside m.memory.size a n.toNat := by
    change n.toNat = 0 ∨ a.toNat + n.toNat ≤ m.memory.bytes.size
    omega
  have hread := Memory.read_of_inside hin
  rw [← Address.ofString?_eq_some_iff] at hs
  rw [← length?_eq_some_iff] at hl
  exact ⟨_, query?_range_eq_some_iff.2 ⟨a, n, _, hs, hl, hread, rfl⟩⟩

theorem query?_slot_of_entries {i : Nat} (hi : i < (m.stack.entries m.registers.pointer).length)
    (hn : Numeral 10 text.toList i) :
    m.query? ("stack." ++ text) = some (.word (m.stack.entries m.registers.pointer)[i]) := by
  have hslot := ReturnStack.getElem?_entries hi
  rw [List.getElem?_eq_getElem hi] at hslot
  obtain ⟨hlt, hslot⟩ := Array.getElem?_eq_some_iff.1 hslot.symm
  rw [← hslot]
  exact query?_of_shows (.stack (.slot hn hlt))

theorem stackReadings (m : Machine) :
    m.StackReadings m.registers.pointer.depth (.ofNat m.stack.capacity)
      ((m.stack.entries m.registers.pointer).map .word) where
  depth_shown := rfl
  capacity_shown := rfl
  entries_shown := rfl
  depth_eq := m.registers.pointer.toNat_depth_eq
  length_eq := by
    have hfit : m.stack.capacity < UInt32.size := Nat.lt_trans m.stack.capacity_lt (by decide)
    have hcapacity : (UInt32.ofNat m.stack.capacity).toNat = m.stack.capacity :=
      UInt32.toNat_ofNat_of_lt hfit
    rw [List.length_map, ReturnStack.length_entries, hcapacity]
  slot_shown i hi text hn := by
    rw [List.length_map] at hi
    rw [query?_slot_of_entries hi hn, List.getElem_map]

theorem trapReadings (m : Machine) :
    m.TrapReadings m.registers.pending.isSome (m.registers.pending.elim "none" Fault.text) where
  pending_shown := rfl
  text_shown := rfl
  pending_iff := by
    cases m.registers.pending with
    | none => exact iff_of_false nofun fun hne => hne rfl
    | some fault => exact iff_of_true rfl fault.text_ne_none
  taken hpending := by
    obtain ⟨fault, hfault⟩ := Option.isSome_iff_exists.1 hpending
    rw [hfault]
    exact ⟨fault, hfault, rfl⟩

/-- What a machine shows in more than one way it shows alike. -/
theorem views_agree (m : Machine) :
    (∃ depth capacity entries, m.StackReadings depth capacity entries) ∧
    (∀ start length bs,
      m.query? ("memory." ++ (start ++ ":" ++ length)) = some (.bytes bs) →
        ∃ a n, Address.ofString? start = some a ∧ length? length = some n ∧
          bs.length = n.toNat ∧ ∀ i (hi : i < bs.length) text,
            Address.Written text.toList (a.toNat + i) →
              m.query? ("memory." ++ text) = some (.byte bs[i])) ∧
    (∀ a n, 1 ≤ n → n ≤ 65535 →
      (∀ i, i < n → ∃ text r, Address.Written text.toList (a + i) ∧
        m.query? ("memory." ++ text) = some r) →
      ∀ start length : String, Address.Written start.toList a → Numeral 10 length.toList n →
        ∃ bs, m.query? ("memory." ++ (start ++ ":" ++ length)) = some (.bytes bs)) ∧
    (∃ pending text, m.TrapReadings pending text) ∧
    (∀ n : Nat, Numeral 10 (toString n).toList n ∧ Address.Written (toString n).toList n) ∧
    ∀ a : Address, Address.Written a.text.toList a.toNat := by
  refine ⟨⟨_, _, _, m.stackReadings⟩, fun start length bs => query?_byte_of_range, ?_,
    ⟨_, _, m.trapReadings⟩, ?_, Address.written_text⟩
  · intro a n hpos hle h start length hs hl
    exact exists_query?_range hpos hle h hs hl
  · intro n
    exact ⟨numeral_toString n, Address.written_toString n⟩

end Machine
end ChipFamily
