import ChipFamily.CommandLine.Options
import ChipFamily.Proofs.Machine.Paths

namespace ChipFamily

variable {text : String}

namespace CommandLine

/-- A range with a length is read as memory reads a path, character for character. -/
theorem Extent.map_ofString?_of_colon (h : ':' ∈ text.toList) :
    (Extent.ofString? text).map (fun e => Memory.Query.block e.start e.length) =
      Memory.Query.ofString? text := by
  have hne : text ≠ "size" := ne_of_apply_ne String.toList (ne_of_mem_of_not_mem' h (by decide))
  obtain ⟨start, length, hcut⟩ := exists_cutAt?_of_mem h
  rw [ofString?, Memory.Query.ofString?, if_neg hne, hcut]
  change ((Address.ofString? start).bind _).map _ = (Address.ofString? start).bind _
  cases Address.ofString? start with
  | none => rfl
  | some a => cases length? length <;> rfl

theorem Extent.ofString?_of_no_colon (h : ':' ∉ text.toList) :
    Extent.ofString? text = (Address.ofString? text).map fun a => ⟨a, 64⟩ := by
  rw [ofString?, cutAt?_eq_none_iff.2 h]

variable (m : Machine) {b : UInt8} {bs : List UInt8}

/-- A path with a length is answered with what a dump of the same range shows. -/
theorem query?_of_colon (h : ':' ∈ text.toList) :
    m.query? ("memory." ++ text) = (Extent.ofString? text).bind fun e =>
      (m.read e.start e.length).toOption.map .bytes := by
  have hne : text ≠ "entry" := ne_of_apply_ne String.toList (ne_of_mem_of_not_mem' h (by decide))
  rw [Machine.query?_memory hne, Memory.query?, ← Extent.map_ofString?_of_colon h, Option.bind_map]
  rfl

theorem query?_eq_bytes_iff (h : ':' ∈ text.toList) :
    m.query? ("memory." ++ text) = some (.bytes bs) ↔
      ∃ e, Extent.ofString? text = some e ∧ m.read e.start e.length = .ok bs := by
  rw [query?_of_colon m h, Option.bind_eq_some_iff]
  apply exists_congr
  intro e
  apply and_congr_right
  intro _
  cases m.read e.start e.length <;> simp [Except.toOption]

theorem query?_eq_none_iff (h : ':' ∈ text.toList) :
    m.query? ("memory." ++ text) = none ↔
      ∀ e, Extent.ofString? text = some e → ∃ cause, m.read e.start e.length = .error cause := by
  rw [query?_of_colon m h, Option.bind_eq_none_iff]
  apply forall_congr'
  intro e
  apply imp_congr_right
  intro _
  cases m.read e.start e.length <;> simp [Except.toOption]

/-- Of the paths without a length the two names are answered too, but not with a byte. -/
theorem query?_eq_byte_iff (h : ':' ∉ text.toList) :
    m.query? ("memory." ++ text) = some (.byte b) ↔
      ∃ a, Extent.ofString? text = some ⟨a, 64⟩ ∧ m.memory.bytes[a.toNat]? = some b := by
  by_cases he : text = "entry"
  · subst he
    exact iff_of_false nofun nofun
  by_cases hs : text = "size"
  · subst hs
    exact iff_of_false nofun nofun
  have hq : m.query? ("memory." ++ text) = (Address.ofString? text).bind fun a =>
      m.memory.bytes[a.toNat]?.map .byte := by
    rw [Machine.query?_memory he, Memory.query?, Memory.Query.ofString?, if_neg hs,
      cutAt?_eq_none_iff.2 h, Option.bind_map]
    apply Option.bind_congr
    intro a _
    exact congrArg (Option.map Reading.byte) Memory.toOption_readByte
  rw [hq, Extent.ofString?_of_no_colon h, Option.bind_eq_some_iff]
  simp

/-- A range on the command line is read as it is in a path, and shows the same bytes. -/
theorem dump_reads_as_query (m : Machine) (text : String) :
    (':' ∈ text.toList →
      (∀ bs, (∃ e, Extent.ofString? text = some e ∧ m.read e.start e.length = .ok bs) ↔
        m.query? ("memory." ++ text) = some (.bytes bs)) ∧
      ((∀ e, Extent.ofString? text = some e → ∃ cause, m.read e.start e.length = .error cause) ↔
        m.query? ("memory." ++ text) = none)) ∧
    (':' ∉ text.toList →
      ((∃ a, Extent.ofString? text = some ⟨a, 64⟩ ∧ a.toNat < m.memory.size) ↔
        ∃ b, m.query? ("memory." ++ text) = some (.byte b)) ∧
      ∀ a b, Extent.ofString? text = some ⟨a, 64⟩ →
        m.query? ("memory." ++ text) = some (.byte b) → m.memory.bytes[a.toNat]? = some b) := by
  constructor
  · intro h
    exact ⟨fun bs => (query?_eq_bytes_iff m h).symm, (query?_eq_none_iff m h).symm⟩
  · intro h
    constructor
    · simp only [query?_eq_byte_iff m h]
      rw [exists_comm]
      apply exists_congr
      intro a
      rw [exists_and_left]
      apply and_congr_right
      intro _
      rw [← Option.isSome_iff_exists, isSome_getElem?]
      rfl
    · intro a b he hq
      obtain ⟨a', he', hb⟩ := (query?_eq_byte_iff m h).1 hq
      obtain rfl : a' = a := congrArg Extent.start (Option.some.inj (he'.symm.trans he))
      exact hb

end CommandLine
end ChipFamily
