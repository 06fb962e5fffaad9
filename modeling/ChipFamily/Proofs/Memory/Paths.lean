import ChipFamily.Query
import ChipFamily.Proofs.Memory.Access
import ChipFamily.Proofs.Text.Address
import ChipFamily.Proofs.Text.Cut

namespace ChipFamily

variable {form text path start length : String} {a : Address} {r : Reading}

theorem Address.colon_not_mem (h : Address.ofString? text = some a) : ':' ∉ text.toList := by
  intro hc
  have hnot : ':' ∉ "$xX+0123456789ABCDEFabcdef".toList := by decide
  exact hnot ((Address.ofString?_eq_some_iff.1 h).mem hc)

namespace Memory

variable {m : Memory} {n : UInt16} {bs : List UInt8}

theorem toOption_readByte : (m.readByte a).toOption = m.bytes[a.toNat]? := by
  have hsize : m.size = m.bytes.size := rfl
  rw [readByte]
  by_cases h : Inside m.size a 1
  · have hlt : a.toNat < m.bytes.size := by
      unfold Inside at h
      omega
    rw [check_of_inside h, Array.getD_eq_getD_getElem?, Array.getElem?_eq_getElem hlt]
    rfl
  · have hge : m.bytes.size ≤ a.toNat := by
      unfold Inside at h
      omega
    rw [check_of_not_inside h, Array.getElem?_eq_none hge]
    rfl

theorem toOption_read_eq_some_iff :
    (m.read a n).toOption = some bs ↔ Inside m.size a n.toNat ∧ bs.length = n.toNat ∧
      ∀ i, i < n.toNat → bs[i]? = m.bytes[a.toNat + i]? := by
  have hsize : m.size = m.bytes.size := rfl
  by_cases h : Inside m.size a n.toNat
  · rw [read_of_inside h, and_iff_right h]
    have hlength : (m.bytes.extract a.toNat (a.toNat + n.toNat)).toList.length = n.toNat := by
      unfold Inside at h
      rw [Array.length_toList, Array.size_extract]
      omega
    have hbytes : ∀ i, i < n.toNat →
        (m.bytes.extract a.toNat (a.toNat + n.toNat)).toList[i]? = m.bytes[a.toNat + i]? := by
      intro i hi
      unfold Inside at h
      rw [Array.getElem?_toList, Array.getElem?_extract, if_pos (by omega)]
    constructor
    · intro heq
      cases heq
      exact ⟨hlength, hbytes⟩
    · rintro ⟨hl, hb⟩
      refine congrArg some (List.ext_getElem? fun i => ?_)
      by_cases hi : i < n.toNat
      · rw [hb i hi, hbytes i hi]
      · rw [List.getElem?_eq_none (by omega), List.getElem?_eq_none (by omega)]
  · rw [read_of_not_inside h]
    exact iff_of_false nofun fun hin => h hin.1

theorem Query.ofString?_of_address (ha : Address.ofString? text = some a) :
    Query.ofString? text = some (.byte a) := by
  have hne : text ≠ "size" := by
    rintro rfl
    cases ha
  rw [ofString?, if_neg hne, cutAt?_eq_none_iff.2 (Address.colon_not_mem ha), ha]
  rfl

theorem Query.ofString?_append_colon (ha : Address.ofString? start = some a)
    (hn : length? length = some n) :
    Query.ofString? (start ++ ":" ++ length) = some (.block a n) := by
  have hcut : cutAt? ':' (start ++ ":" ++ length) = some (start, length) := by
    apply cutAt?_of_toList (Address.colon_not_mem ha)
    rw [String.toList_append, String.toList_append, List.append_assoc]
    rfl
  have hne : start ++ ":" ++ length ≠ "size" := by
    intro heq
    rw [heq] at hcut
    cases hcut
  rw [ofString?, if_neg hne, hcut]
  change (Address.ofString? start).bind _ = _
  rw [ha, hn]
  rfl

/-- What memory shows at a path in which the places of a form are filled. -/
inductive Shows (m : Memory) : (form path : String) → Reading → Prop where
  | byte {text : String} {a : Address} (ha : Address.ofString? text = some a)
      (h : a.toNat < m.bytes.size) : Shows m "<address>" text (.byte m.bytes[a.toNat])
  | block {start length : String} {a : Address} {n : Nat} {bs : List UInt8}
      (ha : Address.ofString? start = some a) (hn : Numeral 10 length.toList n) (hle : n ≤ 65535)
      (hin : Inside m.size a n) (hlength : bs.length = n)
      (hbs : ∀ i, i < n → bs[i]? = m.bytes[a.toNat + i]?) :
      Shows m "<address>:<len>" (start ++ ":" ++ length) (.bytes bs)

theorem shows_of_query? (hne : text ≠ "size") (h : m.query? text = some r) :
    ∃ form, m.Shows form text r := by
  obtain ⟨q, hq, hr⟩ := Option.bind_eq_some_iff.1 h
  rw [Query.ofString?, if_neg hne] at hq
  split at hq
  · rename_i start length hcut
    obtain ⟨-, htext⟩ := cutAt?_eq_some_iff.1 hcut
    obtain rfl : text = start ++ ":" ++ length := by
      rw [← String.toList_inj, String.toList_append, String.toList_append, htext,
        List.append_assoc]
      rfl
    obtain ⟨a, ha, hq⟩ := Option.bind_eq_some_iff.1 hq
    obtain ⟨n, hn, hq⟩ := Option.bind_eq_some_iff.1 hq
    cases hq
    obtain ⟨bs, hbs, rfl⟩ := Option.map_eq_some_iff.1 hr
    obtain ⟨hin, hlength, hbs⟩ := toOption_read_eq_some_iff.1 hbs
    exact ⟨_, .block ha (length?_eq_some_iff.1 hn) (Nat.le_of_lt_succ n.toNat_lt) hin hlength hbs⟩
  · obtain ⟨a, ha, rfl⟩ := Option.map_eq_some_iff.1 hq
    obtain ⟨b, hb, rfl⟩ := Option.map_eq_some_iff.1 hr
    rw [toOption_readByte] at hb
    obtain ⟨hlt, rfl⟩ := Array.getElem?_eq_some_iff.1 hb
    exact ⟨_, .byte ha hlt⟩

theorem query?_of_shows (h : m.Shows form text r) : m.query? text = some r := by
  cases h with
  | byte ha hlt =>
    rw [query?, Query.ofString?_of_address ha, Option.bind_some, answer?, toOption_readByte,
      Array.getElem?_eq_getElem hlt]
    rfl
  | block ha hn hle hin hlength hbs =>
    rename_i length a n bs
    have hw : (UInt16.ofNat n).toNat = n := UInt16.toNat_ofNat_of_lt (Nat.lt_succ_of_le hle)
    have hlen : length? length = some (UInt16.ofNat n) := length?_eq_some_iff.2 (by rwa [hw])
    have hread : (m.read a (UInt16.ofNat n)).toOption = some bs := by
      rw [toOption_read_eq_some_iff, hw]
      exact ⟨hin, hlength, hbs⟩
    rw [query?, Query.ofString?_append_colon ha hlen, Option.bind_some, answer?, hread]
    rfl

theorem query?_eq_some_iff :
    m.query? text = some r ↔
      (text = "size" ∧ r = .count (UInt32.ofNat m.size)) ∨ ∃ form, m.Shows form text r := by
  constructor
  · intro h
    by_cases hs : text = "size"
    · subst hs
      cases h
      exact .inl ⟨rfl, rfl⟩
    · exact .inr (shows_of_query? hs h)
  · rintro (⟨rfl, rfl⟩ | ⟨form, h⟩)
    · rfl
    · exact query?_of_shows h

/-- A block of memory can be shown if it is inside. -/
theorem exists_shows_iff :
    (∃ form r, m.Shows form text r) ↔
      (∃ a, Address.ofString? text = some a ∧ a.toNat < m.size) ∨
      ∃ start length a n, text = start ++ ":" ++ length ∧ ':' ∉ start.toList ∧
        Address.ofString? start = some a ∧ Numeral 10 length.toList n ∧ n ≤ 65535 ∧
        (n = 0 ∨ a.toNat + n ≤ m.size) := by
  constructor
  · rintro ⟨form, r, h⟩
    cases h with
    | byte ha hlt => exact .inl ⟨_, ha, hlt⟩
    | block ha hn hle hin _ _ =>
      exact .inr ⟨_, _, _, _, rfl, Address.colon_not_mem ha, ha, hn, hle, hin⟩
  · rintro (⟨a, ha, hlt⟩ | ⟨start, length, a, n, rfl, -, ha, hn, hle, hin⟩)
    · exact ⟨_, _, .byte ha hlt⟩
    · have hw : (UInt16.ofNat n).toNat = n := UInt16.toNat_ofNat_of_lt (Nat.lt_succ_of_le hle)
      have hread := read_of_inside (n := .ofNat n) (by rwa [hw])
      obtain ⟨-, hlength, hbs⟩ := toOption_read_eq_some_iff.1 (congrArg Except.toOption hread)
      rw [hw] at hlength hbs
      exact ⟨_, _, .block ha hn hle hin hlength hbs⟩

end Memory

end ChipFamily
