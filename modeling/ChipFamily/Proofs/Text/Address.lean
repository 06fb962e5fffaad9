import ChipFamily.Proofs.Text.Numeral

namespace ChipFamily

/-- What stands before the numeral of a hexadecimal address. -/
def hexMarks : List (List Char) := [['$'], ['0', 'x'], ['0', 'X']]

/-- A hexadecimal numeral after a mark, or a decimal one without. -/
inductive Address.Written : List Char → Nat → Prop where
  | hexadecimal (mark : List Char) {cs : List Char} {n : Nat} (hm : mark ∈ hexMarks)
      (h : Numeral 16 cs n) : Written (mark ++ cs) n
  | decimal {cs : List Char} {n : Nat} (hm : ∀ mark ∈ hexMarks, ¬ mark <+: cs)
      (h : Numeral 10 cs n) : Written cs n

variable {base n : Nat} {c : Char} {mark cs : List Char} {text : String} {a : Address}

theorem Numeral.mem (h : Numeral base cs n) (hc : c ∈ cs) :
    c ∈ "+0123456789ABCDEFabcdef".toList := by
  have hplus : '+' ∈ "+0123456789ABCDEFabcdef".toList := by decide
  cases h with
  | plain h => exact .tail _ (h.mem hc)
  | signed h =>
    obtain rfl | hc := List.mem_cons.1 hc
    · exact hplus
    · exact .tail _ (h.mem hc)

theorem Numeral.not_marked (h : Numeral base cs n) : ∀ mark ∈ hexMarks, ¬ mark <+: cs := by
  have hstrange : ∀ mark ∈ hexMarks, ¬ mark ⊆ "+0123456789ABCDEFabcdef".toList := by decide
  intro mark hm hpre
  exact hstrange mark hm fun c hc => h.mem (hpre.subset hc)

theorem Digits.numeral {sign : List Char} (hs : sign ∈ [[], ['+']]) (h : Digits base cs n) :
    Numeral base (sign ++ cs) n := by
  simp only [List.mem_cons, List.not_mem_nil, or_false] at hs
  obtain rfl | rfl := hs
  · exact .plain h
  · exact .signed h

namespace Address

theorem ofString?_append_mark (hm : mark ∈ hexMarks) :
    ofString? (.ofList (mark ++ cs)) = (numeral? 16 cs).bind word? := by
  simp only [hexMarks, List.mem_cons, List.not_mem_nil, or_false] at hm
  obtain rfl | rfl | rfl := hm
  all_goals
    rw [ofString?, String.toList_ofList]
    rfl

theorem ofString?_of_not_marked (hm : ∀ mark ∈ hexMarks, ¬ mark <+: cs) :
    ofString? (.ofList cs) = (numeral? 10 cs).bind word? := by
  rw [ofString?, String.toList_ofList]
  split
  · exact absurd ⟨_, rfl⟩ (hm ['$'] (by decide))
  · exact absurd ⟨_, rfl⟩ (hm ['0', 'x'] (by decide))
  · exact absurd ⟨_, rfl⟩ (hm ['0', 'X'] (by decide))
  · rfl

theorem ofString?_of_written (h : Written cs n) : ofString? (.ofList cs) = word? n := by
  cases h with
  | hexadecimal mark hm h =>
    rw [ofString?_append_mark hm, numeral?_eq_some_iff.2 h, Option.bind_some]
  | decimal hm h =>
    rw [ofString?_of_not_marked hm, numeral?_eq_some_iff.2 h, Option.bind_some]

theorem exists_numeral_of_bind (h : (numeral? base cs).bind word? = some a) :
    Numeral base cs a.toNat := by
  obtain ⟨n, hn, hw⟩ := Option.bind_eq_some_iff.1 h
  obtain rfl := word?_eq_some_iff.1 hw
  exact numeral?_eq_some_iff.1 hn

theorem written_of_ofString? (h : ofString? (.ofList cs) = some a) : Written cs a.toNat := by
  by_cases hm : ∃ mark ∈ hexMarks, mark <+: cs
  · obtain ⟨mark, hm, cs, rfl⟩ := hm
    rw [ofString?_append_mark hm] at h
    exact .hexadecimal mark hm (exists_numeral_of_bind h)
  · have hm : ∀ mark ∈ hexMarks, ¬ mark <+: cs := fun mark hmem hpre => hm ⟨mark, hmem, hpre⟩
    rw [ofString?_of_not_marked hm] at h
    exact .decimal hm (exists_numeral_of_bind h)

theorem ofString?_eq_some_iff : ofString? text = some a ↔ Written text.toList a.toNat := by
  rw [← String.ofList_toList (s := text), String.toList_ofList]
  constructor
  · exact written_of_ofString?
  · intro h
    rw [ofString?_of_written h, word?_toNat]

theorem Written.mem (h : Written cs n) (hc : c ∈ cs) : c ∈ "$xX+0123456789ABCDEFabcdef".toList := by
  have hmark : ∀ mark ∈ hexMarks, mark ⊆ "$xX+0123456789ABCDEFabcdef".toList := by decide
  have hnumeral : "+0123456789ABCDEFabcdef".toList ⊆ "$xX+0123456789ABCDEFabcdef".toList := by
    decide
  cases h with
  | hexadecimal mark hm h =>
    obtain hc | hc := List.mem_append.1 hc
    · exact hmark mark hm hc
    · exact hnumeral (h.mem hc)
  | decimal hm h => exact hnumeral (h.mem hc)

theorem Written.digits_of_plus (h : Written ('+' :: cs) n) : Digits 10 cs n := by
  generalize ht : '+' :: cs = t at h
  cases h with
  | hexadecimal mark hm h =>
    simp only [hexMarks, List.mem_cons, List.not_mem_nil, or_false] at hm
    obtain rfl | rfl | rfl := hm <;> cases ht
  | decimal hm h =>
    subst ht
    exact numeral_plus_iff.1 h

theorem map_toNat_ofString?_iff :
    (ofString? text).map UInt16.toNat = some n ↔ n ≤ 65535 ∧ Written text.toList n := by
  rw [Option.map_eq_some_iff]
  constructor
  · rintro ⟨a, ha, rfl⟩
    exact ⟨Nat.le_of_lt_succ a.toNat_lt, ofString?_eq_some_iff.1 ha⟩
  · rintro ⟨hle, hw⟩
    have hn : (UInt16.ofNat n).toNat = n := UInt16.toNat_ofNat_of_lt (Nat.lt_succ_of_le hle)
    exact ⟨.ofNat n, ofString?_eq_some_iff.2 (by rwa [hn]), hn⟩

theorem ofString?_eq_none_iff :
    ofString? text = none ↔ ∀ n, n ≤ 65535 → ¬ Written text.toList n := by
  rw [← Option.map_eq_none_iff, Option.eq_none_iff_forall_ne_some]
  exact forall_congr' fun n => by rw [ne_eq, map_toNat_ofString?_iff, not_and]

/-- The addresses are the written numbers up to 65535, and no other text is one. -/
theorem ofString?_reads_written :
    (∀ (text : String) (n : Nat),
      (ofString? text).map UInt16.toNat = some n ↔ n ≤ 65535 ∧ Written text.toList n) ∧
    (∀ base mark, base = 16 ∧ mark ∈ hexMarks ∨ base = 10 ∧ mark = [] →
      ∀ sign ∈ [[], ['+']], ∀ (k : Nat) (cs : List Char) (n : Nat), Digits base cs n → n ≤ 65535 →
        ofString? (.ofList (mark ++ (sign ++ (List.replicate k '0' ++ cs)))) =
          some (UInt16.ofNat n)) ∧
    (∀ (text : String) (n : Nat), Written text.toList n → 65535 < n → ofString? text = none) ∧
    (∀ mark ∈ [] :: hexMarks, ∀ sign ∈ [[], ['+']], ofString? (.ofList (mark ++ sign)) = none) ∧
    (∀ (text : String), ∀ c ∈ text.toList, c ∉ "$xX+0123456789ABCDEFabcdef".toList →
      ofString? text = none) ∧
    (∀ mark ∈ hexMarks, ∀ cs, ofString? (.ofList ('+' :: (mark ++ cs))) = none) ∧
    ∀ mark ∈ hexMarks, ∀ cs, (∀ n, ¬ Numeral 16 cs n) → ofString? (.ofList (mark ++ cs)) = none := by
  refine ⟨fun text n => map_toNat_ofString?_iff, ?_, ?_, by decide, ?_, ?_, ?_⟩
  · intro base mark hb sign hs k cs n hd hle
    have hzeros : Numeral base (sign ++ (List.replicate k '0' ++ cs)) n :=
      (hd.zeros (by omega) k).numeral hs
    have hw : Written (mark ++ (sign ++ (List.replicate k '0' ++ cs))) n := by
      obtain ⟨rfl, hm⟩ | ⟨rfl, rfl⟩ := hb
      · exact .hexadecimal mark hm hzeros
      · exact .decimal hzeros.not_marked hzeros
    rw [ofString?_of_written hw]
    exact if_pos (Nat.lt_succ_of_le hle)
  · intro text n hw hlt
    have h := ofString?_of_written hw
    rw [String.ofList_toList] at h
    rw [h]
    exact if_neg (Nat.not_lt.2 hlt)
  · intro text c hc hnot
    exact ofString?_eq_none_iff.2 fun n _ hw => hnot (hw.mem hc)
  · intro mark hm cs
    apply ofString?_eq_none_iff.2
    intro n _ hw
    rw [String.toList_ofList] at hw
    exact (Numeral.plain hw.digits_of_plus).not_marked mark hm ⟨cs, rfl⟩
  · intro mark hm cs hnone
    rw [ofString?_append_mark hm]
    cases hn : numeral? 16 cs with
    | none => rfl
    | some n => exact absurd (numeral?_eq_some_iff.1 hn) (hnone n)

/-- The sign comes after the mark, and zeros before the digits do not count. -/
example : ofString? "0X+00001fE" = some 0x1FE ∧ ofString? "+$1FE" = none := by decide

end Address
end ChipFamily
