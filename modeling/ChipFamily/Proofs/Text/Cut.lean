import ChipFamily.Text
import Mathlib.Data.List.Basic
import Mathlib.Data.List.TakeWhile

namespace ChipFamily

variable {head text rest start : String} {mark : Char}

theorem after?_eq_some_iff : after? head text = some rest ↔ text = head ++ rest := by
  rw [after?, Option.map_eq_some_iff, ← String.toList_inj, String.toList_append]
  constructor
  · rintro ⟨cs, hcs, rfl⟩
    rw [String.toList_ofList, List.append_eq_of_isPrefixOf?_eq_some hcs]
  · intro h
    exact ⟨rest.toList, List.isPrefixOf?_eq_some_iff_append_eq.2 h.symm, String.ofList_toList⟩

theorem after?_eq_none_iff : after? head text = none ↔ ¬ head.toList <+: text.toList := by
  rw [Option.eq_none_iff_forall_ne_some]
  constructor
  · rintro h ⟨cs, hcs⟩
    apply h (.ofList cs)
    rw [after?_eq_some_iff, ← String.toList_inj, String.toList_append, String.toList_ofList, hcs]
  · rintro h rest hrest
    rw [after?_eq_some_iff.1 hrest, String.toList_append] at h
    exact h (List.prefix_append ..)

theorem cutAt?_eq_none_iff : cutAt? mark text = none ↔ mark ∉ text.toList := by
  have hdrop : text.toList.dropWhile (· != mark) = [] ↔ mark ∉ text.toList := by
    simp only [List.dropWhile_eq_nil_iff, bne_iff_ne]
    exact ⟨fun h hmem => h mark hmem rfl, fun h c hc => ne_of_mem_of_not_mem hc h⟩
  rw [← hdrop, cutAt?]
  cases text.toList.dropWhile (· != mark) with
  | nil => exact iff_of_true rfl rfl
  | cons c cs => exact iff_of_false nofun nofun

theorem exists_cutAt?_of_mem (h : mark ∈ text.toList) :
    ∃ start rest, cutAt? mark text = some (start, rest) := by
  cases hc : cutAt? mark text with
  | none => exact absurd h (cutAt?_eq_none_iff.1 hc)
  | some parts => exact ⟨parts.1, parts.2, rfl⟩

theorem cutAt?_of_toList (hs : mark ∉ start.toList)
    (h : text.toList = start.toList ++ mark :: rest.toList) :
    cutAt? mark text = some (start, rest) := by
  have hall : ∀ c ∈ start.toList, (c != mark) = true := by
    intro c hc
    exact bne_iff_ne.2 (ne_of_mem_of_not_mem hc hs)
  rw [cutAt?, h, List.dropWhile_append_of_pos hall, List.takeWhile_append_of_pos hall,
    List.dropWhile_cons_of_neg (by simp), List.takeWhile_cons_of_neg (by simp), List.append_nil,
    String.ofList_toList]
  exact congrArg (fun s => some (start, s)) String.ofList_toList

/-- A text is cut at the first mark. -/
theorem cutAt?_eq_some_iff :
    cutAt? mark text = some (start, rest) ↔
      mark ∉ start.toList ∧ text.toList = start.toList ++ mark :: rest.toList := by
  constructor
  · intro h
    by_cases hmem : mark ∈ text.toList
    · obtain ⟨before, behind, heq, hnot⟩ := List.eq_append_cons_of_mem hmem
      rw [← String.toList_ofList (l := before)] at heq hnot
      rw [← String.toList_ofList (l := behind)] at heq
      obtain ⟨rfl, rfl⟩ := Prod.mk.inj (Option.some.inj ((cutAt?_of_toList hnot heq).symm.trans h))
      exact ⟨hnot, heq⟩
    · rw [cutAt?_eq_none_iff.2 hmem] at h
      cases h
  · rintro ⟨hnot, heq⟩
    exact cutAt?_of_toList hnot heq

end ChipFamily
