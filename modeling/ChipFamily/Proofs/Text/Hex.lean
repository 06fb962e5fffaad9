import ChipFamily.Proofs.Text.Address

namespace ChipFamily

variable {bs cs : List UInt8}

theorem hex_succ_ne_nil (width n : Nat) : hex (width + 1) n ≠ [] :=
  List.append_ne_nil_of_right_ne_nil _ (List.cons_ne_nil _ _)

theorem Address.written_text (a : Address) : Written a.text.toList a.toNat := by
  have hdigits : Digits 16 (hex 4 a.toNat) a.toNat :=
    digits_iff.2 ⟨hex_succ_ne_nil 3 a.toNat, digits?_hex_word a⟩
  rw [text, String.toList_ofList]
  exact .hexadecimal ['$'] (by decide) (.plain hdigits)

theorem Address.ofString?_text (a : Address) : ofString? a.text = some a :=
  ofString?_eq_some_iff.2 a.written_text

end ChipFamily
