import ChipFamily.CommandLine.Run
import ChipFamily.Proofs.CommandLine.RangeText
import ChipFamily.Proofs.Text.Hex

namespace ChipFamily.CommandLine

namespace Dump

variable {start : Address} {bytes : List UInt8} {r : Nat} {line : String}

example : rows 0xFFEE (List.replicate 18 0x4E) =
    ["$FFEE  4E 4E 4E 4E 4E 4E 4E 4E 4E 4E 4E 4E 4E 4E 4E 4E", "$FFFE  4E 4E"] := by cbv

end Dump

variable {m : Machine} {e : Extent} {bs : List UInt8}

theorem Extent.ofString?_append_colon (e : Extent) :
    Extent.ofString? (e.start.text ++ ":" ++ toString e.length.toNat) = some e := by
  have hcut : cutAt? ':' (e.start.text ++ ":" ++ toString e.length.toNat) =
      some (e.start.text, toString e.length.toNat) := by
    apply cutAt?_of_toList (Address.colon_not_mem e.start.ofString?_text)
    rw [String.toList_append, String.toList_append, List.append_assoc]
    rfl
  rw [ofString?, hcut]
  change (Address.ofString? e.start.text).bind _ = _
  rw [e.start.ofString?_text, length?_toString]
  rfl

end ChipFamily.CommandLine
