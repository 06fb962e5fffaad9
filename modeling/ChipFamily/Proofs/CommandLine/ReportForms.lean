import ChipFamily.CommandLine.Run
import Mathlib.Data.List.Forall2

namespace ChipFamily.CommandLine

example : (Dump.mk 0x200 [0x12, 0xFF]).toJson.pretty 0 =
    "\x7b
  \x22address\x22: 512,
  \x22bytes\x22: [
    18,
    255
  ]
\x7d" := by cbv

theorem unlines_singleton (line : String) : unlines [line] = line ++ "\n" := by
  simp [unlines, String.join]

theorem unlines_ne_empty (line : String) (lines : List String) : unlines (line :: lines) ≠ "" := by
  intro h
  simp [unlines] at h

theorem Report.print_ne_empty (r : Report) (json : Bool) : r.print json ≠ "" := by
  cases json with
  | true => exact unlines_ne_empty _ _
  | false => exact unlines_ne_empty _ _

example : (Report.mk .chip8 4096 0x200 true 2 [⟨0x200, [0x12]⟩] [⟨"nowhere", none⟩]).print false =
    "chip8: 4096 bytes, entry $0200
program: 2 bytes
$0200  12
nowhere = <unknown path>
" := by cbv

end ChipFamily.CommandLine
