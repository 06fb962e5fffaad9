import ChipFamily.Memory

namespace ChipFamily

/-- The interpreters of the family. Each fixes its memory, its entry point and its stack. -/
inductive Model where
  | chip8
  | eti660
  | superChip
  | xoChip
  deriving DecidableEq, Repr

namespace Model

def memorySize : Model → Nat
  | .chip8 | .eti660 | .superChip => 0x1000
  | .xoChip => 0x10000

def entry : Model → Address
  | .eti660 => 0x600
  | .chip8 | .superChip | .xoChip => 0x200

def stackCapacity : Model → Nat
  | _ => 16

def hasLargeFont : Model → Bool
  | .superChip | .xoChip => true
  | .chip8 | .eti660 => false

def name : Model → String
  | .chip8 => "chip8"
  | .eti660 => "eti660"
  | .superChip => "superchip"
  | .xoChip => "xochip"

/-- Names are read in letters of either case, and some have more than one spelling. -/
def ofName? (text : String) : Option Model :=
  match text.toLower with
  | "chip8" | "chip-8" => some .chip8
  | "eti660" | "eti-660" => some .eti660
  | "schip" | "superchip" | "super-chip" => some .superChip
  | "xochip" | "xo-chip" => some .xoChip
  | _ => none

theorem memorySize_pos (m : Model) : 0 < m.memorySize := by
  cases m <;> decide

theorem memorySize_le (m : Model) : m.memorySize ≤ 0x10000 := by
  cases m <;> decide

theorem stackCapacity_pos (m : Model) : 0 < m.stackCapacity := by
  cases m <;> decide

theorem stackCapacity_lt (m : Model) : m.stackCapacity < 0xFFFF := by
  cases m <;> decide

theorem entry_lt_memorySize (m : Model) : m.entry.toNat < m.memorySize := by
  cases m <;> decide

end Model

namespace Font

/-- The digits 0 to F, five rows of eight pixels each. -/
def small : List UInt8 :=
  [0xF0, 0x90, 0x90, 0x90, 0xF0,
   0x20, 0x60, 0x20, 0x20, 0x70,
   0xF0, 0x10, 0xF0, 0x80, 0xF0,
   0xF0, 0x10, 0xF0, 0x10, 0xF0,
   0x90, 0x90, 0xF0, 0x10, 0x10,
   0xF0, 0x80, 0xF0, 0x10, 0xF0,
   0xF0, 0x80, 0xF0, 0x90, 0xF0,
   0xF0, 0x10, 0x20, 0x40, 0x40,
   0xF0, 0x90, 0xF0, 0x90, 0xF0,
   0xF0, 0x90, 0xF0, 0x10, 0xF0,
   0xF0, 0x90, 0xF0, 0x90, 0x90,
   0xE0, 0x90, 0xE0, 0x90, 0xE0,
   0xF0, 0x80, 0x80, 0x80, 0xF0,
   0xE0, 0x90, 0x90, 0x90, 0xE0,
   0xF0, 0x80, 0xF0, 0x80, 0xF0,
   0xF0, 0x80, 0xF0, 0x80, 0x80]

/-- The digits 0 to 9, ten rows of eight pixels each. -/
def large : List UInt8 :=
  [0x3C, 0x7E, 0xE7, 0xC3, 0xC3, 0xC3, 0xC3, 0xE7, 0x7E, 0x3C,
   0x18, 0x38, 0x58, 0x18, 0x18, 0x18, 0x18, 0x18, 0x18, 0x3C,
   0x3E, 0x7F, 0xC3, 0x06, 0x0C, 0x18, 0x30, 0x60, 0xFF, 0xFF,
   0x3C, 0x7E, 0xC3, 0x03, 0x0E, 0x0E, 0x03, 0xC3, 0x7E, 0x3C,
   0x06, 0x0E, 0x1E, 0x36, 0x66, 0xC6, 0xFF, 0xFF, 0x06, 0x06,
   0xFF, 0xFF, 0xC0, 0xC0, 0xFC, 0xFE, 0x03, 0xC3, 0x7E, 0x3C,
   0x3E, 0x7C, 0xC0, 0xC0, 0xFC, 0xFE, 0xC3, 0xC3, 0x7E, 0x3C,
   0xFF, 0xFF, 0x03, 0x06, 0x0C, 0x18, 0x30, 0x60, 0x60, 0x60,
   0x3C, 0x7E, 0xC3, 0xC3, 0x7E, 0x7E, 0xC3, 0xC3, 0x7E, 0x3C,
   0x3C, 0x7E, 0xC3, 0xC3, 0x7F, 0x3F, 0x03, 0x03, 0x3E, 0x7C]

/-- Where a small digit starts. Only the low four bits of `d` count. -/
def smallGlyph (d : UInt8) : Address := 5 * (d &&& 0x0F).toUInt16

/-- Where a large digit starts. The large digits follow the small ones. -/
def largeGlyph? (d : UInt8) : Option Address :=
  if d ≤ 9 then some (80 + 10 * d.toUInt16) else none

theorem length_small : small.length = 80 := rfl

theorem length_large : large.length = 100 := rfl

theorem toNat_smallGlyph (d : UInt8) : (smallGlyph d).toNat = 5 * (d.toNat % 16) := by
  have hd : (d &&& 0x0F).toUInt16.toNat = d.toNat % 16 := by
    rw [UInt8.toNat_toUInt16, UInt8.toNat_and]
    exact Nat.and_two_pow_sub_one_eq_mod d.toNat 4
  rw [smallGlyph, UInt16.toNat_mul, hd]
  exact Nat.mod_eq_of_lt (by simp only [UInt16.toNat_ofNat]; omega)

theorem largeGlyph?_eq_some_iff {d : UInt8} {a : Address} :
    largeGlyph? d = some a ↔ d.toNat ≤ 9 ∧ a.toNat = 80 + 10 * d.toNat := by
  have hle : d ≤ 9 ↔ d.toNat ≤ 9 := UInt8.le_iff_toNat_le
  rw [largeGlyph?, ← hle]
  by_cases h : d ≤ 9
  · have hd : (80 + 10 * d.toUInt16).toNat = 80 + 10 * d.toNat := by
      have := hle.1 h
      rw [UInt16.toNat_add, UInt16.toNat_mul, UInt8.toNat_toUInt16]
      simp only [UInt16.toNat_ofNat]
      omega
    rw [if_pos h, Option.some.injEq, ← UInt16.toNat_inj, hd, and_iff_right h, eq_comm]
  · rw [if_neg h]
    exact iff_of_false nofun fun hc => h hc.1

end Font

inductive Boot where
  | empty
  | font
  | image (bytes : List UInt8)
  deriving DecidableEq, Repr

structure Setup where
  model : Model := .chip8
  boot : Boot := .font
  deriving DecidableEq, Repr

namespace Setup

/-- The boot image, which starts at address 0. -/
def bootBytes (s : Setup) : List UInt8 :=
  match s.boot with
  | .empty => []
  | .font => if s.model.hasLargeFont then Font.small ++ Font.large else Font.small
  | .image bytes => bytes

/-- The rows of a small digit lie where its address says, whatever follows the small font. -/
theorem bootBytes_smallGlyph (m : Model) (d : UInt8) :
    ((Setup.mk m .font).bootBytes.drop (Font.smallGlyph d).toNat).take 5 =
      (Font.small.drop (5 * (d.toNat % 16))).take 5 := by
  have hlen := Font.length_small
  rw [Font.toNat_smallGlyph]
  simp only [bootBytes]
  split
  · rw [List.drop_append_of_le_length (by omega), List.take_append_of_le_length]
    rw [List.length_drop]
    omega
  · rfl

theorem bootBytes_largeGlyph {m : Model} {d : UInt8} {a : Address} (hm : m.hasLargeFont = true)
    (h : Font.largeGlyph? d = some a) :
    ((Setup.mk m .font).bootBytes.drop a.toNat).take 10 =
      (Font.large.drop (10 * d.toNat)).take 10 := by
  obtain ⟨-, ha⟩ := Font.largeGlyph?_eq_some_iff.1 h
  simp only [bootBytes, hm, if_true]
  rw [ha, ← Font.length_small, List.drop_length_add_append]

def validate (s : Setup) : Except LoadError Unit :=
  let length := s.bootBytes.length
  let limit := s.model.entry.toNat
  if length ≤ limit then .ok () else .error (.bootTooLarge length limit)

end Setup
end ChipFamily
