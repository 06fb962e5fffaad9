import ChipFamily.Processor

namespace ChipFamily

namespace StackPointer

@[simp] theorem toNat_empty : StackPointer.empty.toNat = 65535 := rfl

theorem depth_eq_zero_iff {p : StackPointer} : p.depth = 0 ↔ p = .empty := by
  unfold depth empty
  grind

@[simp] theorem depth_sub_one (p : StackPointer) : p.depth - 1 = p :=
  UInt16.add_sub_cancel p 1

@[simp] theorem depth_pred (p : StackPointer) : depth (p - 1) = p :=
  UInt16.sub_add_cancel p 1

theorem ne_empty_iff {p : StackPointer} : p ≠ .empty ↔ p.toNat < 65535 := by
  have hlt := p.toNat_lt
  rw [Ne, ← UInt16.toNat_inj, toNat_empty]
  omega

theorem toNat_depth {p : StackPointer} (h : p ≠ .empty) : p.depth.toNat = p.toNat + 1 := by
  have hlt := ne_empty_iff.1 h
  rw [depth, UInt16.toNat_add, UInt16.toNat_one, Nat.mod_eq_of_lt (by omega)]

theorem ne_empty_of_lt {p : StackPointer} {n : UInt16} (h : p < n) : p ≠ .empty := by
  have hlt := UInt16.lt_iff_toNat_lt.1 h
  have hn := n.toNat_lt
  rw [ne_empty_iff]
  omega

end StackPointer

namespace Registers

variable (r : Registers)

@[simp] theorem processor_counter : Processor.counter r = r.counter := rfl

@[simp] theorem processor_pointer : Processor.pointer r = r.pointer := rfl

@[simp] theorem processor_raise : Processor.raise r = r.raise := rfl

@[simp] theorem processor_lower : Processor.lower r = r.lower := rfl

@[simp] theorem processor_enterTrap (fault : Fault) :
    Processor.enterTrap fault r = r.enterTrap fault := rfl

theorem raise_of_lt (h : r.pointer.depth < r.depth) :
    r.raise = (false, { r with pointer := r.pointer.depth }) :=
  if_pos h

theorem raise_of_not_lt (h : ¬ r.pointer.depth < r.depth) : r.raise = (true, r) :=
  if_neg h

theorem lower_of_empty (h : r.pointer = .empty) : r.lower = (true, r) :=
  if_pos h

theorem lower_of_ne_empty (h : r.pointer ≠ .empty) :
    r.lower = (false, { r with pointer := r.pointer - 1 }) :=
  if_neg h

theorem lower_raised (h : r.pointer.depth < r.depth) :
    ({ r with pointer := r.pointer.depth } : Registers).lower = (false, r) := by
  rw [lower_of_ne_empty _ (StackPointer.ne_empty_of_lt h)]
  simp only [StackPointer.depth_sub_one]

theorem exists_lower : ∃ p, r.lower.2 = { r with pointer := p } := by
  by_cases h : r.pointer = .empty
  · exact ⟨r.pointer, by rw [r.lower_of_empty h]⟩
  · exact ⟨_, by rw [r.lower_of_ne_empty h]⟩

end Registers

/-- A call that may change a processor. -/
inductive Processor.Request where
  | raise
  | lower
  | trap (fault : Fault)
  deriving DecidableEq, Repr

/-- A processor with the requests made of it so far, the latest last. -/
structure Watched (σ : Type) where
  cpu : σ
  requests : List Processor.Request

variable {σ : Type}

def Watched.of (cpu : σ) : Watched σ := ⟨cpu, []⟩

instance [Processor σ] : Processor (Watched σ) where
  counter w := Processor.counter w.cpu
  pointer w := Processor.pointer w.cpu
  raise w :=
    let (full, cpu) := Processor.raise w.cpu
    (full, ⟨cpu, w.requests ++ [.raise]⟩)
  lower w :=
    let (isEmpty, cpu) := Processor.lower w.cpu
    (isEmpty, ⟨cpu, w.requests ++ [.lower]⟩)
  enterTrap fault w := ⟨Processor.enterTrap fault w.cpu, w.requests ++ [.trap fault]⟩

instance [HonestProcessor σ] : HonestProcessor (Watched σ) where
  pointer_lower w h := HonestProcessor.pointer_lower w.cpu h

end ChipFamily
