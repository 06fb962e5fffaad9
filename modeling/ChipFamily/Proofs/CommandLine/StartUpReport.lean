import ChipFamily.Proofs.CommandLine.Outcome

namespace ChipFamily.CommandLine

/-- The ranges that do not lie inside memory, in their order. -/
def outside (size : Nat) (extents : List Extent) : List RangeError :=
  (extents.filter fun e => ¬ Memory.Inside size e.start e.length.toNat).map
    fun e => ⟨e.start, e.length.toNat, size⟩

variable {m : Machine} {bytes : Nat → UInt8} {files : FileSystem} {args : List String}
  {o : Options}

end ChipFamily.CommandLine
