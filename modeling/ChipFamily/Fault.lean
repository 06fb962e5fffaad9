import ChipFamily.Json

namespace ChipFamily

inductive Fault.Cause where
  | outOfBounds
  | stackOverflow
  | stackUnderflow
  deriving DecidableEq, Repr

/-- What went wrong, and the address of the instruction that did it. -/
structure Fault where
  cause : Fault.Cause
  address : Address
  deriving DecidableEq, Repr

def Fault.Cause.text : Fault.Cause → String
  | .outOfBounds => "memory access out of bounds"
  | .stackOverflow => "stack overflow"
  | .stackUnderflow => "stack underflow"

def Fault.text (f : Fault) : String :=
  f.cause.text ++ " at " ++ f.address.text

/-- The name of a cause in stored records. -/
def Fault.Cause.tag : Fault.Cause → String
  | .outOfBounds => "MemoryAccessOutOfBounds"
  | .stackOverflow => "StackOverflow"
  | .stackUnderflow => "StackUnderflow"

def Fault.Cause.ofTag? : String → Option Fault.Cause
  | "MemoryAccessOutOfBounds" => some .outOfBounds
  | "StackOverflow" => some .stackOverflow
  | "StackUnderflow" => some .stackUnderflow
  | _ => none

@[simp] theorem Fault.Cause.ofTag?_tag (c : Fault.Cause) : Fault.Cause.ofTag? c.tag = some c := by
  cases c <;> rfl

/-- A cause is stored as its name, bare or as the only key of an object. -/
def Fault.Cause.ofJson? : Json → Option Fault.Cause
  | .string tag => ofTag? tag
  | .object [(tag, .null)] => ofTag? tag
  | _ => none

def Fault.toJson (f : Fault) : Json :=
  .object [("source", .string f.cause.tag), ("instruction_address", .nat f.address.toNat)]

/-- Fields other than the two of a fault are ignored. -/
def Fault.ofJson? (j : Json) : Option Fault := do
  let cause ← Cause.ofJson? (← j.field? "source")
  let address ← (← j.field? "instruction_address").word?
  return ⟨cause, address⟩

theorem Fault.ofJson?_toJson (f : Fault) : Fault.ofJson? f.toJson = some f := by
  simp [ofJson?, toJson, Json.field?, List.lookup_cons, Cause.ofJson?, Json.nat, Json.word?]

end ChipFamily
