import ChipFamily.Processor

namespace ChipFamily

/-- Puts a row of bytes at the places from `i` on. -/
def overwrite (bytes : Array UInt8) (i : Nat) : List UInt8 → Array UInt8
  | [] => bytes
  | b :: bs => overwrite (bytes.setIfInBounds i b) (i + 1) bs

/-- Moves `n` bytes one after the other, so that a byte moved early can be moved again. -/
def moveForward (bytes : Array UInt8) (src dst : Nat) : Nat → Array UInt8
  | 0 => bytes
  | n + 1 => moveForward (bytes.setIfInBounds dst (bytes.getD src 0)) (src + 1) (dst + 1) n

@[simp] theorem size_overwrite (bytes : Array UInt8) (i : Nat) (bs : List UInt8) :
    (overwrite bytes i bs).size = bytes.size := by
  induction bs generalizing bytes i with
  | nil => rfl
  | cons b bs ih => simp [overwrite, ih]

@[simp] theorem size_moveForward (bytes : Array UInt8) (src dst n : Nat) :
    (moveForward bytes src dst n).size = bytes.size := by
  induction n generalizing bytes src dst with
  | zero => rfl
  | succ n ih => simp [moveForward, ih]

/-- The places from `i` on hold the row, and all others what they held. -/
theorem getElem?_overwrite (bytes : Array UInt8) (i : Nat) (bs : List UInt8) (k : Nat)
    (h : i + bs.length ≤ bytes.size) :
    (overwrite bytes i bs)[k]? =
      if i ≤ k ∧ k < i + bs.length then bs[k - i]? else bytes[k]? := by
  induction bs generalizing bytes i with
  | nil => rw [if_neg (by simp)]; rfl
  | cons b bs ih =>
    simp only [List.length_cons] at h ⊢
    rw [overwrite, ih _ _ (by simp; omega), Array.getElem?_setIfInBounds]
    by_cases hk : i = k
    · subst hk
      rw [if_neg (by omega), if_pos rfl, if_pos (by omega), if_pos (by omega)]
      simp
    · rw [if_neg hk]
      by_cases hr : i + 1 ≤ k ∧ k < i + 1 + bs.length
      · rw [if_pos hr, if_pos (by omega), show k - i = k - (i + 1) + 1 by omega]
        rfl
      · rw [if_neg hr, if_neg (by omega)]

/-- A block that does not lie inside memory. -/
structure RangeError where
  start : Address
  length : Nat
  size : Nat
  deriving DecidableEq, Repr

def RangeError.message (e : RangeError) : String :=
  s!"range {e.start.text}+{e.length} exceeds {e.size}-byte address space"

/-- A number of bytes that no memory has. -/
structure SizeError where
  size : Nat
  deriving DecidableEq, Repr

def SizeError.message (e : SizeError) : String :=
  s!"address space must be 1..=65536 bytes, got {e.size}"

/-- One to 65536 bytes, at the addresses from 0 on. -/
structure Memory where
  bytes : Array UInt8
  size_pos : 0 < bytes.size
  size_le : bytes.size ≤ 0x10000

namespace Memory

def size (m : Memory) : Nat := m.bytes.size

def blank (size : Nat) (h : 0 < size) (h' : size ≤ 0x10000) : Memory :=
  ⟨Array.replicate size 0, by simpa using h, by simpa using h'⟩

def ofSize (size : Nat) : Except SizeError Memory :=
  if h : 0 < size ∧ size ≤ 0x10000 then .ok (blank size h.1 h.2) else .error ⟨size⟩

/-- The number of bytes from an address to the top of memory. -/
def room (m : Memory) (start : Address) : Nat := m.size - start.toNat

/-- An empty block fits everywhere, also past the top. -/
def check (m : Memory) (start : Address) (length : Nat) : Except RangeError Unit :=
  if length ≤ m.room start then .ok () else .error ⟨start, length, m.size⟩

/-- Puts a block in place without looking whether it fits. -/
def place (m : Memory) (offset : Nat) (block : List UInt8) : Memory :=
  ⟨overwrite m.bytes offset block, by simpa using m.size_pos, by simpa using m.size_le⟩

@[simp] theorem size_blank (size : Nat) (h : 0 < size) (h' : size ≤ 0x10000) :
    (blank size h h').size = size := by
  simp [Memory.size, blank]

@[simp] theorem size_place (m : Memory) (offset : Nat) (block : List UInt8) :
    (m.place offset block).size = m.size := by
  simp [Memory.size, place]

theorem le_room_iff {m : Memory} {start : Address} {n : Nat} :
    n ≤ m.room start ↔ n = 0 ∨ start.toNat + n ≤ m.size := by
  unfold room
  omega

theorem check_eq_ok_iff {m : Memory} {start : Address} {n : Nat} :
    m.check start n = .ok () ↔ n = 0 ∨ start.toNat + n ≤ m.size := by
  rw [← le_room_iff, check]
  split <;> simp_all

def read (m : Memory) (start : Address) (length : UInt16) : Except RangeError (List UInt8) := do
  m.check start length.toNat
  return (m.bytes.extract start.toNat (start.toNat + length.toNat)).toList

/-- A block that does not fit is not written, and traps. -/
def write {σ : Type} [Processor σ] (m : Memory) (cpu : σ) (start : Address)
    (block : List UInt8) : Memory × σ :=
  match m.check start block.length with
  | .ok () => (m.place start.toNat block, cpu)
  | .error _ => (m, Processor.enterTrap ⟨.outOfBounds, Processor.counter cpu⟩ cpu)

/-- Where the two blocks overlap, a source byte may have been copied over before its turn. -/
def copy (m : Memory) (src dst : Address) (length : UInt16) : Except RangeError Memory := do
  m.check src length.toNat
  m.check dst length.toNat
  return ⟨moveForward m.bytes src.toNat dst.toNat length.toNat,
    by simpa using m.size_pos, by simpa using m.size_le⟩

def clear (m : Memory) (start : Address) (length : UInt16) : Except RangeError Memory := do
  m.check start length.toNat
  return m.place start.toNat (List.replicate length.toNat 0)

def wipe (m : Memory) : Memory :=
  blank m.size m.size_pos m.size_le

def readByte (m : Memory) (a : Address) : Except RangeError UInt8 := do
  m.check a 1
  return m.bytes.getD a.toNat 0

def writeByte {σ : Type} [Processor σ] (m : Memory) (cpu : σ) (a : Address) (b : UInt8) :
    Memory × σ :=
  m.write cpu a [b]

/-- The word of two bytes, the high one first. -/
def wordOf (high low : UInt8) : UInt16 := 256 * high.toUInt16 + low.toUInt16

/-- The instruction word at an address. There is none where one of its bytes is outside. -/
def fetch? (m : Memory) (a : Address) : Option UInt16 := do
  let high ← m.bytes[a.toNat]?
  let low ← m.bytes[a.toNat + 1]?
  return wordOf high low

def checkedFetch (m : Memory) (a : Address) : Except RangeError UInt16 := do
  m.check a 2
  return wordOf (m.bytes.getD a.toNat 0) (m.bytes.getD (a.toNat + 1) 0)

end Memory

inductive ReadError where
  | notFound
  | isDirectory
  | notDirectory
  | nameTooLong
  | nulInName
  /-- Any other cause, in the words of the system. -/
  | other (text : String)
  deriving DecidableEq, Repr

def ReadError.message : ReadError → String
  | .notFound => "No such file or directory (os error 2)"
  | .isDirectory => "Is a directory (os error 21)"
  | .notDirectory => "Not a directory (os error 20)"
  | .nameTooLong => "File name too long (os error 36)"
  | .nulInName => "file name contained an unexpected NUL byte"
  | .other text => text

/-- A file by its path, with what reading it gave. -/
structure File where
  path : String
  contents : Except ReadError (List UInt8)

/-- The files that there are to read, by their paths. -/
abbrev FileSystem := String → Except ReadError (List UInt8)

def FileSystem.file (files : FileSystem) (path : String) : File := ⟨path, files path⟩

inductive LoadError where
  | programTooLarge (length available : Nat)
  | bootTooLarge (length limit : Nat)
  | unreadable (path : String) (cause : ReadError)
  deriving DecidableEq, Repr

def LoadError.message : LoadError → String
  | .programTooLarge length available =>
    s!"program image is {length} bytes, must be smaller than the {available} bytes above the entry point"
  | .bootTooLarge length limit =>
    s!"boot image is {length} bytes, must fit in the {limit} bytes below the entry point"
  | .unreadable path cause => s!"cannot read program image {path}: {cause.message}"

namespace Memory

/-- A boot image starts at address 0 and may reach up to `limit`, or to the top of memory. -/
def loadBoot (m : Memory) (image : List UInt8) (limit : Address) : Except LoadError Memory :=
  let limit := min limit.toNat m.size
  if image.length ≤ limit then .ok (m.place 0 image)
  else .error (.bootTooLarge image.length limit)

/-- A program leaves at least the last byte of memory free. The answer counts its bytes. -/
def loadProgram (m : Memory) (entry : Address) (image : List UInt8) :
    Except LoadError (Nat × Memory) :=
  if image.length < m.room entry then .ok (image.length, m.place entry.toNat image)
  else .error (.programTooLarge image.length (m.room entry))

def loadFile (m : Memory) (entry : Address) (file : File) : Except LoadError (Nat × Memory) :=
  match file.contents with
  | .ok image => m.loadProgram entry image
  | .error cause => .error (.unreadable file.path cause)

end Memory
end ChipFamily
