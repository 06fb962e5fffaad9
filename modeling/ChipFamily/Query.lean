import ChipFamily.Machine

namespace ChipFamily

inductive Reading where
  | flag (b : Bool)
  | byte (b : UInt8)
  | word (w : UInt16)
  | count (n : UInt32)
  | text (s : String)
  | bytes (bs : List UInt8)
  | list (items : List Reading)
  deriving Inhabited

/-- Bytes and words are shown in hexadecimal, and counts in decimal. -/
def Reading.display : Reading → String
  | .flag b => if b then "true" else "false"
  | .byte b => "0x" ++ String.ofList (hex 2 b.toNat)
  | .word w => "0x" ++ String.ofList (hex 4 w.toNat)
  | .count n => toString n.toNat
  | .text s => s
  | .bytes bs => String.ofList (hexBytes bs)
  | .list items => "[" ++ ", ".intercalate (items.map display) ++ "]"

def Reading.toJson : Reading → Json
  | .flag b => .bool b
  | .byte b => .nat b.toNat
  | .word w => .nat w.toNat
  | .count n => .nat n.toNat
  | .text s => .string s
  | .bytes bs => .array (bs.map fun b => .nat b.toNat)
  | .list items => .array (items.map toJson)

inductive Memory.Query where
  | size
  | byte (a : Address)
  | block (start : Address) (length : UInt16)
  deriving DecidableEq, Repr

/-- A block is written as its address and its length, with a colon between them. -/
def Memory.Query.ofString? (text : String) : Option Memory.Query :=
  if text = "size" then some .size
  else
    match cutAt? ':' text with
    | some (start, length) => do
      return .block (← Address.ofString? start) (← length? length)
    | none => (Address.ofString? text).map .byte

def Memory.answer? (m : Memory) : Memory.Query → Option Reading
  | .size => some (.count (UInt32.ofNat m.size))
  | .byte a => (m.readByte a).toOption.map .byte
  | .block start length => (m.read start length).toOption.map .bytes

def Memory.query? (m : Memory) (path : String) : Option Reading :=
  (Memory.Query.ofString? path).bind m.answer?

/-- The forms of the paths that memory answers. -/
def Memory.queryPaths : List String := ["size", "<address>", "<address>:<len>"]

inductive ReturnStack.Query where
  | capacity
  | slot (i : Nat)
  deriving DecidableEq, Repr

def ReturnStack.Query.ofString? (text : String) : Option ReturnStack.Query :=
  if text = "capacity" then some .capacity else (numeral? 10 text.toList).map .slot

def ReturnStack.answer? (s : ReturnStack) : ReturnStack.Query → Option Reading
  | .capacity => some (.count (UInt32.ofNat s.capacity))
  | .slot i => (s.slot? i).map .word

def ReturnStack.query? (s : ReturnStack) (path : String) : Option Reading :=
  (ReturnStack.Query.ofString? path).bind s.answer?

def ReturnStack.queryPaths : List String := ["capacity", "<slot>"]

inductive Registers.Query where
  | counter
  | pointer
  | trap
  | trapPending
  | traps
  deriving DecidableEq, Repr

def Registers.Query.ofString? : String → Option Registers.Query
  | "pc" => some .counter
  | "sp" => some .pointer
  | "trap" => some .trap
  | "trap_pending" => some .trapPending
  | "trap_count" => some .traps
  | _ => none

def Registers.answer (r : Registers) : Registers.Query → Reading
  | .counter => .word r.counter
  | .pointer => .word r.pointer
  | .trap => .text (r.pending.elim "none" Fault.text)
  | .trapPending => .flag r.pending.isSome
  | .traps => .count r.traps

inductive Machine.Query where
  | model
  | programLength
  | registers (q : Registers.Query)
  | entry
  | memory (q : Memory.Query)
  | depth
  | entries
  | stack (q : ReturnStack.Query)
  deriving DecidableEq, Repr

namespace Machine

/-- A path that begins with the name of a part is a path of that part, or of nothing. -/
def Query.ofString? (path : String) : Option Query :=
  if let some rest := after? "cpu." path then
    (Registers.Query.ofString? rest).map .registers
  else if let some rest := after? "memory." path then
    if rest = "entry" then some .entry else (Memory.Query.ofString? rest).map .memory
  else if let some rest := after? "stack." path then
    if rest = "depth" then some .depth
    else if rest = "entries" then some .entries
    else (ReturnStack.Query.ofString? rest).map .stack
  else if path = "model" then some .model
  else if path = "program.len" then some .programLength
  else none

def answer? (m : Machine) : Query → Option Reading
  | .model => some (.text m.model.name)
  | .programLength => some (.count (UInt32.ofNat (m.program.elim 0 List.length)))
  | .registers q => some (m.registers.answer q)
  | .entry => some (.word m.entry)
  | .memory q => m.memory.answer? q
  | .depth => some (.word m.registers.pointer.depth)
  | .entries => some (.list ((m.stack.entries m.registers.pointer).map .word))
  | .stack q => m.stack.answer? q

def query? (m : Machine) (path : String) : Option Reading :=
  (Query.ofString? path).bind m.answer?

def queryPaths : List String :=
  ["model", "program.len", "cpu.pc", "cpu.sp", "cpu.trap", "cpu.trap_pending", "cpu.trap_count",
   "memory.size", "memory.entry", "memory.<address>", "memory.<address>:<len>",
   "stack.capacity", "stack.depth", "stack.entries", "stack.<slot>"]

end Machine
end ChipFamily
