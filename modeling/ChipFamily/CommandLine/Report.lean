import ChipFamily.CommandLine.Options
import ChipFamily.Query

namespace ChipFamily.CommandLine

/-- The bytes of a dumped range, or none if it was skipped. -/
structure Dump where
  start : Address
  bytes : List UInt8

structure Finding where
  path : String
  reading : Option Reading

structure Report where
  model : Model
  memorySize : Nat
  entry : Address
  programLoaded : Bool
  programLength : Nat
  dumps : List Dump
  findings : List Finding

def Dump.ofMachine (m : Machine) (e : Extent) : Dump :=
  ⟨e.start, (m.read e.start e.length).toOption.getD []⟩

def Report.ofMachine (m : Machine) (o : Options) (programLoaded : Bool) : Report where
  model := m.model
  memorySize := m.memory.size
  entry := m.entry
  programLoaded
  programLength := m.program.elim 0 List.length
  dumps := o.dumps.map (Dump.ofMachine m)
  findings := o.queries.map fun path => ⟨path, m.query? path⟩

def skipped (m : Machine) (o : Options) : List RangeError :=
  o.dumps.filterMap fun e =>
    match m.read e.start e.length with
    | .ok _ => none
    | .error e => some e

def Dump.row (start : Address) (bytes : List UInt8) : String :=
  start.text ++ "  " ++ String.ofList (hexBytes bytes)

/-- Sixteen bytes in a row, and the rest in the last one. -/
def Dump.rows (start : Address) : List UInt8 → List String
  | [] => []
  | b :: bs => row start (b :: bs.take 15) :: rows (start + 16) (bs.drop 15)
termination_by bytes => bytes.length
decreasing_by
  simp only [List.length_drop, List.length_cons]
  omega

def Dump.lines (d : Dump) : List String := rows d.start d.bytes

def Finding.line (f : Finding) : String :=
  let shown := f.reading.elim "<unknown path>" Reading.display
  s!"{f.path} = {shown}"

def Report.lines (r : Report) : List String :=
  s!"{r.model.name}: {r.memorySize} bytes, entry {r.entry.text}"
    :: (if r.programLoaded then s!"program: {r.programLength} bytes" else "program: not loaded")
    :: (r.dumps.flatMap Dump.lines ++ r.findings.map Finding.line)

def Dump.toJson (d : Dump) : Json :=
  .object [("address", .nat d.start.toNat), ("bytes", (Reading.bytes d.bytes).toJson)]

def Finding.toJson (f : Finding) : Json :=
  .object [("path", .string f.path), ("value", f.reading.elim .null Reading.toJson)]

def Report.toJson (r : Report) : Json :=
  .object
    [("model", .string r.model.name),
     ("memory_size", .nat r.memorySize),
     ("entry_point", .nat r.entry.toNat),
     ("program_loaded", .bool r.programLoaded),
     ("program_len", .nat r.programLength),
     ("dumps", .array (r.dumps.map Dump.toJson)),
     ("queries", .array (r.findings.map Finding.toJson))]

end ChipFamily.CommandLine
