import ChipFamily.CommandLine.Report

namespace ChipFamily.CommandLine

structure Outcome where
  exitCode : UInt8 := 0
  stdout : String := ""
  stderr : String := ""
  deriving DecidableEq, Repr

/-- Each line ends in a line feed. -/
def unlines (lines : List String) : String :=
  String.join (lines.map (· ++ "\n"))

def usage : List String :=
  ["Usage: emu-chip8 [OPTIONS]",
   "",
   "Options:",
   "  --rom <file>          Program image (.ch8)",
   "  --model <name>        chip8, eti660, superchip, xochip [default: chip8]",
   "  --no-font             Leave memory below the entry point empty",
   "  --boot <file>         Boot image written at $0000 instead of the font",
   "  --dump <addr>[:<len>] Hexdump a memory range (repeatable)",
   "  --query <path>        Print a state query (repeatable)",
   "  --json                Print the report as JSON"]

def asksHelp (args : List String) : Bool :=
  args.any fun arg => arg = "--help" || arg = "-h"

inductive SetupError where
  | unreadableBoot (path : String) (cause : ReadError)
  | badMachine (cause : LoadError)
  deriving DecidableEq, Repr

def SetupError.message : SetupError → String
  | .unreadableBoot path cause => s!"Failed to read boot image {path}: {cause.message}"
  | .badMachine cause => s!"Failed to create machine: {cause.message}"

def BootSource.boot (files : FileSystem) : BootSource → Except SetupError Boot
  | .font => .ok .font
  | .empty => .ok .empty
  | .file path =>
    match files path with
    | .ok bytes => .ok (.image bytes)
    | .error cause => .error (.unreadableBoot path cause)

def Options.machine (files : FileSystem) (o : Options) : Except SetupError Machine := do
  let boot ← o.boot.boot files
  (Machine.build ⟨o.model, boot⟩).mapError .badMachine

def Options.started (files : FileSystem) (o : Options) (m : Machine) : Bool × Machine :=
  match o.rom with
  | none => (false, m)
  | some path => m.start (files.file path)

def Report.print (r : Report) (json : Bool) : String :=
  if json then unlines [r.toJson.pretty 0] else unlines r.lines

/-- The report on the machine that was started, with the ranges that it skips. -/
def Options.report (files : FileSystem) (o : Options) :
    Except SetupError (Report × List RangeError) := do
  let m ← o.machine files
  let (loaded, m) := o.started files m
  return (Report.ofMachine m o loaded, skipped m o)

/-- A program that is asked for and does not load makes the run fail, but its report is printed. -/
def Options.run (files : FileSystem) (o : Options) : Outcome :=
  match o.report files with
  | .error e => { exitCode := 1, stderr := unlines [e.message] }
  | .ok (report, skipped) =>
    { exitCode := if o.rom.isSome && !report.programLoaded then 1 else 0
      stdout := report.print o.json
      stderr := unlines (skipped.map fun e => s!"Dump skipped: {e.message}") }

def run (files : FileSystem) (args : List String) : Outcome :=
  if asksHelp args then { stderr := unlines usage }
  else
    match Options.ofArgs args with
    | .error e => { exitCode := 1, stderr := unlines [e.message] }
    | .ok o => o.run files

end ChipFamily.CommandLine
