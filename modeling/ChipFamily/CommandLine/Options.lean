import ChipFamily.Text
import ChipFamily.Setup

namespace ChipFamily.CommandLine

inductive BootSource where
  | font
  | empty
  | file (path : String)
  deriving DecidableEq, Repr

structure Extent where
  start : Address
  length : UInt16
  deriving DecidableEq, Repr

/-- A range without a length has 64 bytes. -/
def Extent.ofString? (text : String) : Option Extent :=
  match cutAt? ':' text with
  | some (start, length) => do return ⟨← Address.ofString? start, ← length? length⟩
  | none => (Address.ofString? text).map fun start => ⟨start, 64⟩

inductive Setting where
  | rom (path : String)
  | model (m : Model)
  | boot (source : BootSource)
  | dump (extent : Extent)
  | query (path : String)
  | json
  deriving DecidableEq, Repr

inductive UsageError where
  | missingValue (option : String)
  | unknownModel (name : String)
  | badRange (text : String)
  | unknownArgument (text : String)
  deriving DecidableEq, Repr

def UsageError.message : UsageError → String
  | .missingValue option => s!"Missing value for {option}"
  | .unknownModel name =>
    s!"Unknown model: {name} (expected chip8, eti660, superchip, xochip)"
  | .badRange text => s!"Invalid dump range: {text} (expected <addr>[:<len>])"
  | .unknownArgument text => s!"Unknown argument: {text}"

/-- An option stands alone, or takes the argument after it as its value. -/
inductive Setting.Form where
  | alone (s : Setting)
  | valued (read : String → Except UsageError Setting)

def Setting.form? : String → Option Setting.Form
  | "--rom" => some (.valued fun path => .ok (.rom path))
  | "--model" => some (.valued fun name =>
      match Model.ofName? name with
      | some m => .ok (.model m)
      | none => .error (.unknownModel name))
  | "--no-font" => some (.alone (.boot .empty))
  | "--boot" => some (.valued fun path => .ok (.boot (.file path)))
  | "--dump" => some (.valued fun text =>
      match Extent.ofString? text with
      | some extent => .ok (.dump extent)
      | none => .error (.badRange text))
  | "--query" => some (.valued fun path => .ok (.query path))
  | "--json" => some (.alone .json)
  | _ => none

/-- Nothing that begins with two dashes is a value. -/
def isValue (arg : String) : Bool := (after? "--" arg).isNone

/-- The settings of a command line in order, or the error of its first faulty option. -/
def settings : List String → Except UsageError (List Setting)
  | [] => .ok []
  | option :: args =>
    match Setting.form? option with
    | none => .error (.unknownArgument option)
    | some (.alone s) => do return s :: (← settings args)
    | some (.valued read) =>
      match args with
      | [] => .error (.missingValue option)
      | value :: args =>
        if isValue value then do
          let s ← read value
          return s :: (← settings args)
        else .error (.missingValue option)

structure Options where
  rom : Option String := none
  model : Model := .chip8
  boot : BootSource := .font
  dumps : List Extent := []
  queries : List String := []
  json : Bool := false
  deriving DecidableEq, Repr

/-- Dumps and queries add up, and of the other settings the last one counts. -/
def Options.set (o : Options) : Setting → Options
  | .rom path => { o with rom := some path }
  | .model model => { o with model }
  | .boot boot => { o with boot }
  | .dump extent => { o with dumps := o.dumps ++ [extent] }
  | .query path => { o with queries := o.queries ++ [path] }
  | .json => { o with json := true }

def Options.ofArgs (args : List String) : Except UsageError Options :=
  (settings args).map (List.foldl Options.set {})

def Options.paths (o : Options) : List String :=
  match o.boot with
  | .file path => path :: o.rom.toList
  | _ => o.rom.toList

end ChipFamily.CommandLine
