import ChipFamily.Query

namespace ChipFamily

inductive Machine.Command where
  | read (start : Address) (length : UInt16)
  | write (start : Address) (block : List UInt8)
  | copy (src dst : Address) (length : UInt16)
  | clear (start : Address) (length : UInt16)
  | fetch
  | checkedFetch
  | push (address : Address)
  | pop
  | loadProgram (image : List UInt8)
  | start (file : File)
  | reset
  | query (path : String)
  | takeTrap
  | enterTrap (fault : Fault)
  | setCounter (counter : Address)
  | setPointer (pointer : StackPointer)

inductive Machine.Answer where
  | done
  | ranged (result : Except RangeError Unit)
  | block (result : Except RangeError (List UInt8))
  /-- There is no word where a fetch leaves memory. -/
  | fetched (word : Option UInt16)
  | checkedFetched (result : Except RangeError UInt16)
  | pushed (result : Except StackError Unit)
  | popped (p : Popped)
  | loaded (result : Except LoadError Nat)
  | started (fits : Bool)
  | found (reading : Option Reading)
  | trap (fault : Option Fault)

namespace Machine

def perform (m : Machine) : Command → Answer × Machine
  | .read start length => (.block (m.read start length), m)
  | .write start block => (.done, m.write start block)
  | .copy src dst length => (m.copy src dst length).map .ranged id
  | .clear start length => (m.clear start length).map .ranged id
  | .fetch => (.fetched m.fetch?, m)
  | .checkedFetch => (.checkedFetched m.checkedFetch, m)
  | .push address => (m.push address).map .pushed id
  | .pop => m.pop.map .popped id
  | .loadProgram image => (m.loadProgram image).map .loaded id
  | .start file => (m.start file).map .started id
  | .reset => (.done, m.reset)
  | .query path => (.found (m.query? path), m)
  | .takeTrap => m.takeTrap.map .trap id
  | .enterTrap fault => (.done, m.enterTrap fault)
  | .setCounter counter => (.done, m.setCounter counter)
  | .setPointer pointer => (.done, m.setPointer pointer)

/-- The answers to a row of commands, and the machine after the last one. -/
def run (m : Machine) : List Command → List Answer × Machine
  | [] => ([], m)
  | c :: cs =>
    let (answer, m) := m.perform c
    let (answers, m) := m.run cs
    (answer :: answers, m)

end Machine
end ChipFamily
