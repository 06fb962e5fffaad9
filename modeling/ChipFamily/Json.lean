import ChipFamily.Text

namespace ChipFamily

inductive Json where
  | null
  | bool (b : Bool)
  | int (n : Int)
  /-- A number with a fraction, as it is written. -/
  | decimal (text : String)
  | string (s : String)
  | array (items : List Json)
  | object (fields : List (String × Json))
  deriving Inhabited

def Json.nat (n : Nat) : Json := .int n

def Json.field? (name : String) : Json → Option Json
  | .object fields => fields.lookup name
  | _ => none

def Json.word? : Json → Option UInt16
  | .int (.ofNat n) => ChipFamily.word? n
  | _ => none

/-- Quotation marks, backslashes and control characters are escaped, and nothing else. -/
def Json.escape (c : Char) : List Char :=
  match c with
  | '\x22' => ['\x5c', '\x22']
  | '\x5c' => ['\x5c', '\x5c']
  | '\x08' => ['\x5c', 'b']
  | '\x0c' => ['\x5c', 'f']
  | '\n' => ['\x5c', 'n']
  | '\r' => ['\x5c', 'r']
  | '\t' => ['\x5c', 't']
  | c => if c < ' ' then '\x5c' :: 'u' :: (hex 4 c.toNat).map Char.toLower else [c]

def Json.quote (s : String) : String :=
  String.ofList ('\x22' :: s.toList.flatMap escape ++ ['\x22'])

def Json.margin (depth : Nat) : String :=
  String.ofList (List.replicate (2 * depth) ' ')

/-- The items of a list or an object, each on a line of its own. -/
def Json.block (opening closing : String) (depth : Nat) (items : List String) : String :=
  if items.isEmpty then opening ++ closing
  else
    let rows := items.map (margin (depth + 1) ++ ·)
    opening ++ "\n" ++ ",\n".intercalate rows ++ "\n" ++ margin depth ++ closing

/-- The text of a value that stands inside `depth` lists and objects. -/
def Json.pretty (depth : Nat) : Json → String
  | .null => "null"
  | .bool b => if b then "true" else "false"
  | .int n => toString n
  | .decimal text => text
  | .string s => quote s
  | .array items => block "[" "]" depth (items.map (pretty (depth + 1)))
  | .object fields =>
    block "\x7b" "\x7d" depth
      (fields.attach.map fun ⟨f, _⟩ => quote f.1 ++ ": " ++ pretty (depth + 1) f.2)
termination_by j => sizeOf j
decreasing_by
  · decreasing_tactic
  · have hf := List.sizeOf_lt_of_mem ‹f ∈ fields›
    have hs : sizeOf f = 1 + sizeOf f.1 + sizeOf f.2 := by cases f; rfl
    simp only [Json.object.sizeOf_spec]
    omega

end ChipFamily
