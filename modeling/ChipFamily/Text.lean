namespace ChipFamily

/-- The letters `A` to `F`, of either case, stand for ten to fifteen. -/
def hexDigit? (c : Char) : Option Nat :=
  if '0' ≤ c ∧ c ≤ '9' then some (c.toNat - '0'.toNat)
  else if 'A' ≤ c ∧ c ≤ 'F' then some (c.toNat - 'A'.toNat + 10)
  else if 'a' ≤ c ∧ c ≤ 'f' then some (c.toNat - 'a'.toNat + 10)
  else none

def digit? (base : Nat) (c : Char) : Option Nat :=
  (hexDigit? c).filter (· < base)

/-- The value of a row of digits that follows digits worth `n`. -/
def digits? (base : Nat) (n : Nat) : List Char → Option Nat
  | [] => some n
  | c :: cs => (digit? base c).bind fun d => digits? base (base * n + d) cs

/-- A numeral has at least one digit, after an optional plus sign. -/
def numeral? (base : Nat) : List Char → Option Nat
  | '+' :: c :: cs => digits? base 0 (c :: cs)
  | c :: cs => digits? base 0 (c :: cs)
  | [] => none

theorem digits?_append (base n : Nat) (cs ds : List Char) :
    digits? base n (cs ++ ds) = (digits? base n cs).bind fun m => digits? base m ds := by
  induction cs generalizing n with
  | nil => rfl
  | cons c cs ih =>
    cases h : digit? base c with
    | none => simp [digits?, h]
    | some d => simp [digits?, h, ih]

/-- The upper-case digit worth `d`, for `d` below sixteen. -/
def hexDigit (d : Nat) : Char :=
  Char.ofNat (if d < 10 then '0'.toNat + d else 'A'.toNat + (d - 10))

/-- The last `width` hexadecimal digits of a number. -/
def hex : Nat → Nat → List Char
  | 0, _ => []
  | width + 1, n => hex width (n / 16) ++ [hexDigit (n % 16)]

@[simp] theorem digit?_hexDigit_mod (n : Nat) : digit? 16 (hexDigit (n % 16)) = some (n % 16) := by
  have hd : ∀ d : Fin 16, digit? 16 (hexDigit d) = some d.val := by decide
  exact hd ⟨n % 16, Nat.mod_lt n (by decide)⟩

theorem digits?_hex_word (w : UInt16) : digits? 16 0 (hex 4 w.toNat) = some w.toNat := by
  have hw := w.toNat_lt
  simp only [hex, List.nil_append, List.cons_append, digits?, digit?_hexDigit_mod,
    Option.bind_some, Option.some.injEq]
  omega

/-- Two digits for each byte, with a space between neighbours. -/
def hexBytes (bytes : List UInt8) : List Char :=
  [' '].intercalate (bytes.map fun b => hex 2 b.toNat)

abbrev Address := UInt16

/-- A number as a sixteen-bit word, if it fits one. -/
def word? (n : Nat) : Option UInt16 :=
  if n < UInt16.size then some (UInt16.ofNat n) else none

@[simp] theorem word?_toNat (w : UInt16) : word? w.toNat = some w := by
  simp [word?, w.toNat_lt_size]

/-- Hexadecimal after `$`, `0x` or `0X`, and decimal otherwise. -/
def Address.ofString? (text : String) : Option Address :=
  let n := match text.toList with
    | '$' :: cs => numeral? 16 cs
    | '0' :: 'x' :: cs => numeral? 16 cs
    | '0' :: 'X' :: cs => numeral? 16 cs
    | cs => numeral? 10 cs
  n.bind word?

/-- A length is written in decimal only. -/
def length? (text : String) : Option UInt16 :=
  (numeral? 10 text.toList).bind word?

def Address.text (a : Address) : String :=
  String.ofList ('$' :: hex 4 a.toNat)

/-- What follows `head` in a text that begins with it. -/
def after? (head text : String) : Option String :=
  (head.toList.isPrefixOf? text.toList).map String.ofList

/-- The texts before and after the first `mark`. -/
def cutAt? (mark : Char) (text : String) : Option (String × String) :=
  match text.toList.dropWhile (· != mark) with
  | [] => none
  | _ :: rest => some (String.ofList (text.toList.takeWhile (· != mark)), String.ofList rest)

end ChipFamily
