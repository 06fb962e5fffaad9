import ChipFamily.Text
import Mathlib.Data.List.Forall2
import Mathlib.Data.Nat.Digits.Defs

namespace ChipFamily

/-- The digit worth `d` of a base up to sixteen. Letters may be of either case. -/
def IsDigit (base : Nat) (c : Char) (d : Nat) : Prop :=
  d < base ∧ ("0123456789ABCDEF".toList[d]? = some c ∨ "0123456789abcdef".toList[d]? = some c)

/-- A row of digits, at least one, and its value. -/
inductive Digits (base : Nat) : List Char → Nat → Prop where
  | row {cs : List Char} {ds : List Nat} (hne : cs ≠ []) (h : List.Forall₂ (IsDigit base) cs ds) :
      Digits base cs (Nat.ofDigits base ds.reverse)

/-- Digits, or digits after a plus sign. -/
inductive Numeral (base : Nat) : List Char → Nat → Prop where
  | plain {cs : List Char} {n : Nat} (h : Digits base cs n) : Numeral base cs n
  | signed {cs : List Char} {n : Nat} (h : Digits base cs n) : Numeral base ('+' :: cs) n

variable {base n m d : Nat} {c : Char} {cs : List Char}

/-- What holds of each character of a range by its distance from the first. -/
theorem of_between {first last : Char} {P : Char → Nat → Prop} (hc : first ≤ c ∧ c ≤ last)
    (h : ∀ i : Fin (last.toNat - first.toNat + 1), P (Char.ofNat (first.toNat + i)) i) :
    P c (c.toNat - first.toNat) := by
  have hfirst : first.toNat ≤ c.toNat := hc.1
  have hlast : c.toNat ≤ last.toNat := hc.2
  have hp := h ⟨c.toNat - first.toNat, by omega⟩
  rwa [Nat.add_sub_of_le hfirst, Char.ofNat_toNat] at hp

theorem getElem?_of_hexDigit? (h : hexDigit? c = some d) :
    "0123456789ABCDEF".toList[d]? = some c ∨ "0123456789abcdef".toList[d]? = some c := by
  unfold hexDigit? at h
  split at h
  · rename_i hc
    cases h
    exact .inl (of_between (P := fun c d => "0123456789ABCDEF".toList[d]? = some c) hc (by decide))
  split at h
  · rename_i hc
    cases h
    exact .inl (of_between (P := fun c d => "0123456789ABCDEF".toList[d + 10]? = some c) hc
      (by decide))
  split at h
  · rename_i hc
    cases h
    exact .inr (of_between (P := fun c d => "0123456789abcdef".toList[d + 10]? = some c) hc
      (by decide))
  · cases h

theorem hexDigit?_of_getElem?
    (h : "0123456789ABCDEF".toList[d]? = some c ∨ "0123456789abcdef".toList[d]? = some c) :
    hexDigit? c = some d := by
  have hupper : ∀ i : Fin 16, hexDigit? ("0123456789ABCDEF".toList.get i) = some i.val := by decide
  have hlower : ∀ i : Fin 16, hexDigit? ("0123456789abcdef".toList.get i) = some i.val := by decide
  obtain h | h := h
  · obtain ⟨hd, rfl⟩ := List.getElem?_eq_some_iff.1 h
    exact hupper ⟨d, hd⟩
  · obtain ⟨hd, rfl⟩ := List.getElem?_eq_some_iff.1 h
    exact hlower ⟨d, hd⟩

theorem digit?_eq_some_iff : digit? base c = some d ↔ IsDigit base c d := by
  rw [digit?, Option.filter_eq_some_iff, decide_eq_true_iff, and_comm]
  exact and_congr_right fun _ => ⟨getElem?_of_hexDigit?, hexDigit?_of_getElem?⟩

theorem digits?_eq_some_iff :
    digits? base n cs = some m ↔ ∃ ds, List.Forall₂ (IsDigit base) cs ds ∧
      ds.foldl (fun n d => base * n + d) n = m := by
  induction cs generalizing n with
  | nil => simp [digits?]
  | cons c cs ih =>
    rw [digits?, Option.bind_eq_some_iff]
    constructor
    · rintro ⟨d, hd, hcs⟩
      obtain ⟨ds, hds, hm⟩ := ih.1 hcs
      exact ⟨d :: ds, .cons (digit?_eq_some_iff.1 hd) hds, hm⟩
    · rintro ⟨ds, hds, hm⟩
      cases hds with
      | cons hd hds => exact ⟨_, digit?_eq_some_iff.2 hd, ih.2 ⟨_, hds, hm⟩⟩

/-- Reading digits from the left is positional notation. -/
theorem foldl_eq_ofDigits (base : Nat) (ds : List Nat) :
    ds.foldl (fun n d => base * n + d) 0 = Nat.ofDigits base ds.reverse := by
  rw [Nat.ofDigits_eq_foldr, List.foldr_reverse]
  simp only [Nat.cast_id, Nat.add_comm]

theorem digits_iff : Digits base cs n ↔ cs ≠ [] ∧ digits? base 0 cs = some n := by
  rw [digits?_eq_some_iff]
  constructor
  · rintro ⟨hne, h⟩
    exact ⟨hne, _, h, foldl_eq_ofDigits base _⟩
  · rintro ⟨hne, ds, h, rfl⟩
    rw [foldl_eq_ofDigits]
    exact .row hne h

theorem digits_cons_iff : Digits base (c :: cs) n ↔ digits? base 0 (c :: cs) = some n := by
  rw [digits_iff]
  exact and_iff_right (List.cons_ne_nil c cs)

theorem not_digits_nil : ¬ Digits base [] n := fun h => (digits_iff.1 h).1 rfl

theorem not_digits_of_digit? (h : digit? base c = none) : ¬ Digits base (c :: cs) n := by
  rw [digits_cons_iff, digits?, h]
  intro hn
  cases hn

theorem not_digits_plus : ¬ Digits base ('+' :: cs) n :=
  not_digits_of_digit? rfl

theorem numeral_plus_iff : Numeral base ('+' :: cs) n ↔ Digits base cs n := by
  constructor
  · intro h
    cases h with
    | plain h => exact absurd h not_digits_plus
    | signed h => exact h
  · exact .signed

theorem numeral_iff_of_ne (h : ∀ ds, cs ≠ '+' :: ds) : Numeral base cs n ↔ Digits base cs n := by
  constructor
  · intro hn
    cases hn with
    | plain hn => exact hn
    | signed _ => exact absurd rfl (h _)
  · exact .plain

theorem numeral?_eq_some_iff : numeral? base cs = some n ↔ Numeral base cs n := by
  unfold numeral?
  split
  · rw [numeral_plus_iff, digits_cons_iff]
  · rename_i c cs hne
    -- A sign that stands here has nothing after it, and is no digit.
    by_cases hc : c = '+'
    · subst hc
      cases cs with
      | nil =>
        rw [← digits_cons_iff, numeral_plus_iff]
        exact iff_of_false not_digits_plus not_digits_nil
      | cons c' cs => exact absurd rfl (hne c' cs rfl)
    · rw [numeral_iff_of_ne fun ds he => hc (List.cons.inj he).1, digits_cons_iff]
  · have hne : ∀ ds, ([] : List Char) ≠ '+' :: ds := nofun
    rw [numeral_iff_of_ne hne]
    exact iff_of_false nofun not_digits_nil

theorem IsDigit.mem (h : IsDigit base c d) : c ∈ "0123456789ABCDEFabcdef".toList := by
  have hupper : "0123456789ABCDEF".toList ⊆ "0123456789ABCDEFabcdef".toList := by decide
  have hlower : "0123456789abcdef".toList ⊆ "0123456789ABCDEFabcdef".toList := by decide
  obtain ⟨-, h | h⟩ := h
  · exact hupper (List.mem_of_getElem? h)
  · exact hlower (List.mem_of_getElem? h)

theorem Digits.mem (h : Digits base cs n) (hc : c ∈ cs) : c ∈ "0123456789ABCDEFabcdef".toList := by
  obtain ⟨-, h⟩ := h
  induction h with
  | nil => cases hc
  | cons hd _ ih =>
    obtain rfl | hc := List.mem_cons.1 hc
    · exact hd.mem
    · exact ih hc

theorem Digits.zeros (hb : 0 < base) (h : Digits base cs n) (k : Nat) :
    Digits base (List.replicate k '0' ++ cs) n := by
  obtain ⟨hne, h⟩ := h
  rename_i ds
  have hzero : IsDigit base '0' 0 := ⟨hb, .inl rfl⟩
  have hall : List.Forall₂ (IsDigit base) (List.replicate k '0' ++ cs)
      (List.replicate k 0 ++ ds) := by
    induction k with
    | zero => exact h
    | succ k ih => exact .cons hzero ih
  have hrow := Digits.row (List.append_ne_nil_of_right_ne_nil _ hne) hall
  rwa [List.reverse_append, List.reverse_replicate, Nat.ofDigits_append_replicate_zero] at hrow

theorem digit?_digitChar (h : d < 10) : digit? 10 d.digitChar = some d := by
  have hall : ∀ d : Fin 10, digit? 10 d.val.digitChar = some d.val := by decide
  exact hall ⟨d, h⟩

theorem digits?_toDigits (n : Nat) : digits? 10 0 (Nat.toDigits 10 n) = some n := by
  induction n using Nat.strongRecOn with
  | ind n ih =>
    rw [Nat.toDigits_eq_if (by decide)]
    split
    · rename_i hn
      rw [digits?, digit?_digitChar hn, Option.bind_some, digits?, Nat.mul_zero, Nat.zero_add]
    · rename_i hn
      rw [digits?_append, ih (n / 10) (by omega), Option.bind_some, digits?,
        digit?_digitChar (Nat.mod_lt n (by decide)), Option.bind_some, digits?, Nat.div_add_mod]

theorem numeral_toString (n : Nat) : Numeral 10 (toString n).toList n := by
  have hrepr : (toString n).toList = Nat.toDigits 10 n := Nat.toList_repr
  rw [hrepr]
  exact .plain (digits_iff.2 ⟨Nat.toDigits_ne_nil, digits?_toDigits n⟩)

theorem word?_eq_some_iff {w : UInt16} : word? n = some w ↔ n = w.toNat := by
  constructor
  · intro h
    rw [word?] at h
    split at h
    · rename_i hn
      cases h
      exact (UInt16.toNat_ofNat_of_lt hn).symm
    · cases h
  · rintro rfl
    exact word?_toNat w

theorem length?_eq_some_iff {text : String} {w : UInt16} :
    length? text = some w ↔ Numeral 10 text.toList w.toNat := by
  simp only [length?, Option.bind_eq_some_iff, numeral?_eq_some_iff, word?_eq_some_iff,
    exists_eq_right]

theorem length?_toString (w : UInt16) : length? (toString w.toNat) = some w :=
  length?_eq_some_iff.2 (numeral_toString w.toNat)

end ChipFamily
