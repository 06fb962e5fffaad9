import ChipFamily.Query
import ChipFamily.Proofs.Memory.Paths

namespace ChipFamily

variable {form text path : String} {r : Reading}

namespace ReturnStack

variable {s : ReturnStack}

/-- What the return stack shows at a path of a form, also of slots that are not in use. -/
inductive Shows (s : ReturnStack) : (form path : String) → Reading → Prop where
  | slot {text : String} {i : Nat} (hi : Numeral 10 text.toList i) (h : i < s.slots.size) :
      Shows s "<slot>" text (.word s.slots[i])

theorem shows_of_query? (hne : text ≠ "capacity") (h : s.query? text = some r) :
    ∃ form, s.Shows form text r := by
  obtain ⟨q, hq, hr⟩ := Option.bind_eq_some_iff.1 h
  rw [Query.ofString?, if_neg hne] at hq
  obtain ⟨i, hi, rfl⟩ := Option.map_eq_some_iff.1 hq
  obtain ⟨w, hw, rfl⟩ := Option.map_eq_some_iff.1 hr
  obtain ⟨hlt, rfl⟩ := Array.getElem?_eq_some_iff.1 hw
  exact ⟨_, .slot (numeral?_eq_some_iff.1 hi) hlt⟩

theorem query?_of_shows (h : s.Shows form text r) : s.query? text = some r := by
  obtain ⟨hi, hlt⟩ := h
  rw [← numeral?_eq_some_iff] at hi
  have hne : text ≠ "capacity" := by
    rintro rfl
    cases hi
  rw [query?, Query.ofString?, if_neg hne, hi]
  change (s.slots[_]?).map _ = _
  rw [Array.getElem?_eq_getElem hlt]
  rfl

theorem query?_eq_some_iff :
    s.query? text = some r ↔
      (text = "capacity" ∧ r = .count (UInt32.ofNat s.capacity)) ∨ ∃ form, s.Shows form text r := by
  constructor
  · intro h
    by_cases hc : text = "capacity"
    · subst hc
      cases h
      exact .inl ⟨rfl, rfl⟩
    · exact .inr (shows_of_query? hc h)
  · rintro (⟨rfl, rfl⟩ | ⟨form, h⟩)
    · rfl
    · exact query?_of_shows h

theorem exists_shows_iff :
    (∃ form r, s.Shows form text r) ↔
      ∃ i, Numeral 10 text.toList i ∧ i < UInt64.size ∧ i < s.capacity := by
  constructor
  · rintro ⟨form, r, hi, hlt⟩
    have hfit : s.slots.size < UInt64.size := Nat.lt_trans s.capacity_lt (by decide)
    exact ⟨_, hi, Nat.lt_trans hlt hfit, hlt⟩
  · rintro ⟨i, hi, -, hlt⟩
    exact ⟨_, _, .slot hi hlt⟩

end ReturnStack

namespace Machine

variable {m : Machine}

/-- The paths without a place to fill, and what is shown there. -/
def named (m : Machine) : List (String × Reading) :=
  [("model", .text m.model.name),
   ("program.len", .count (UInt32.ofNat (m.program.elim 0 List.length))),
   ("cpu.pc", .word m.registers.counter),
   ("cpu.sp", .word m.registers.pointer),
   ("cpu.trap", .text (m.registers.pending.elim "none" Fault.text)),
   ("cpu.trap_pending", .flag m.registers.pending.isSome),
   ("cpu.trap_count", .count m.registers.traps),
   ("memory.size", .count (UInt32.ofNat m.memory.size)),
   ("memory.entry", .word m.entry),
   ("stack.capacity", .count (UInt32.ofNat m.stack.capacity)),
   ("stack.depth", .word m.registers.pointer.depth),
   ("stack.entries", .list ((m.stack.entries m.registers.pointer).map .word))]

/-- What a machine shows at a path of a form. -/
inductive Shows (m : Machine) : (form path : String) → Reading → Prop where
  | named {path : String} {r : Reading} (h : (path, r) ∈ m.named) : Shows m path path r
  | memory {form path : String} {r : Reading} (h : m.memory.Shows form path r) :
      Shows m ("memory." ++ form) ("memory." ++ path) r
  | stack {form path : String} {r : Reading} (h : m.stack.Shows form path r) :
      Shows m ("stack." ++ form) ("stack." ++ path) r

theorem map_fst_named (m : Machine) :
    m.named.map Prod.fst = queryPaths.filter fun path => '<' ∉ path.toList :=
  rfl

theorem Shows.mem_queryPaths (h : m.Shows form path r) : form ∈ queryPaths := by
  cases h with
  | named h =>
    have hmem := List.mem_map_of_mem (f := Prod.fst) h
    rw [map_fst_named] at hmem
    exact (List.mem_filter.1 hmem).1
  | memory h => cases h <;> decide
  | stack h => cases h; decide

theorem query?_of_mem_named (h : (path, r) ∈ m.named) : m.query? path = some r := by
  have hall : ∀ entry ∈ m.named, m.query? entry.1 = some entry.2 := by
    simp only [named, List.forall_mem_cons, List.not_mem_nil, false_imp_iff, implies_true, and_true]
    exact ⟨rfl, rfl, rfl, rfl, rfl, rfl, rfl, rfl, rfl, rfl, rfl, rfl⟩
  exact hall (path, r) h

theorem query?_cpu :
    m.query? ("cpu." ++ text) = (Registers.Query.ofString? text).map m.registers.answer := by
  rw [query?, Query.ofString?, after?_eq_some_iff.2 rfl]
  change ((Registers.Query.ofString? text).map Query.registers).bind _ = _
  rw [Option.bind_map, Option.map_eq_bind]
  rfl

theorem query?_memory (hne : text ≠ "entry") :
    m.query? ("memory." ++ text) = m.memory.query? text := by
  have hcpu : after? "cpu." ("memory." ++ text) = none := by
    rw [after?, String.toList_append]
    rfl
  rw [query?, Query.ofString?, hcpu, after?_eq_some_iff.2 rfl]
  change (if text = "entry" then _ else _ : Option Query).bind _ = _
  rw [if_neg hne, Option.bind_map]
  rfl

theorem query?_stack (hd : text ≠ "depth") (he : text ≠ "entries") :
    m.query? ("stack." ++ text) = m.stack.query? text := by
  have hcpu : after? "cpu." ("stack." ++ text) = none := by
    rw [after?, String.toList_append]
    rfl
  have hmemory : after? "memory." ("stack." ++ text) = none := by
    rw [after?, String.toList_append]
    rfl
  rw [query?, Query.ofString?, hcpu, hmemory, after?_eq_some_iff.2 rfl]
  change (if text = "depth" then _ else if text = "entries" then _ else _ : Option Query).bind _ = _
  rw [if_neg hd, if_neg he, Option.bind_map]
  rfl

theorem query?_of_shows (h : m.Shows form path r) : m.query? path = some r := by
  cases h with
  | named h => exact query?_of_mem_named h
  | memory h =>
    have hq := Memory.query?_of_shows h
    have hne : ∀ text, m.memory.query? text = some r → text ≠ "entry" := by
      rintro _ hq rfl
      cases hq
    rw [query?_memory (hne _ hq), hq]
  | stack h =>
    have hq := ReturnStack.query?_of_shows h
    have hne : ∀ text, m.stack.query? text = some r → text ≠ "depth" ∧ text ≠ "entries" := by
      intro text hq
      constructor <;> rintro rfl <;> cases hq
    rw [query?_stack (hne _ hq).1 (hne _ hq).2, hq]

theorem mem_named_of_registers {q : Registers.Query} (h : Registers.Query.ofString? text = some q) :
    ("cpu." ++ text, m.registers.answer q) ∈ m.named := by
  unfold Registers.Query.ofString? at h
  split at h <;> cases h <;> simp [named, Registers.answer]

theorem shows_cpu (h : m.query? ("cpu." ++ text) = some r) :
    ∃ form, m.Shows form ("cpu." ++ text) r := by
  rw [query?_cpu] at h
  obtain ⟨q, hq, rfl⟩ := Option.map_eq_some_iff.1 h
  exact ⟨_, .named (mem_named_of_registers hq)⟩

theorem shows_memory (h : m.query? ("memory." ++ text) = some r) :
    ∃ form, m.Shows form ("memory." ++ text) r := by
  by_cases he : text = "entry"
  · subst he
    cases h
    exact ⟨"memory.entry", .named (by simp [named])⟩
  · rw [query?_memory he, Memory.query?_eq_some_iff] at h
    obtain ⟨rfl, rfl⟩ | ⟨form, h⟩ := h
    · exact ⟨"memory.size", .named (by simp [named])⟩
    · exact ⟨_, .memory h⟩

theorem shows_stack (h : m.query? ("stack." ++ text) = some r) :
    ∃ form, m.Shows form ("stack." ++ text) r := by
  by_cases hd : text = "depth"
  · subst hd
    cases h
    exact ⟨"stack.depth", .named (by simp [named])⟩
  by_cases he : text = "entries"
  · subst he
    cases h
    exact ⟨"stack.entries", .named (by simp [named])⟩
  · rw [query?_stack hd he, ReturnStack.query?_eq_some_iff] at h
    obtain ⟨rfl, rfl⟩ | ⟨form, h⟩ := h
    · exact ⟨"stack.capacity", .named (by simp [named])⟩
    · exact ⟨_, .stack h⟩

theorem shows_of_query? (h : m.query? path = some r) : ∃ form, m.Shows form path r := by
  cases hcpu : after? "cpu." path with
  | some text =>
    obtain rfl := after?_eq_some_iff.1 hcpu
    exact shows_cpu h
  | none =>
  cases hmemory : after? "memory." path with
  | some text =>
    obtain rfl := after?_eq_some_iff.1 hmemory
    exact shows_memory h
  | none =>
  cases hstack : after? "stack." path with
  | some text =>
    obtain rfl := after?_eq_some_iff.1 hstack
    exact shows_stack h
  | none =>
    obtain ⟨q, hq, hr⟩ := Option.bind_eq_some_iff.1 h
    rw [Query.ofString?, hcpu, hmemory, hstack] at hq
    change (if path = "model" then _ else if path = "program.len" then _ else _) = _ at hq
    split at hq
    · subst path
      cases hq
      cases hr
      exact ⟨_, .named (by simp [named])⟩
    split at hq
    · subst path
      cases hq
      cases hr
      exact ⟨_, .named (by simp [named])⟩
    · cases hq

/-- The paths without a place to fill are the advertised ones. -/
theorem mem_queryPaths_iff :
    path ∈ queryPaths ∧ '<' ∉ path.toList ↔ ∃ r, (path, r) ∈ m.named := by
  have hmem := congrArg (path ∈ ·) (map_fst_named m)
  simpa using hmem.symm

theorem exists_shows_iff :
    (∃ form r, m.Shows form path r) ↔
      (path ∈ queryPaths ∧ '<' ∉ path.toList) ∨
      (∃ text, path = "memory." ++ text ∧ ∃ form r, m.memory.Shows form text r) ∨
      ∃ text, path = "stack." ++ text ∧ ∃ form r, m.stack.Shows form text r := by
  rw [mem_queryPaths_iff (m := m)]
  constructor
  · rintro ⟨form, r, h⟩
    cases h with
    | named h => exact .inl ⟨_, h⟩
    | memory h => exact .inr (.inl ⟨_, rfl, _, _, h⟩)
    | stack h => exact .inr (.inr ⟨_, rfl, _, _, h⟩)
  · rintro (⟨r, h⟩ | ⟨text, rfl, form, r, h⟩ | ⟨text, rfl, form, r, h⟩)
    · exact ⟨_, _, .named h⟩
    · exact ⟨_, _, .memory h⟩
    · exact ⟨_, _, .stack h⟩

/-- The lowest address and the lowest slot can stand in every form. -/
theorem exists_shows_of_mem_queryPaths (m : Machine) (h : form ∈ queryPaths) :
    ∃ path r, m.Shows form path r := by
  by_cases hplace : '<' ∈ form.toList
  · have hforms : ∀ form ∈ queryPaths, '<' ∈ form.toList → form = "memory.<address>" ∨
        form = "memory.<address>:<len>" ∨ form = "stack.<slot>" := by decide
    have ha : Address.ofString? "0" = some 0 := rfl
    have hn : Numeral 10 "0".toList 0 := numeral?_eq_some_iff.1 rfl
    have hempty : ∀ i, i < 0 → ([] : List UInt8)[i]? = m.memory.bytes[0 + i]? := nofun
    obtain rfl | rfl | rfl := hforms form h hplace
    · exact ⟨_, _, .memory (.byte ha m.memory.size_pos)⟩
    · exact ⟨_, _, .memory (.block ha hn (Nat.zero_le _) (.inl rfl) rfl hempty)⟩
    · exact ⟨_, _, .stack (.slot hn m.stack.capacity_pos)⟩
  · obtain ⟨r, hr⟩ := (mem_queryPaths_iff (m := m)).1 ⟨h, hplace⟩
    exact ⟨_, _, .named hr⟩

theorem query?_eq_some_iff : m.query? path = some r ↔ ∃ form, m.Shows form path r :=
  ⟨shows_of_query?, fun ⟨_, h⟩ => query?_of_shows h⟩

/-- The paths of the advertised forms are answered where they are in range, and no others. -/
theorem query?_answers_advertised (m : Machine) :
    (∀ path r, m.query? path = some r ↔ ∃ form ∈ queryPaths, m.Shows form path r) ∧
    (∀ form ∈ queryPaths, ∃ path r, m.Shows form path r) ∧
    ∀ path, (m.query? path).isSome ↔
      (path ∈ queryPaths ∧ '<' ∉ path.toList) ∨
      (∃ start a, path = "memory." ++ start ∧ Address.ofString? start = some a ∧
        a.toNat < m.memory.size) ∨
      (∃ start length a n, path = "memory." ++ (start ++ ":" ++ length) ∧ ':' ∉ start.toList ∧
        Address.ofString? start = some a ∧ Numeral 10 length.toList n ∧ n ≤ 65535 ∧
        (n = 0 ∨ a.toNat + n ≤ m.memory.size)) ∨
      ∃ text i, path = "stack." ++ text ∧ Numeral 10 text.toList i ∧ i < UInt64.size ∧
        i < m.stack.capacity := by
  refine ⟨fun path r => ?_, fun form => exists_shows_of_mem_queryPaths m, fun path => ?_⟩
  · rw [query?_eq_some_iff]
    exact exists_congr fun form => ⟨fun h => ⟨h.mem_queryPaths, h⟩, And.right⟩
  · have hsome : (m.query? path).isSome ↔ ∃ form r, m.Shows form path r := by
      rw [Option.isSome_iff_exists, exists_comm]
      exact exists_congr fun r => query?_eq_some_iff
    rw [hsome, exists_shows_iff]
    simp only [Memory.exists_shows_iff, ReturnStack.exists_shows_iff]
    apply or_congr_right
    constructor
    · rintro (⟨text, rfl, ⟨a, ha⟩ | ⟨start, length, a, n, rfl, hrest⟩⟩ | ⟨text, rfl, i, hi⟩)
      · exact .inl ⟨_, _, rfl, ha⟩
      · exact .inr (.inl ⟨_, _, _, _, rfl, hrest⟩)
      · exact .inr (.inr ⟨_, _, rfl, hi⟩)
    · rintro (⟨start, a, rfl, ha⟩ | ⟨start, length, a, n, rfl, hrest⟩ | ⟨text, i, rfl, hi⟩)
      · exact .inl ⟨_, rfl, .inl ⟨_, ha⟩⟩
      · exact .inl ⟨_, rfl, .inr ⟨_, _, _, _, rfl, hrest⟩⟩
      · exact .inr ⟨_, rfl, _, hi⟩

end Machine
end ChipFamily
