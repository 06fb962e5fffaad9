import ChipFamily.Proofs.Memory.Access
import ChipFamily.Proofs.Processor

namespace ChipFamily.Memory

inductive Update where
  | write (start : Address) (block : List UInt8)
  | writeByte (a : Address) (b : UInt8)
  | clear (start : Address) (length : UInt16)
  | copy (src dst : Address) (length : UInt16)
  | wipe
  | boot (image : List UInt8) (limit : Address)
  | program (entry : Address) (image : List UInt8)
  deriving DecidableEq, Repr

/-- Memory stays as it was where an operation on it fails. -/
def settle {ε : Type} (m : Memory) : Except ε Memory → Bool × Memory
  | .ok memory => (true, memory)
  | .error _ => (false, m)

/-- Applies an update and says whether it succeeded. A write failed if it asked for a trap. -/
def apply {σ : Type} [Processor σ] (m : Memory) (cpu : σ) : Update → Bool × Memory × σ
  | .write start block =>
    let (memory, watched) := m.write (Watched.of cpu) start block
    (watched.requests.isEmpty, memory, watched.cpu)
  | .writeByte a b =>
    let (memory, watched) := m.writeByte (Watched.of cpu) a b
    (watched.requests.isEmpty, memory, watched.cpu)
  | .clear start length => (m.settle (m.clear start length)).map id (·, cpu)
  | .copy src dst length => (m.settle (m.copy src dst length)).map id (·, cpu)
  | .wipe => (true, m.wipe, cpu)
  | .boot image limit => (m.settle (m.loadBoot image limit)).map id (·, cpu)
  | .program entry image =>
    (m.settle ((m.loadProgram entry image).map Prod.snd)).map id (·, cpu)

def applyAll {σ : Type} [Processor σ] (m : Memory) (cpu : σ) :
    List Update → List Bool × Memory × σ
  | [] => ([], m, cpu)
  | u :: us =>
    let (succeeded, m, cpu) := m.apply cpu u
    let (rest, m, cpu) := m.applyAll cpu us
    (succeeded :: rest, m, cpu)

namespace Update

def Fits (size : Nat) : Update → Prop
  | .write start block => Inside size start block.length
  | .writeByte a _ => Inside size a 1
  | .clear start length => Inside size start length.toNat
  | .copy src dst length => Inside size src length.toNat ∧ Inside size dst length.toNat
  | .wipe => True
  | .boot image limit => image.length ≤ min limit.toNat size
  | .program entry image => entry.toNat + image.length < size

instance (size : Nat) (u : Update) : Decidable (u.Fits size) :=
  match u with
  | .write .. | .writeByte .. | .clear .. => inferInstanceAs (Decidable (Inside ..))
  | .copy .. => inferInstanceAs (Decidable (_ ∧ _))
  | .wipe => inferInstanceAs (Decidable True)
  | .boot .. => inferInstanceAs (Decidable (_ ≤ _))
  | .program .. => inferInstanceAs (Decidable (_ < _))

def target : Update → Nat
  | .write start _ | .clear start _ | .copy _ start _ | .program start _ => start.toNat
  | .writeByte a _ => a.toNat
  | .wipe | .boot .. => 0

def length (size : Nat) : Update → Nat
  | .write _ block | .boot block _ | .program _ block => block.length
  | .writeByte .. => 1
  | .clear _ length | .copy _ _ length => length.toNat
  | .wipe => size

def Reaches (size : Nat) (u : Update) (k : Nat) : Prop :=
  u.target ≤ k ∧ k < u.target + u.length size

instance (size : Nat) (u : Update) (k : Nat) : Decidable (u.Reaches size k) :=
  inferInstanceAs (Decidable (_ ∧ _))

/-- The byte that an update puts at offset `i` of its destination, if memory held `old`. -/
def value (old : Nat → UInt8) (i : Nat) : Update → UInt8
  | .write _ block | .boot block _ | .program _ block => block.getD i 0
  | .writeByte _ b => b
  | .clear .. | .wipe => 0
  | .copy src dst _ => old (copySource src.toNat dst.toNat i)

end Update

/-- The byte that the last update to reach a place put there, the latest one coming first. -/
def lastWritten (size : Nat) : List Update → Nat → UInt8
  | [], _ => 0
  | u :: earlier, k =>
    if u.Fits size ∧ u.Reaches size k then u.value (lastWritten size earlier) (k - u.target)
    else lastWritten size earlier k

theorem lastWritten_of_not_reaches {size : Nat} {u : Update} {earlier : List Update} {k : Nat}
    (h : ¬ (u.Fits size ∧ u.Reaches size k)) :
    lastWritten size (u :: earlier) k = lastWritten size earlier k :=
  if_neg h

theorem apply_of_not_fits {σ : Type} [Processor σ] {m : Memory} {u : Update} (cpu : σ)
    (h : ¬ u.Fits m.size) : ∃ cpu', m.apply cpu u = (false, m, cpu') := by
  cases u with
  | write start block =>
    rw [apply, write_of_not_inside _ h]
    exact ⟨_, rfl⟩
  | writeByte a b =>
    have ha : ¬ Inside m.size a [b].length := h
    rw [apply, writeByte, write_of_not_inside _ ha]
    exact ⟨_, rfl⟩
  | clear start n =>
    rw [apply, clear_of_not_inside h]
    exact ⟨_, rfl⟩
  | copy src dst n =>
    rw [apply, copy_of_not_inside h]
    exact ⟨_, rfl⟩
  | wipe => exact absurd trivial h
  | boot image limit =>
    rw [apply, loadBoot_of_not_le h]
    exact ⟨_, rfl⟩
  | program entry image =>
    rw [apply, loadProgram_of_not_lt h]
    exact ⟨_, rfl⟩

/-- Memory that holds the bytes of a function. -/
def Holds (m : Memory) (bytes : Nat → UInt8) : Prop :=
  ∀ k, k < m.size → m.bytes[k]? = some (bytes k)

theorem Holds.congr {m : Memory} {bytes bytes' : Nat → UInt8} (hm : m.Holds bytes)
    (h : ∀ k, bytes k = bytes' k) : m.Holds bytes' := by
  rw [← funext h]
  exact hm

theorem Holds.place {m : Memory} {bytes : Nat → UInt8} (hm : m.Holds bytes) {first : Nat}
    {block : List UInt8} (h : block.length = 0 ∨ first + block.length ≤ m.size) :
    (m.place first block).Holds fun k =>
      if first ≤ k ∧ k < first + block.length then block.getD (k - first) 0 else bytes k := by
  intro k hk
  rw [size_place] at hk
  rw [getElem?_place h]
  by_cases hr : first ≤ k ∧ k < first + block.length
  · have hlt : k - first < block.length := by omega
    simp only [if_pos hr, List.getD_eq_getElem?_getD, List.getElem?_eq_getElem hlt,
      Option.getD_some]
  · simp only [if_neg hr]
    exact hm k hk

theorem Holds.moveForward {m memory : Memory} {bytes : Nat → UInt8} (hm : m.Holds bytes)
    {src dst n : Nat} (hs : n = 0 ∨ src + n ≤ m.size) (hd : n = 0 ∨ dst + n ≤ m.size)
    (hbytes : memory.bytes = moveForward m.bytes src dst n) :
    memory.Holds fun k =>
      if dst ≤ k ∧ k < dst + n then bytes (copySource src dst (k - dst)) else bytes k := by
  intro k hk
  rw [size, hbytes, size_moveForward] at hk
  rw [hbytes, getElem?_moveForward _ _ _ _ _ hs hd]
  by_cases hr : dst ≤ k ∧ k < dst + n
  · have hsrc := copySource_lt src dst (i := k - dst) (n := n) (by omega)
    simp only [if_pos hr]
    exact hm _ (by omega)
  · simp only [if_neg hr]
    exact hm k hk

theorem holds_blank (size : Nat) (hpos : 0 < size) (hle : size ≤ 0x10000) :
    (blank size hpos hle).Holds fun _ => 0 := by
  intro k hk
  rw [size_blank] at hk
  simp only [blank, Array.getElem?_replicate]
  exact if_pos hk

theorem getD_zeros (n i : Nat) : (List.replicate n (0 : UInt8)).getD i 0 = 0 := by
  rw [List.getD_eq_getElem?_getD, List.getElem?_replicate]
  split <;> rfl

theorem Holds.place_byte {m : Memory} {bytes : Nat → UInt8} (hm : m.Holds bytes) {first : Nat}
    (b : UInt8) (h : first + 1 ≤ m.size) :
    (m.place first [b]).Holds fun k => if first ≤ k ∧ k < first + 1 then b else bytes k := by
  have hb : [b].length = 0 ∨ first + [b].length ≤ m.size := .inr h
  refine (hm.place hb).congr fun k => ?_
  rw [List.length_singleton]
  by_cases hr : first ≤ k ∧ k < first + 1
  · rw [if_pos hr, if_pos hr, show k - first = 0 by omega]
    rfl
  · rw [if_neg hr, if_neg hr]

theorem Holds.place_zeros {m : Memory} {bytes : Nat → UInt8} (hm : m.Holds bytes) {first n : Nat}
    (h : n = 0 ∨ first + n ≤ m.size) :
    (m.place first (List.replicate n 0)).Holds fun k =>
      if first ≤ k ∧ k < first + n then 0 else bytes k := by
  have hlen : (List.replicate n (0 : UInt8)).length = n := List.length_replicate
  refine (hm.place (by rw [hlen]; exact h)).congr fun k => ?_
  rw [hlen, getD_zeros]

theorem Holds.apply {σ : Type} [Processor σ] {m : Memory} {bytes : Nat → UInt8} {u : Update}
    (hm : m.Holds bytes) (cpu : σ) (hf : u.Fits m.size) :
    ∃ memory, m.apply cpu u = (true, memory, cpu) ∧ memory.size = m.size ∧
      memory.Holds fun k =>
        if u.Reaches m.size k then u.value bytes (k - u.target) else bytes k := by
  cases u with
  | write start block =>
    refine ⟨m.place start.toNat block, ?_, size_place .., hm.place hf⟩
    rw [Memory.apply, write_of_inside _ hf]
    rfl
  | writeByte a b =>
    have ha : Inside m.size a [b].length := hf
    refine ⟨m.place a.toNat [b], ?_, size_place .., ?_⟩
    · rw [Memory.apply, writeByte, write_of_inside _ ha]
      rfl
    · exact hm.place_byte b (ha.resolve_left (Nat.succ_ne_zero 0))
  | clear start n =>
    refine ⟨m.place start.toNat (List.replicate n.toNat 0), ?_, size_place .., hm.place_zeros hf⟩
    rw [Memory.apply, clear_of_inside hf]
    rfl
  | copy src dst n =>
    obtain ⟨memory, hcopy, hbytes⟩ := copy_of_inside hf.1 hf.2
    refine ⟨memory, ?_, ?_, hm.moveForward hf.1 hf.2 hbytes⟩
    · rw [Memory.apply, hcopy]
      rfl
    · rw [size, hbytes, size_moveForward]
      rfl
  | wipe =>
    refine ⟨m.wipe, rfl, size_wipe m, ?_⟩
    intro k hk
    have hr : Update.wipe.Reaches m.size k := by
      rw [size_wipe] at hk
      rw [Update.Reaches, Update.target, Update.length]
      omega
    simp only [if_pos hr]
    exact holds_blank m.size m.size_pos m.size_le k hk
  | boot image limit =>
    have hle : image.length = 0 ∨ 0 + image.length ≤ m.size := by
      have hmin : image.length ≤ min limit.toNat m.size := hf
      omega
    refine ⟨m.place 0 image, ?_, size_place .., hm.place hle⟩
    rw [Memory.apply, loadBoot_of_le hf]
    rfl
  | program entry image =>
    refine ⟨m.place entry.toNat image, ?_, size_place .., hm.place (inside_of_lt hf)⟩
    rw [Memory.apply, loadProgram_of_lt hf]
    rfl

theorem holds_getD (m : Memory) : m.Holds fun k => m.bytes.getD k 0 := by
  intro k hk
  change m.bytes[k]? = some (m.bytes.getD k 0)
  rw [Array.getD_eq_getD_getElem?, Array.getElem?_eq_getElem hk, Option.getD_some]

theorem Holds.read {m : Memory} {bytes : Nat → UInt8} (hm : m.Holds bytes) {start : Address}
    {n : UInt16} (h : Inside m.size start n.toNat) :
    m.read start n = .ok ((List.range n.toNat).map fun i => bytes (start.toNat + i)) := by
  rw [read_of_inside h]
  congr 1
  apply List.ext_getElem?
  intro i
  have hsize : m.bytes.size = m.size := rfl
  rw [Array.getElem?_toList, Array.getElem?_extract, hsize, List.getElem?_map]
  by_cases hi : i < n.toNat
  · have hin := h.resolve_left (by omega)
    rw [if_pos (by omega), hm _ (by omega), List.getElem?_range hi]
    rfl
  · rw [if_neg (by omega), List.getElem?_eq_none (by rw [List.length_range]; omega)]
    rfl

theorem getElem?_apply_of_not_reaches {σ : Type} [Processor σ] {m : Memory} {u : Update} (cpu : σ)
    (hf : u.Fits m.size) {k : Nat} (hk : k < m.size) (hr : ¬ u.Reaches m.size k) :
    (m.apply cpu u).2.1.bytes[k]? = m.bytes[k]? := by
  obtain ⟨memory, ha, hsize, hm⟩ := (holds_getD m).apply cpu hf
  rw [ha, hm k (hsize ▸ hk), holds_getD m k hk]
  simp only [if_neg hr]

theorem Holds.applyAll {σ : Type} [Processor σ] {m : Memory} {earlier : List Update}
    (hm : m.Holds (lastWritten m.size earlier)) (cpu : σ) (us : List Update) :
    (m.applyAll cpu us).1 = us.map (fun u => decide (u.Fits m.size)) ∧
      (m.applyAll cpu us).2.1.size = m.size ∧
      (m.applyAll cpu us).2.1.Holds (lastWritten m.size (us.reverse ++ earlier)) := by
  induction us generalizing m cpu earlier with
  | nil => exact ⟨rfl, rfl, hm⟩
  | cons u us ih =>
    simp only [Memory.applyAll, List.map_cons, List.reverse_cons, List.append_assoc,
      List.singleton_append]
    -- A failed update joins the history as well, where it counts for nothing.
    by_cases hf : u.Fits m.size
    · obtain ⟨memory, ha, hsize, hu⟩ := hm.apply cpu hf
      have hnext : memory.Holds (lastWritten memory.size (u :: earlier)) := by
        refine hu.congr fun k => ?_
        rw [lastWritten, hsize]
        simp only [hf, true_and]
      obtain ⟨hs, hlen, hh⟩ := ih hnext cpu
      rw [hsize] at hs hlen hh
      rw [ha, decide_eq_true hf]
      exact ⟨congrArg _ hs, hlen, hh⟩
    · obtain ⟨cpu', ha⟩ := apply_of_not_fits cpu hf
      have hnext : m.Holds (lastWritten m.size (u :: earlier)) := by
        refine hm.congr fun k => ?_
        exact (lastWritten_of_not_reaches fun h => hf h.1).symm
      obtain ⟨hs, hlen, hh⟩ := ih hnext cpu'
      rw [ha, decide_eq_false hf]
      exact ⟨congrArg _ hs, hlen, hh⟩

theorem exists_read_iff {m : Memory} {start : Address} {n : UInt16} :
    (∃ block, m.read start n = .ok block) ↔ Inside m.size start n.toNat := by
  constructor
  · rintro ⟨block, hb⟩
    apply Decidable.byContradiction
    intro h
    rw [read_of_not_inside h] at hb
    cases hb
  · intro h
    exact ⟨_, read_of_inside h⟩

/-- After any run on new memory each byte is what the last accepted update put there. -/
theorem applyAll_holds_lastWritten (size : Nat) (hpos : 0 < size) (hle : size ≤ 0x10000)
    {σ : Type} [Processor σ] (cpu : σ) (us : List Update) :
    ∃ new, ofSize size = .ok new ∧
      let m := (new.applyAll cpu us).2.1
      (new.applyAll cpu us).1 = us.map (fun u => decide (u.Fits size)) ∧ m.size = size ∧
        (∀ k, k < size → m.bytes[k]? = some (lastWritten size us.reverse k)) ∧
        (∀ (cpu : σ) u, ¬ u.Fits size → (m.apply cpu u).2.1 = m) ∧
        (∀ (cpu : σ) u k, u.Fits size → k < size → ¬ u.Reaches size k →
          (m.apply cpu u).2.1.bytes[k]? = m.bytes[k]?) ∧
        ∀ start (n : UInt16), (∃ block, m.read start n = .ok block) ↔
          n = 0 ∨ start.toNat + n.toNat ≤ size := by
  have hsize : (blank size hpos hle).size = size := size_blank ..
  have hnew : (blank size hpos hle).Holds (lastWritten (blank size hpos hle).size []) :=
    holds_blank size hpos hle
  obtain ⟨hs, hlen, hh⟩ := hnew.applyAll cpu us
  rw [hsize, List.append_nil] at *
  refine ⟨blank size hpos hle, dif_pos ⟨hpos, hle⟩, hs, hlen, ?_, ?_, ?_, ?_⟩
  · intro k hk
    exact hh k (hlen.symm ▸ hk)
  · intro cpu u hf
    obtain ⟨cpu', ha⟩ := apply_of_not_fits cpu (hlen.symm ▸ hf)
    rw [ha]
  · intro cpu u k hf hk hr
    rw [← hlen] at hf hk hr
    exact getElem?_apply_of_not_reaches cpu hf hk hr
  · intro start n
    rw [exists_read_iff, hlen, Inside, ← UInt16.toNat_inj]
    rfl

/-- A copy upwards over itself, a write past the top, and a program that would fill memory. -/
theorem applyAll_sixteen_bytes :
    0 < 16 ∧ 16 ≤ 0x10000 ∧ 7 < 16 ∧ ∃ new, ofSize 16 = .ok new ∧
      let after := new.applyAll (Registers.powerOn 0x200 16)
        [.write 2 [1, 2, 3], .copy 2 4 5, .write 15 [9, 9], .program 14 [7], .program 14 [7, 8]]
      after.1 = [true, true, false, true, false] ∧ after.2.1.bytes[7]? = some 2 := by
  obtain ⟨new, hnew, hs, _, hbytes, _⟩ := applyAll_holds_lastWritten 16 (by decide) (by decide)
    (Registers.powerOn 0x200 16)
    [.write 2 [1, 2, 3], .copy 2 4 5, .write 15 [9, 9], .program 14 [7], .program 14 [7, 8]]
  exact ⟨by decide, by decide, by decide, new, hnew, hs.trans (by decide),
    (hbytes 7 (by decide)).trans (by decide)⟩

end ChipFamily.Memory
