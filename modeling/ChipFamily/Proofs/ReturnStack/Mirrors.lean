import ChipFamily.Proofs.ReturnStack.OnRegisters

namespace ChipFamily

/-- A map between processors that the return stack cannot tell apart. -/
structure Processor.Mirrors {σ τ : Type} [Processor σ] [Processor τ] (f : σ → τ) : Prop where
  pointer (cpu : σ) : Processor.pointer (f cpu) = Processor.pointer cpu
  raise (cpu : σ) : Processor.raise (f cpu) = (Processor.raise cpu).map id f
  lower (cpu : σ) : Processor.lower (f cpu) = (Processor.lower cpu).map id f

theorem Watched.mirrors_cpu {σ : Type} [Processor σ] :
    Processor.Mirrors (Watched.cpu : Watched σ → σ) where
  pointer _ := rfl
  raise _ := rfl
  lower _ := rfl

namespace ReturnStack

open Processor (Mirrors)

section AnyProcessor

variable {σ τ : Type} [Processor σ] [Processor τ] {f : σ → τ}

theorem push_mirror (hf : Mirrors f) (s : ReturnStack) (cpu : σ) (address : Address) :
    s.push (f cpu) address = (s.push cpu address).map id (Prod.map id f) := by
  simp only [push, hf.raise, Prod.map_fst, Prod.map_snd, id, hf.pointer, hf.lower]
  split
  · rfl
  · split <;> rfl

theorem stray_mirror_iff (hf : Mirrors f) (s : ReturnStack) (cpu : σ) :
    s.Stray (Processor.pointer (f cpu)) ↔ s.Stray (Processor.pointer cpu) := by
  rw [hf.pointer]

theorem settleWithin_mirror_of_not_stray (hf : Mirrors f) {s : ReturnStack} (limit : Nat) {cpu : σ}
    (hs : ¬ s.Stray (Processor.pointer cpu)) :
    s.settleWithin limit (f cpu) = (s.settleWithin limit cpu).map (Prod.map id f) := by
  have hs' : ¬ s.Stray (Processor.pointer (f cpu)) :=
    fun h => hs ((stray_mirror_iff hf s cpu).1 h)
  rw [settleWithin_of_not_stray _ hs, settleWithin_of_not_stray _ hs', hf.pointer]
  rfl

theorem settleWithin_mirror (hf : Mirrors f) (s : ReturnStack) (limit : Nat) (cpu : σ) :
    s.settleWithin limit (f cpu) = (s.settleWithin limit cpu).map (Prod.map id f) := by
  induction limit generalizing cpu with
  | zero =>
    by_cases hs : s.Stray (Processor.pointer cpu)
    · rw [settleWithin_zero hs, settleWithin_zero ((stray_mirror_iff hf s cpu).2 hs)]
      rfl
    · exact settleWithin_mirror_of_not_stray hf 0 hs
  | succ limit ih =>
    by_cases hs : s.Stray (Processor.pointer cpu)
    · rw [settleWithin_succ _ hs, settleWithin_succ _ ((stray_mirror_iff hf s cpu).2 hs),
        hf.pointer, hf.lower]
      simp only [Prod.map_fst, Prod.map_snd, id]
      split
      · rfl
      · exact ih _
    · exact settleWithin_mirror_of_not_stray hf _ hs

theorem popWithin_mirror (hf : Mirrors f) (s : ReturnStack) (limit : Nat) (cpu : σ) :
    s.popWithin limit (f cpu) = (s.popWithin limit cpu).map (Prod.map id f) := by
  rw [popWithin, popWithin, settleWithin_mirror hf, Option.map_map, Option.map_map]
  congr 1
  funext settled
  simp only [Function.comp, take, hf.lower, Prod.map, id]

end AnyProcessor

variable {σ τ : Type} [HonestProcessor σ] [HonestProcessor τ] {f : σ → τ}

theorem popWithin_eq_some_pop (s : ReturnStack) (cpu : σ) :
    s.popWithin (Processor.pointer cpu).toNat cpu = some (s.pop cpu) :=
  (Option.some_get _).symm

theorem pop_mirror (hf : Mirrors f) (s : ReturnStack) (cpu : σ) :
    s.pop (f cpu) = (s.pop cpu).map id f := by
  have hpop := popWithin_mirror hf s (Processor.pointer cpu).toNat cpu
  rw [popWithin_eq_some_pop, ← hf.pointer, popWithin_eq_some_pop] at hpop
  exact Option.some.inj hpop

end ReturnStack
end ChipFamily
