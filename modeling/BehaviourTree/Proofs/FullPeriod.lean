import BehaviourTree.Proofs.RandomChoices
import BehaviourTree.Proofs.Streams
import Mathlib.Data.Nat.ModEq
import Mathlib.Order.Interval.Finset.Nat

/-!
The full period of a stream: the step of its counter is odd, so that it comes back to a state after
2⁶⁴ draws and not before, and has drawn every word once by then.
-/

namespace BehaviourTree

namespace SplitMix64

/-- The word that is drawn after `n` others. -/
def word (g : SplitMix64) (n : Nat) : UInt64 := (g.skip n).next64.1

theorem skip_succ (g : SplitMix64) (n : Nat) : g.skip (n+1) = (g.skip n).next64.2 :=
  Function.iterate_succ_apply' _ n g

/-- The counter after some draws, before it is reduced to a word. -/
theorem state_skip (g : SplitMix64) (n : Nat) :
    (g.skip n).state = .ofNat (g.state.toNat+n*goldenStep.toNat) := by
  induction n with
  | zero =>
    rw [Nat.zero_mul, Nat.add_zero, UInt64.ofNat_toNat]
    rfl
  | succ n ih =>
    calc (g.skip (n+1)).state
      _ = (g.skip n).state+goldenStep := by
        rw [skip_succ]
        rfl
      _ = .ofNat (g.state.toNat+n*goldenStep.toNat)+.ofNat goldenStep.toNat := by
        rw [ih, UInt64.ofNat_toNat]
      _ = .ofNat (g.state.toNat+(n+1)*goldenStep.toNat) := by
        rw [← UInt64.ofNat_add, Nat.add_assoc, ← Nat.succ_mul]

/-- A word is what the state that its draw leaves is scattered to. -/
theorem word_eq (g : SplitMix64) (n : Nat) : g.word n = mix64 (g.skip (n+1)).state := by
  rw [skip_succ]
  rfl

/-- States come round with the period 2⁶⁴, for the step of the counter is prime to it. -/
theorem skip_inj {g : SplitMix64} {m n : Nat} : g.skip m = g.skip n ↔ m ≡ n [MOD UInt64.size] := by
  have hprime : UInt64.size.gcd goldenStep.toNat = 1 := by decide
  calc g.skip m = g.skip n
    _ ↔ (g.skip m).state = (g.skip n).state := ⟨congrArg state, congrArg mk⟩
    _ ↔ g.state.toNat+m*goldenStep.toNat ≡ g.state.toNat+n*goldenStep.toNat [MOD UInt64.size] := by
      rw [state_skip, state_skip, UInt64.ofNat_eq_iff_mod_eq_toNat, UInt64.toNat_ofNat']
      rfl
    _ ↔ m*goldenStep.toNat ≡ n*goldenStep.toNat [MOD UInt64.size] :=
      ⟨Nat.ModEq.add_left_cancel' _, Nat.ModEq.add_left _⟩
    _ ↔ m ≡ n [MOD UInt64.size] :=
      ⟨Nat.ModEq.cancel_right_of_coprime hprime, Nat.ModEq.mul_right _⟩

theorem word_inj {g : SplitMix64} {m n : Nat} : g.word m = g.word n ↔ m ≡ n [MOD UInt64.size] :=
  next64_inj.trans skip_inj

/-- Words in a row are different, as long as there are no more of them than words. -/
theorem word_injOn (g : SplitMix64) (first : Nat) :
    Set.InjOn g.word (Set.Ico first (first+UInt64.size)) := by
  rw [← Finset.coe_Ico]
  intro m hm n hn h
  exact Nat.mod_injOn_Ico first UInt64.size hm hn (word_inj.mp h)

/-- There are no more words than are drawn in a row, so none is left out. -/
theorem exists_word (g : SplitMix64) (first : Nat) (w : UInt64) :
    ∃ n ∈ Set.Ico first (first+UInt64.size), g.word n = w := by
  have hmem (i : Fin UInt64.size) : first+i ∈ Set.Ico first (first+UInt64.size) :=
    Set.mem_Ico.mpr (by omega)
  have hinj : Function.Injective fun i : Fin UInt64.size => (g.word (first+i)).toFin := by
    intro i j h
    have hsame : first+i.val = first+j.val :=
      g.word_injOn first (hmem i) (hmem j) (UInt64.toFin_inj.mp h)
    exact Fin.ext (Nat.add_left_cancel hsame)
  obtain ⟨i, hi⟩ := Finite.surjective_of_injective hinj w.toFin
  exact ⟨first+i, hmem i, UInt64.toFin_inj.mp hi⟩

end SplitMix64

/-- A stream has the full period. The word that is drawn after `n` others is what the seed is
scattered to after `n+1` steps. Any 2⁶⁴ words that are drawn in a row are different, and so each
word is among them once. And 2⁶⁴ is the least number of draws that leads back to the seed. -/
theorem streams_run_full_period (seed : UInt64) :
    let stream : SplitMix64 := ⟨seed⟩
    (∀ n, stream.word n = mix64 (.ofNat (seed.toNat+(n+1)*0x9E3779B97F4A7C15))) ∧
    (∀ first, Set.InjOn stream.word (Set.Ico first (first+2^64)) ∧
      ∀ w, ∃! n, n ∈ Set.Ico first (first+2^64) ∧ stream.word n = w) ∧
    IsLeast {n | 0 < n ∧ stream.skip n = stream} (2^64) := by
  intro stream
  refine ⟨fun n => ?_, fun first => ⟨stream.word_injOn first, fun w => ?_⟩, ?_, ?_⟩
  · rw [stream.word_eq n, stream.state_skip (n+1)]
    rfl
  · obtain ⟨n, hn, hword⟩ := stream.exists_word first w
    refine ⟨n, ⟨hn, hword⟩, ?_⟩
    rintro m ⟨hm, hword'⟩
    exact stream.word_injOn first hm hn (hword'.trans hword.symm)
  · refine ⟨by decide, ?_⟩
    exact SplitMix64.skip_inj.mpr (Nat.modEq_zero_iff_dvd.mpr dvd_rfl)
  · rintro n ⟨hpos, hback⟩
    have hdvd : UInt64.size ∣ n := Nat.modEq_zero_iff_dvd.mp (SplitMix64.skip_inj.mp hback)
    exact Nat.le_of_dvd hpos hdvd

end BehaviourTree
