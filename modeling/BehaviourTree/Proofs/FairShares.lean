import BehaviourTree.Proofs.Tallies
import Mathlib.Data.Int.CardIntervalMod

/-!
Fair shares of the frames: agents that are spread over a period by their numbers have one frame each
in every period, and on every frame about as many of them think as on any other.
-/

namespace BehaviourTree

/-! ### Multiples among numbers in a row -/

/-- Two numbers whose sums with `s` are multiples of `p` are the same if they are less than `p`
apart. -/
theorem eq_of_dvd_add {p s t t' first : Nat} (h : p ∣ t+s) (h' : p ∣ t'+s)
    (ht : first ≤ t ∧ t < first+p) (ht' : first ≤ t' ∧ t' < first+p) : t = t' := by
  have hsums : t+s ≡ t'+s [MOD p] :=
    calc t+s
      _ ≡ 0 [MOD p] := Nat.modEq_zero_iff_dvd.mpr h
      _ ≡ t'+s [MOD p] := (Nat.modEq_zero_iff_dvd.mpr h').symm
  apply Nat.ModEq.eq_of_abs_lt (Nat.ModEq.add_right_cancel' s hsums)
  rw [abs_lt]
  omega

/-- Among `p` numbers in a row there is one whose sum with `s` is a multiple of `p`. -/
theorem exists_dvd_add {p : Nat} (hp : 0 < p) (first s : Nat) :
    ∃ t, (first ≤ t ∧ t < first+p) ∧ p ∣ t+s := by
  have hsplit : p*((first+s)/p)+(first+s)%p = first+s := Nat.div_add_mod _ _
  have hlt : (first+s)%p < p := Nat.mod_lt _ hp
  by_cases hzero : (first+s)%p = 0
  · refine ⟨first, by omega, ?_⟩
    exact Nat.dvd_of_mod_eq_zero hzero
  -- What the first sum is short of a multiple is how far there is to go.
  · refine ⟨first+(p-(first+s)%p), by omega, (first+s)/p+1, ?_⟩
    rw [Nat.mul_add, Nat.mul_one]
    omega

/-- Of the numbers below `size`, those whose sum with `t` is a multiple of `p` are one in `p`, up to
rounding. -/
theorem count_dvd_add {p : Nat} (hp : 0 < p) (t size : Nat) :
    Nat.count (fun i => p ∣ t+i) size = size/p ∨
      Nat.count (fun i => p ∣ t+i) size = (size+p-1)/p := by
  -- They are the numbers of one residue, that of `(p-1)*t`.
  have hresidue (i : Nat) : p ∣ t+i ↔ i ≡ (p-1)*t [MOD p] := by
    have hall : (p-1)*t+t = p*t := by
      rw [← Nat.succ_mul]
      congr 1
      omega
    rw [← Nat.modEq_zero_iff_dvd, Nat.add_comm t i]
    constructor
    · intro h
      apply Nat.ModEq.add_right_cancel' t
      rw [hall]
      exact h.trans (Nat.modEq_zero_iff_dvd.mpr (Nat.dvd_mul_right p t)).symm
    · intro h
      have hsum := h.add_right t
      rw [hall] at hsum
      exact hsum.trans (Nat.modEq_zero_iff_dvd.mpr (Nat.dvd_mul_right p t))
  simp only [hresidue]
  rw [Nat.count_modEq_card size hp]
  split
  · next hless =>
    -- There is a rest, so the quotient of what comes before is the same, and rounding up adds one.
    apply Or.inr
    have hrest : ¬ p ∣ size := by
      rw [Nat.dvd_iff_mod_eq_zero]
      omega
    have hpos : 0 < size := by
      apply Nat.pos_of_ne_zero
      rintro rfl
      exact hrest (Nat.dvd_zero p)
    obtain ⟨before, rfl⟩ := Nat.exists_eq_succ_of_ne_zero hpos.ne'
    rw [Nat.succ_div_of_not_dvd hrest, show before.succ+p-1 = before+p by omega,
      Nat.add_div_right before hp]
  · exact Or.inl (Nat.add_zero _)

/-! ### Clocks -/

namespace ThinkConfig

variable {every : UInt32} {agent : AgentHandle} {tick : UInt64}

theorem spread_isDue_of_clear
    (h : tick.toNat+(spread agent every).offset.toNat < UInt64.size) :
    (spread agent every).isDue tick = .ok (decide (Due every agent.number.toNat tick.toNat)) := by
  apply spread_isDue
  unfold Clear
  rwa [← spread_offset]

theorem spread_isDue_iff (h : tick.toNat+(spread agent every).offset.toNat < UInt64.size) :
    (spread agent every).isDue tick = .ok true ↔ Due every agent.number.toNat tick.toNat := by
  rw [spread_isDue_of_clear h, Except.ok.injEq, decide_eq_true_iff]

/-- Among the frames of a period there is one on which an agent thinks. -/
theorem spread_once (agent : AgentHandle) {first : UInt64} (h : first.toNat+(max every.toNat 1-1)+
    (spread agent every).offset.toNat < UInt64.size) :
    ∃! tick : UInt64, (first.toNat ≤ tick.toNat ∧ tick.toNat < first.toNat+max every.toNat 1) ∧
      (spread agent every).isDue tick = .ok true := by
  have hperiod : 0 < max every.toNat 1 := by omega
  obtain ⟨t, ht, hdvd⟩ := exists_dvd_add hperiod first.toNat agent.number.toNat
  -- The clock is clear on the last frame, and so it is on those before it.
  have hdue {tick : UInt64} (htick : tick.toNat < first.toNat+max every.toNat 1) :
      (spread agent every).isDue tick = .ok true ↔ Due every agent.number.toNat tick.toNat := by
    apply spread_isDue_iff
    omega
  have htoNat : (UInt64.ofNat t).toNat = t := by
    apply UInt64.toNat_ofNat_of_lt
    omega
  refine ⟨.ofNat t, ⟨by rwa [htoNat], ?_⟩, ?_⟩
  · apply (hdue (by omega)).mpr
    rwa [htoNat]
  · rintro tick ⟨htick, hthinks⟩
    have hdvd' := (hdue htick.2).mp hthinks
    apply UInt64.toNat_inj.mp
    rw [htoNat]
    exact eq_of_dvd_add hdvd' hdvd htick ht

/-- Agents that are numbered from zero have a frame of the period each in turn. -/
theorem spread_count {size : Nat} (hsize : size ≤ UInt64.size)
    (h : ∀ i < size, tick.toNat+(spread (.nth i) every).offset.toNat < UInt64.size) :
    Nat.count (fun i => (spread (.nth i) every).isDue tick = .ok true) size =
      Nat.count (fun i => max every.toNat 1 ∣ tick.toNat+i) size := by
  have hsame : ∀ i < size, ((spread (.nth i) every).isDue tick = .ok true ↔
      max every.toNat 1 ∣ tick.toNat+i) := by
    intro i hi
    rw [spread_isDue_iff (h i hi), AgentHandle.toNat_nth (Nat.lt_of_lt_of_le hi hsize)]
  apply Nat.le_antisymm
  · exact Nat.count_mono_left fun i hi => (hsame i hi).mp
  · exact Nat.count_mono_left fun i hi => (hsame i hi).mpr

end ThinkConfig

/-- Agents that are spread over a period by their numbers share its frames fairly, as long as no
clock overflows. An agent thinks on just the frames whose number, with its own added, is a multiple
of the period. So it has one of any frames in a row that make up a period. And of agents that are
numbered from zero as many think on a frame as an even split gives it, rounded down or up. -/
theorem spread_shares_frames (every : UInt32) :
    let period := max every.toNat 1
    let clear (agent : AgentHandle) (tick : Nat) :=
      tick+(ThinkConfig.spread agent every).offset.toNat < UInt64.size
    let thinks (agent : AgentHandle) (tick : UInt64) :=
      (ThinkConfig.spread agent every).isDue tick = .ok true
    (∀ agent tick, clear agent tick.toNat →
      (ThinkConfig.spread agent every).isDue tick =
        .ok (decide ((tick.toNat+agent.number.toNat)%period = 0))) ∧
    (∀ agent (first : UInt64), clear agent (first.toNat+(period-1)) →
      ∃! tick : UInt64,
        (first.toNat ≤ tick.toNat ∧ tick.toNat < first.toNat+period) ∧ thinks agent tick) ∧
    ∀ size ≤ UInt64.size, ∀ tick : UInt64, (∀ i < size, clear (.nth i) tick.toNat) →
      Nat.count (fun i => thinks (.nth i) tick) size = size/period ∨
        Nat.count (fun i => thinks (.nth i) tick) size = (size+period-1)/period := by
  intro period clear thinks
  have hperiod : 0 < period := by omega
  refine ⟨fun agent tick h => ?_, fun agent first h => ThinkConfig.spread_once agent h, ?_⟩
  · rw [ThinkConfig.spread_isDue_of_clear h]
    apply congrArg Except.ok
    apply decide_eq_decide.mpr
    exact Nat.dvd_iff_mod_eq_zero
  · intro size hsize tick h
    have hcount : Nat.count (fun i => thinks (.nth i) tick) size =
        Nat.count (fun i => period ∣ tick.toNat+i) size := ThinkConfig.spread_count hsize h
    rw [hcount]
    exact count_dvd_add hperiod tick.toNat size

/-- One frame in seven: for the agent of the greatest number on the last frames of all, and for ten
agents on one frame. -/
theorem spread_shares_frames_sevenths :
    let last : AgentHandle := ⟨18446744073709551615⟩
    (ThinkConfig.spread last 7).isDue 18446744073709551613 = .ok true ∧
    (∃! tick : UInt64, (18446744073709551608 ≤ tick.toNat ∧ tick.toNat < 18446744073709551615) ∧
      (ThinkConfig.spread last 7).isDue tick = .ok true) ∧
    (Nat.count (fun i => (ThinkConfig.spread (.nth i) 7).isDue 5 = .ok true) 10 = 1 ∨
      Nat.count (fun i => (ThinkConfig.spread (.nth i) 7).isDue 5 = .ok true) 10 = 2) := by
  intro last
  obtain ⟨hdue, honce, heven⟩ := spread_shares_frames 7
  refine ⟨?_, ?_, ?_⟩
  · rw [hdue last 18446744073709551613 (by decide)]
    decide
  · exact honce last 18446744073709551608 (by decide)
  · exact heven 10 (by decide) 5 (by decide)

end BehaviourTree
