import BehaviourTree.Proofs.FairShares
import BehaviourTree.Proofs.RandomChoices
import BehaviourTree.Proofs.Streams

/-!
Drawn indices: for a range of up to 2³² every index is drawn, and as many words lead to one as to
any other but for one word; for longer ranges a draw may overflow.
-/

namespace BehaviourTree

/-- The numbers below `m` that are scaled to `i` are as many as there are multiples of `len` among
the `m` numbers from `i*m` on. -/
theorem count_scaled {m len i : Nat} (hi : i < len) :
    Nat.count (fun w => w*len/m = i) m = Nat.count (fun j => len ∣ i*m+j) m := by
  have hlen : 0 < len := Nat.zero_lt_of_lt hi
  rw [Nat.count_eq_card_filter_range, Nat.count_eq_card_filter_range]
  -- A number goes to how far its multiple of `len` is beyond `i*m`.
  apply Finset.card_nbij' (fun w => w*len-i*m) (fun j => (i*m+j)/len)
  · intro w hw
    obtain ⟨hrange, hscaled⟩ := Finset.mem_filter.mp hw
    have hm : 0 < m := Nat.zero_lt_of_lt (Finset.mem_range.mp hrange)
    obtain ⟨hle, hlt⟩ := (Nat.div_eq_iff hm).mp hscaled
    have hshort : w*len-i*m < m := by omega
    refine Finset.mem_filter.mpr ⟨Finset.mem_range.mpr hshort, ?_⟩
    rw [Nat.add_sub_cancel' hle]
    exact Nat.dvd_mul_left len w
  · intro j hj
    obtain ⟨hrange, hdvd⟩ := Finset.mem_filter.mp hj
    have hjm : j < m := Finset.mem_range.mp hrange
    have hmul : (i*m+j)/len*len = i*m+j := Nat.div_mul_cancel hdvd
    have hbelow : i*m+j < m*len := by
      calc i*m+j
        _ < (i+1)*m := by
          rw [Nat.succ_mul]
          omega
        _ ≤ len*m := Nat.mul_le_mul_right m hi
        _ = m*len := Nat.mul_comm len m
    refine Finset.mem_filter.mpr ⟨Finset.mem_range.mpr ?_, ?_⟩
    · rwa [Nat.div_lt_iff_lt_mul hlen]
    · rw [hmul, Nat.div_eq_iff (Nat.zero_lt_of_lt hjm)]
      omega
  · intro w hw
    obtain ⟨hrange, hscaled⟩ := Finset.mem_filter.mp hw
    have hm : 0 < m := Nat.zero_lt_of_lt (Finset.mem_range.mp hrange)
    have hle : i*m ≤ w*len := ((Nat.div_eq_iff hm).mp hscaled).1
    change (i*m+(w*len-i*m))/len = w
    rw [Nat.add_sub_cancel' hle, Nat.mul_div_cancel w hlen]
  · intro j hj
    change (i*m+j)/len*len-i*m = j
    rw [Nat.div_mul_cancel (Finset.mem_filter.mp hj).2, Nat.add_sub_cancel_left]

/-- How many of the words that can be drawn lead to an index of a range. -/
def wordsScaledTo (len i : Nat) : Nat :=
  Nat.count (fun w => scaleDraw (.ofNat w) len = i) UInt32.size

/-- An even split of the words over the indices of a range, up to rounding. -/
theorem wordsScaledTo_eq {len i : Nat} (hi : i < len) :
    wordsScaledTo len i = UInt32.size/len ∨
      wordsScaledTo len i = (UInt32.size+len-1)/len := by
  have hwords : wordsScaledTo len i = Nat.count (fun w => w*len/UInt32.size = i) UInt32.size := by
    have hsame (w : Nat) (hw : w < UInt32.size) :
        scaleDraw (.ofNat w) len = w*len/UInt32.size := by
      rw [scaleDraw, UInt32.toNat_ofNat_of_lt' hw]
    apply Nat.le_antisymm
    · exact Nat.count_mono_left fun w hw h => (hsame w hw).symm.trans h
    · exact Nat.count_mono_left fun w hw h => (hsame w hw).trans h
  rw [hwords, count_scaled hi]
  exact count_dvd_add (Nat.zero_lt_of_lt hi) _ _

namespace SplitMix64

/-- Every 32-bit word is the next one of some stream. -/
theorem exists_next32 (w : UInt32) : ∃ g : SplitMix64, g.next32.1 = w := by
  obtain ⟨state, hstate⟩ := mix64_surjective w.toUInt64
  refine ⟨⟨state-goldenStep⟩, ?_⟩
  change (mix64 (state-goldenStep+goldenStep)).toUInt32 = w
  rw [UInt64.sub_add_cancel, hstate, UInt32.toUInt32_toUInt64]

theorem nextIndex_eq (g : SplitMix64) {len : UInt64} (hlen : 0 < len.toNat) :
    (g.nextIndex len).1 = if g.next32.1.toNat*len.toNat < UInt64.size
      then .ok (scaleDraw g.next32.1 len.toNat) else .error .overflow := by
  have hnonempty : len ≠ 0 := by
    rintro rfl
    exact Nat.lt_irrefl 0 hlen
  simp only [nextIndex, if_neg hnonempty]
  split <;> rfl

end SplitMix64

/-- An index is drawn in range and evenly. For a range of up to 2³² no draw overflows, and each is
in range; of the words that can be drawn as many lead to an index as an even split gives it, rounded
down or up, so that every index is drawn from some state. For a longer range a draw overflows just
if the product of the word and the length leaves 64 bits, and is in range otherwise. -/
theorem indices_drawn_evenly (len : UInt64) (hlen : 1 ≤ len.toNat) :
    (len.toNat ≤ UInt32.size →
      (∀ g : SplitMix64, (g.nextIndex len).1 = .ok (scaleDraw g.next32.1 len.toNat) ∧
        scaleDraw g.next32.1 len.toNat < len.toNat) ∧
      ∀ i < len.toNat,
        (wordsScaledTo len.toNat i = UInt32.size/len.toNat ∨
          wordsScaledTo len.toNat i = (UInt32.size+len.toNat-1)/len.toNat) ∧
        ∃ g : SplitMix64, (g.nextIndex len).1 = .ok i) ∧
    (UInt32.size < len.toNat → ∀ g : SplitMix64,
      ((g.nextIndex len).1 = .error .overflow ↔ UInt64.size ≤ g.next32.1.toNat*len.toNat) ∧
      (g.next32.1.toNat*len.toNat < UInt64.size →
        ∃ i < len.toNat, (g.nextIndex len).1 = .ok i)) := by
  refine ⟨fun hshort => ?_, fun _ g => ?_⟩
  · have hdraw (g : SplitMix64) : (g.nextIndex len).1 = .ok (scaleDraw g.next32.1 len.toNat) := by
      have hword : g.next32.1.toNat < UInt32.size := g.next32.1.toNat_lt
      have hfits : g.next32.1.toNat*len.toNat < UInt64.size := by
        calc g.next32.1.toNat*len.toNat
          _ < UInt32.size*len.toNat := Nat.mul_lt_mul_of_pos_right hword hlen
          _ ≤ UInt32.size*UInt32.size := Nat.mul_le_mul_left _ hshort
      rw [g.nextIndex_eq hlen, if_pos hfits]
    refine ⟨fun g => ⟨hdraw g, scaleDraw_lt _ hlen⟩, fun i hi => ?_⟩
    have hcount := wordsScaledTo_eq hi
    refine ⟨hcount, ?_⟩
    -- Each share is one word at least.
    have hsome : wordsScaledTo len.toNat i ≠ 0 := by
      have hdown : 0 < UInt32.size/len.toNat := Nat.div_pos hshort hlen
      have hup : UInt32.size/len.toNat ≤ (UInt32.size+len.toNat-1)/len.toNat :=
        Nat.div_le_div_right (by omega)
      omega
    obtain ⟨w, -, hscaled⟩ := Nat.count_ne_iff_exists.mp hsome
    obtain ⟨g, hg⟩ := SplitMix64.exists_next32 (.ofNat w)
    exact ⟨g, by rw [hdraw g, hg, hscaled]⟩
  · rw [g.nextIndex_eq hlen]
    by_cases hfits : g.next32.1.toNat*len.toNat < UInt64.size
    · rw [if_pos hfits]
      refine ⟨⟨nofun, fun hover => absurd hfits (Nat.not_lt.mpr hover)⟩, fun _ => ?_⟩
      exact ⟨_, scaleDraw_lt _ hlen, rfl⟩
    · rw [if_neg hfits]
      exact ⟨⟨fun _ => Nat.not_lt.mp hfits, fun _ => rfl⟩, fun h => absurd h hfits⟩

/-- A third of the words is not a whole number, so the shares of three indices differ by one word.
The first word from the state zero is in range for 2³³ indices and overflows for twice as many. -/
theorem indices_drawn_evenly_thirds :
    let g : SplitMix64 := ⟨0⟩
    (wordsScaledTo 3 1 = 1431655765 ∨ wordsScaledTo 3 1 = 1431655766) ∧
    (∃ g : SplitMix64, (g.nextIndex 3).1 = .ok 2) ∧
    (∃ i < 8589934592, (g.nextIndex 8589934592).1 = .ok i) ∧
    (g.nextIndex 17179869184).1 = .error .overflow := by
  intro g
  obtain ⟨hshort, -⟩ := indices_drawn_evenly 3 (by decide)
  obtain ⟨-, hthirds⟩ := hshort (by decide)
  obtain ⟨-, hlong⟩ := indices_drawn_evenly 8589934592 (by decide)
  obtain ⟨-, hlonger⟩ := indices_drawn_evenly 17179869184 (by decide)
  exact ⟨(hthirds 1 (by decide)).1, (hthirds 2 (by decide)).2, (hlong (by decide) g).2 (by decide),
    (hlonger (by decide) g).1.mpr (by decide)⟩

end BehaviourTree
