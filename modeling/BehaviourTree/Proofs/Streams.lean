import BehaviourTree.Proofs.ReloadRuns
import Mathlib.Data.Fintype.EquivFin

/-!
Streams of their own: words are scattered without loss, so that no two agents of a seed, and no two
seeds of an agent, have trees that draw from the same state.
-/

namespace BehaviourTree

/-! ### Scattered words -/

/-- A word can be told from its sum with itself shifted down. -/
theorem eq_of_xor_shiftRight {w k : Nat} (hk : 0 < k) {x y : BitVec w}
    (h : x ^^^ x >>> k = y ^^^ y >>> k) : x = y := by
  -- From the top down: a bit is known as soon as the one `k` places above it is.
  have hbit (n i : Nat) (hi : w ≤ i+n) : x.getLsbD i = y.getLsbD i := by
    induction n generalizing i with
    | zero => rw [BitVec.getLsbD_of_ge x i hi, BitVec.getLsbD_of_ge y i hi]
    | succ n ih =>
      have habove : x.getLsbD (k+i) = y.getLsbD (k+i) := ih (k+i) (by omega)
      have hsum := congrArg (·.getLsbD i) h
      simp only [BitVec.getLsbD_xor, BitVec.getLsbD_ushiftRight, habove] at hsum
      exact Bool.xor_left_inj.mp hsum
  exact BitVec.eq_of_getLsbD_eq fun i _ => hbit w i (Nat.le_add_left w i)

theorem eq_of_mul_right {factor inverse : UInt64} (hone : factor*inverse = 1) {x y : UInt64}
    (h : x*factor = y*factor) : x = y := by
  have hback := congrArg (·*inverse) h
  simpa only [UInt64.mul_assoc, hone, UInt64.mul_one] using hback

theorem mix64_injective : Function.Injective mix64 := by
  have hshift {k : UInt64} (hk : 0 < (k.toBitVec % 64).toNat) {x y : UInt64}
      (h : x ^^^ x >>> k = y ^^^ y >>> k) : x = y := by
    apply UInt64.toBitVec_inj.mp
    apply eq_of_xor_shiftRight hk
    exact congrArg UInt64.toBitVec h
  -- Two odd factors and their inverses among the words.
  have hfirst : (0xBF58476D1CE4E5B9 : UInt64)*0x96DE1B173F119089 = 1 := by decide
  have hsecond : (0x94D049BB133111EB : UInt64)*0x319642B2D24D8EC3 = 1 := by decide
  intro x y h
  have hlast := hshift (by decide) h
  have hmiddle := hshift (by decide) (eq_of_mul_right hsecond hlast)
  exact hshift (by decide) (eq_of_mul_right hfirst hmiddle)

theorem mix64_surjective : Function.Surjective mix64 := by
  have : Finite UInt64 := .of_injective UInt64.toFin fun _ _ => UInt64.toFin_inj.mp
  exact Finite.surjective_of_injective mix64_injective

theorem SplitMix64.next64_inj {g g' : SplitMix64} : g.next64.1 = g'.next64.1 ↔ g = g' := by
  constructor
  · intro h
    have hstate : g.state+goldenStep = g'.state+goldenStep := mix64_injective h
    obtain ⟨state⟩ := g
    exact congrArg SplitMix64.mk ((UInt64.add_left_inj goldenStep).mp hstate)
  · rintro rfl
    rfl

/-! ### Seeds of streams -/

section Seeds

variable (seed agent stream : UInt64)

theorem deriveSeed_injective_seed : Function.Injective (deriveSeed · agent stream) := by
  intro seed seed' h
  have hsum := mix64_injective h
  exact (UInt64.xor_left_inj _).mp ((UInt64.xor_left_inj _).mp hsum)

theorem deriveSeed_injective_agent : Function.Injective (deriveSeed seed · stream) := by
  intro agent agent' h
  have hsum := mix64_injective h
  have hagent := mix64_injective ((UInt64.xor_right_inj _).mp ((UInt64.xor_left_inj _).mp hsum))
  exact (UInt64.add_left_inj goldenStep).mp hagent

theorem deriveSeed_injective_stream : Function.Injective (deriveSeed seed agent ·) := by
  intro stream stream' h
  have hsum := mix64_injective h
  exact mix64_injective ((UInt64.xor_right_inj _).mp hsum)

end Seeds

/-- No two agents share a stream under one seed, and no agent has one stream under two seeds. The
seed of a stream tells each of the three words that it is derived from as soon as the other two are
known. So a tree that is given a seed and an owner, the one before the other or after it, is the
same and draws from the state that the two determine, whatever it has drawn before; and two trees
that differ in just one of them start from different states and draw different words first. -/
theorem streams_start_apart {H : Host} :
    (∀ agent stream, Function.Injective fun seed => deriveSeed seed agent stream) ∧
    (∀ seed stream, Function.Injective fun agent => deriveSeed seed agent stream) ∧
    (∀ seed agent, Function.Injective fun stream => deriveSeed seed agent stream) ∧
    ∀ (t : Tree H) (seed : UInt64) (agent : AgentHandle),
      let own := (t.setSeed seed).setOwner agent
      own = (t.setOwner agent).setSeed seed ∧
      own.rng = ⟨deriveSeed seed agent.number Tree.choiceStream⟩ ∧
      ∀ (t' : Tree H) (seed' : UInt64) (agent' : AgentHandle),
        seed' = seed ∧ agent' ≠ agent ∨ seed' ≠ seed ∧ agent' = agent →
        let other := (t'.setSeed seed').setOwner agent'
        other.rng ≠ own.rng ∧ other.rng.next64.1 ≠ own.rng.next64.1 := by
  refine ⟨deriveSeed_injective_seed, deriveSeed_injective_agent, deriveSeed_injective_stream, ?_⟩
  intro t seed agent own
  refine ⟨t.setSeed_setOwner seed agent, rfl, ?_⟩
  intro t' seed' agent' hdiffer other
  have hstates : other.rng ≠ own.rng := by
    intro hsame
    have hseeds : deriveSeed seed' agent'.number Tree.choiceStream =
        deriveSeed seed agent.number Tree.choiceStream := congrArg SplitMix64.state hsame
    rcases hdiffer with ⟨rfl, hagent⟩ | ⟨hseed, rfl⟩
    · exact hagent (congrArg AgentHandle.mk (deriveSeed_injective_agent _ _ hseeds))
    · exact hseed (deriveSeed_injective_seed _ _ hseeds)
  exact ⟨hstates, fun hsame => hstates (SplitMix64.next64_inj.mp hsame)⟩

/-- One tree for the first two agents, of whom the second gets it with another stream in place. -/
theorem streams_start_apart_pair :
    let own := (Demo.tangle.setSeed 5).setOwner ⟨0⟩
    let other := (({ Demo.tangle with rng := ⟨7⟩ } : Tree Demo.smallHost).setSeed 5).setOwner ⟨1⟩
    own = (Demo.tangle.setOwner ⟨0⟩).setSeed 5 ∧
      other.rng = ⟨deriveSeed 5 1 Tree.choiceStream⟩ ∧
      other.rng ≠ own.rng ∧ other.rng.next64.1 ≠ own.rng.next64.1 := by
  intro own other
  obtain ⟨-, -, -, htrees⟩ := streams_start_apart (H := Demo.smallHost)
  obtain ⟨hsame, -, hapart⟩ := htrees Demo.tangle 5 ⟨0⟩
  obtain ⟨-, hrng, -⟩ := htrees { Demo.tangle with rng := ⟨7⟩ } 5 ⟨1⟩
  exact ⟨hsame, hrng, hapart _ 5 ⟨1⟩ (Or.inl ⟨rfl, by decide⟩)⟩

end BehaviourTree
