import BehaviourTree.Demo.Registry

/-!
Ready-made leaves among those of an application: what is proved of them holds wherever they are
used, whatever other leaves there are.
-/

namespace BehaviourTree.Demo

variable {H : Host}

/-- The step of a leaf is the one of the ready-made leaf that it is, if it is one. A leaf that is
none does not turn into one. -/
structure Serves {Leaf Ready α : Type} (boards : H.World → TeamBoards)
    (ready? : Leaf → Option Ready)
    (call : Ready → Shared H.Value TeamBoards →
      LeafStep Ready (Shared H.Value TeamBoards) Rejection α)
    (own : Leaf) (s : H.Shared) (step : LeafStep Leaf H.Shared H.Note α) : Prop where
  leaf : ready? step.leaf =
    (ready? own).map fun l => (call l ⟨s.blackboard, s.rng, boards s.world⟩).leaf
  answer : ∀ l ∈ ready? own, step.answer = (call l ⟨s.blackboard, s.rng, boards s.world⟩).answer
  blackboard : ∀ l ∈ ready? own,
    step.shared.blackboard = (call l ⟨s.blackboard, s.rng, boards s.world⟩).shared.blackboard

/-- A host that has the ready-made leaves among its own, and the team boards in its world. -/
structure Stock (H : Host) where
  flag : FlagType H.Value
  /-- The ready-made action that a leaf is, if it is one. -/
  action? : H.Action → Option Action
  condition? : H.Condition → Option Condition
  boards : H.World → TeamBoards
  enter : ∀ c a s, Serves boards action? (Action.enter c) a s (H.enter c a s)
  update : ∀ c a s, Serves boards action? (Action.update c) a s (H.update c a s)
  exit : ∀ c a s, Serves boards action? (Action.exit c) a s (H.exit c a s)
  check : ∀ c k s, Serves boards condition? (Condition.check flag c) k s (H.check c k s)

/-- A host that has nothing else. -/
def stock {ι : Type} [DecidableEq ι] {V : ι → Type} (flag : FlagType V) : Stock (host flag) where
  flag := flag
  action? := some
  condition? := some
  boards := id
  enter _ _ _ := ⟨rfl, fun _ h => Option.some.inj h ▸ rfl, fun _ h => Option.some.inj h ▸ rfl⟩
  update _ _ _ := ⟨rfl, fun _ h => Option.some.inj h ▸ rfl, fun _ h => Option.some.inj h ▸ rfl⟩
  exit _ _ _ := ⟨rfl, fun _ h => Option.some.inj h ▸ rfl, fun _ h => Option.some.inj h ▸ rfl⟩
  check _ _ _ := ⟨rfl, fun _ h => Option.some.inj h ▸ rfl, fun _ h => Option.some.inj h ▸ rfl⟩

end BehaviourTree.Demo
