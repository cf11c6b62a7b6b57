import BehaviourTree.Uuid

/-!
Who is who: nodes, blackboards and agents, and the supply that fresh identifiers are drawn from.
-/

namespace BehaviourTree

/-- Names a node of one tree. The same type serves for a node's authored identity. -/
structure NodeId where
  uuid : Uuid
deriving DecidableEq, Inhabited

namespace NodeId

def ofNat (n : Nat) : NodeId := ⟨.ofNat n⟩

def text (id : NodeId) : String := id.uuid.text

end NodeId

/-- Names one blackboard. -/
structure BlackboardId where
  uuid : Uuid
deriving DecidableEq, Inhabited

/-- Names the agent that owns a tree. Whatever the agent is lives elsewhere. -/
structure AgentHandle where
  number : UInt64
deriving DecidableEq, Inhabited

/-- Where fresh identifiers come from: a stream of them and how many have been drawn. -/
structure IdSupply where
  stream : Nat → Uuid
  drawn : Nat

/-- A computation that may draw fresh identifiers. -/
abbrev Minting := StateM IdSupply

namespace IdSupply

/-- The next identifier of the stream, and the supply without it. -/
def draw (s : IdSupply) : Uuid × IdSupply := (s.stream s.drawn, ⟨s.stream, s.drawn+1⟩)

/-- What callers promise of a supply: until `limit` identifiers have been drawn it does not repeat
itself, and it gives none that is in use. -/
structure Fresh (s : IdSupply) (limit : Nat) (used : Uuid → Prop) : Prop where
  distinct : ∀ i j, s.drawn ≤ i → i < limit → s.drawn ≤ j → j < limit →
    s.stream i = s.stream j → i = j
  unused : ∀ i, s.drawn ≤ i → i < limit → ¬ used (s.stream i)

end IdSupply

def mintNodeId : Minting NodeId := fun s => (⟨s.draw.1⟩, s.draw.2)

def mintBlackboardId : Minting BlackboardId := fun s => (⟨s.draw.1⟩, s.draw.2)

end BehaviourTree
