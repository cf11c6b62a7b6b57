import BehaviourTree.Blackboard
import BehaviourTree.Clock
import BehaviourTree.Random
import BehaviourTree.StatusEvent

/-!
What an application brings to its trees: the values on its blackboards, its leaf behaviours, its
observers, and the state that leaves and observers reach outside a tree.
-/

namespace BehaviourTree

/-- What a leaf can see of the node it runs in. -/
structure LeafContext where
  frame : TickContext
  node : NodeId
  owner : Option AgentHandle

/-- What the leaves of a tree share: its blackboard, its random stream, and the world outside. -/
structure Shared {ι : Type} (V : ι → Type) (World : Type) where
  blackboard : Blackboard V
  rng : SplitMix64
  world : World

/-- What one call of a leaf does: its answer, the leaf and the shared state after it, and the notes
it wrote to the log. -/
structure LeafStep (Leaf State Note α : Type) where
  answer : α
  leaf : Leaf
  shared : State
  notes : List Note

/-- What an observer does with an event. One that panics keeps what it has done so far. -/
structure Reaction (Observer Audience Note : Type) where
  observer : Observer
  audience : Audience
  notes : List Note
  panicked : Bool

/-- An application that runs behaviour trees. -/
structure Host where
  /-- The types that blackboard entries can have. -/
  ValueType : Type
  Value : ValueType → Type
  decEqValueType : DecidableEq ValueType
  /-- State outside the trees that leaves read and write. -/
  World : Type
  /-- What leaves and observers write to the log. -/
  Note : Type
  /-- Leaves that return a status, each with its own state. -/
  Action : Type
  /-- Leaves that test something, each with its own state. -/
  Condition : Type
  /-- Listeners, each with its own state. -/
  Observer : Type
  /-- State outside the trees that observers read and write. -/
  Audience : Type
  /-- Runs before the first update of an action that was idle. -/
  enter : LeafContext → Action → Shared Value World → LeafStep Action (Shared Value World) Note Unit
  update : LeafContext → Action → Shared Value World →
    LeafStep Action (Shared Value World) Note Status
  /-- Runs after an update of an action that ended its run. -/
  exit : LeafContext → Action → Shared Value World → LeafStep Action (Shared Value World) Note Unit
  check : LeafContext → Condition → Shared Value World →
    LeafStep Condition (Shared Value World) Note Bool
  notify : StatusEvent → Observer → Audience → Reaction Observer Audience Note

instance (H : Host) : DecidableEq H.ValueType := H.decEqValueType

/-- The state that the leaves of a host's trees share. -/
abbrev Host.Shared (H : Host) : Type := BehaviourTree.Shared H.Value H.World

end BehaviourTree
