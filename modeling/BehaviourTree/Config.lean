/-!
Settings for driving a population of agents.
-/

namespace BehaviourTree

/-- How many agents there are, how long they are simulated, and how often they think. -/
structure RuntimeConfig where
  /-- The seed that all random choices derive from. -/
  seed : UInt64
  /-- An agent thinks on every one of so many frames. -/
  thinkEvery : UInt32
  /-- Seconds per frame. -/
  dt : Float32
  agents : UInt64
  /-- Frames to simulate. -/
  ticks : UInt64
deriving BEq, Inhabited

/-- One agent for one second at sixty frames a second. -/
def RuntimeConfig.standard : RuntimeConfig := ⟨0, 1, 1/60, 1, 60⟩

end BehaviourTree
