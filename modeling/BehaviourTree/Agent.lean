import BehaviourTree.Config
import BehaviourTree.Tree.Edit
import BehaviourTree.Tree.Instance
import BehaviourTree.Tree.Tick

/-!
Agents, each with its own instance of a tree and its own share of the frames to think in.
-/

namespace BehaviourTree

/-- On which frames an agent thinks: those whose number plus `offset` is a multiple of `every`. -/
structure ThinkConfig where
  /-- Zero counts as one. -/
  every : UInt32
  offset : UInt32
deriving DecidableEq, Inhabited

/-- The number of a frame plus an offset leaves 64 bits. -/
inductive ClockOverflow where
  | sumTooLarge
deriving DecidableEq

namespace ThinkConfig

/-- Every frame. -/
def always : ThinkConfig := ⟨1, 0⟩

def period (c : ThinkConfig) : UInt32 := if c.every = 0 then 1 else c.every

/-- Spreads agents over the frames of a period by their numbers. -/
def spread (agent : AgentHandle) (every : UInt32) : ThinkConfig :=
  let every := if every = 0 then 1 else every
  ⟨every, (agent.number%every.toUInt64).toUInt32⟩

/-- The agent is due to think on a frame. -/
def isDue (c : ThinkConfig) (tick : UInt64) : Except ClockOverflow Bool :=
  let sum := tick.toNat+c.offset.toNat
  if sum < UInt64.size then .ok (sum%c.period.toNat = 0) else .error .sumTooLarge

end ThinkConfig

/-- An agent, the tree it runs if it has one, and when it runs it. -/
structure Agent (H : Host) where
  handle : AgentHandle
  config : ThinkConfig
  tree : Option (Tree H)
  enabled : Bool
  /-- The answer of the last tick of the tree. -/
  lastStatus : Option Status

/-- What a frame leaves behind for one agent. -/
structure AgentTicked (H : Host) where
  agent : Agent H
  /-- The answer of the tree, if it was ticked. -/
  status : Option Status
  world : H.World
  audience : H.Audience
  trace : Trace H

namespace Agent

variable {H : Host}

def ofTree (handle : AgentHandle) (tree : Option (Tree H)) : Agent H :=
  ⟨handle, .always, tree, true, none⟩

/-- An agent with nothing to run. -/
def withoutTree (handle : AgentHandle) : Agent H := ofTree handle none

/-- An agent with its own instance of a tree. -/
def new (handle : AgentHandle) (template : Tree H) : Minting (Agent H) := do
  let tree ← template.instantiate
  pure (ofTree handle (some (tree.setOwner handle)))

/-- An agent that takes its seed and its rate of thinking from the settings. -/
def ofConfig (handle : AgentHandle) (template : Tree H) (config : RuntimeConfig) :
    Minting (Agent H) := do
  let tree ← template.instantiate
  let agent := ofTree handle (some ((tree.setSeed config.seed).setOwner handle))
  pure { agent with config := .spread handle config.thinkEvery }

/-- Stops ticking. The tree keeps its state. -/
def disable (a : Agent H) : Agent H := { a with enabled := false }

def enable (a : Agent H) : Agent H := { a with enabled := true }

/-- Offers a frame. The tree is ticked if the agent is enabled and due. -/
def tick (a : Agent H) (frame : TickContext) (world : H.World) (audience : H.Audience) :
    Except ClockOverflow (AgentTicked H) := do
  let idle : AgentTicked H := ⟨a, none, world, audience, []⟩
  if !a.enabled then pure idle
  else if !(← a.config.isDue frame.tick) then pure idle
  else match a.tree with
    | none => pure idle
    | some t =>
      let r := t.tick frame world audience
      let status := some r.tree.status
      let ticked := { a with tree := some r.tree, lastStatus := status }
      pure ⟨ticked, status, r.world, r.audience, r.trace⟩

end Agent

/-- What a frame leaves behind for a population. -/
structure PopulationTicked (H : Host) where
  agents : List (Agent H)
  world : H.World
  audience : H.Audience
  trace : Trace H
  /-- Set if an agent's clock overflowed. The agents after it were not offered the frame. -/
  overflow : Option ClockOverflow

variable {H : Host}

/-- Offers a frame to agents in the order of a list. -/
def tickEach (frame : TickContext) : List (Agent H) → H.World → H.Audience → PopulationTicked H
  | [], world, audience => ⟨[], world, audience, [], none⟩
  | a :: rest, world, audience => match a.tick frame world audience with
    | .error e => ⟨a :: rest, world, audience, [], some e⟩
    | .ok r =>
      let p := tickEach frame rest r.world r.audience
      ⟨r.agent :: p.agents, p.world, p.audience, r.trace ++ p.trace, p.overflow⟩

/-- Agents in ascending order of their numbers; equal numbers keep their order. -/
def sortAgents (agents : List (Agent H)) : List (Agent H) :=
  agents.mergeSort fun a b => a.handle.number ≤ b.handle.number

/-- Offers a frame to a population, in ascending order of the agents' numbers. -/
def tickAgents (frame : TickContext) (agents : List (Agent H)) (world : H.World)
    (audience : H.Audience) : PopulationTicked H :=
  tickEach frame (sortAgents agents) world audience

end BehaviourTree
