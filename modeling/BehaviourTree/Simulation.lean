import BehaviourTree.Agent
import Std.Data.TreeMap

/-!
Running a population for a number of frames, and counting what its trees answer.
-/

namespace BehaviourTree

/-- How often a tree gave each answer. -/
structure Tally where
  running : Nat
  success : Nat
  fail : Nat
deriving DecidableEq, Inhabited

namespace Tally

def zero : Tally := ⟨0, 0, 0⟩

def add (t : Tally) : Status → Tally
  | .running => { t with running := t.running+1 }
  | .success => { t with success := t.success+1 }
  | .fail => { t with fail := t.fail+1 }

end Tally

/-- The tallies of agents by number. Agents without an answer have none. -/
abbrev Tallies : Type := Std.TreeMap UInt64 Tally

variable {H : Host}

/-- A population in the middle of a simulation. -/
structure Simulation (H : Host) where
  /-- The next frame. -/
  frame : TickContext
  agents : List (Agent H)
  world : H.World
  audience : H.Audience
  tallies : Tallies
  /-- The traces of the frames, the last one first. -/
  traces : List (Trace H)

namespace Simulation

/-- A population before its first frame. -/
def start (dt : Float32) (agents : List (Agent H)) (world : H.World) (audience : H.Audience) :
    Simulation H := ⟨.ofTick 0 dt, agents, world, audience, ∅, []⟩

/-- Counts an agent's answer to a frame that it was due on. -/
def count (frame : TickContext) (t : Tallies) (a : Agent H) : Tallies :=
  match a.config.isDue frame.tick, a.lastStatus with
  | .ok true, some s => t.insert a.handle.number (((t[a.handle.number]?).getD .zero).add s)
  | _, _ => t

/-- Offers one frame to the population. -/
def step (s : Simulation H) : Simulation H :=
  let r := tickAgents s.frame s.agents s.world s.audience
  ⟨s.frame.next, r.agents, r.world, r.audience, r.agents.foldl (count s.frame) s.tallies,
    r.trace :: s.traces⟩

/-- Offers a number of frames. -/
def run : Nat → Simulation H → Simulation H
  | 0, s => s
  | n+1, s => run n s.step

/-- Everything that has happened, oldest first. -/
def trace (s : Simulation H) : Trace H := s.traces.reverse.flatten

end Simulation

end BehaviourTree
