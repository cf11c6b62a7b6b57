import BehaviourTree.Decimal.Layout
import BehaviourTree.Simulation
import BehaviourTree.TeamBoard

/-!
The report on a simulation: what every agent's tree answered, and what the agents reported to their
team.
-/

namespace BehaviourTree.Command

/-- A text with blanks in front of it up to a width. -/
def alignRight (width : Nat) (s : String) : String := "".pushn ' ' (width-s.length) ++ s

/-- A row of the table of answers. -/
def row (agent running success fail : String) : String :=
  " ".intercalate
    [alignRight 6 agent, alignRight 8 running, alignRight 8 success, alignRight 8 fail]

def tallyRow (agent : UInt64) (t : Tally) : String :=
  row (toString agent) (toString t.running) (toString t.success) (toString t.fail)

/-- A report of an agent, and its age at a given time. -/
def reportLine (now : Float) (r : TeamReport) : String :=
  let place := [r.value.x, r.value.y, r.value.z].map Decimal.plain.text
  "  " ++ r.key ++ " = (" ++ ", ".intercalate place ++ ") by agent " ++ toString r.agent.number ++
    " (confidence " ++ Decimal.fixedSingle 2 r.confidence ++ ", age " ++
    Decimal.fixedDouble 2 (r.age now) ++ "s)"

/-- The lines of a report on so many frames. Agents that gave no answer have no row. -/
def reportLines {H : Host} (frames : UInt64) (s : Simulation H) (reports : List TeamReport) :
    List String :=
  [s!"Simulated {s.agents.length} agents for {frames} ticks", "",
    row "agent" "running" "success" "fail"] ++
    s.tallies.toList.map (fun t => tallyRow t.1 t.2) ++
    if reports.isEmpty then []
    else "" :: "Team blackboard:" :: reports.map (reportLine s.frame.time)

end BehaviourTree.Command
