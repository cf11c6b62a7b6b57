import BehaviourTree.Demo.Leaf
import BehaviourTree.Observer
import BehaviourTree.Registry

/-!
The ready-made leaves by name, and a host that has nothing else.
-/

namespace BehaviourTree.Demo

/-- What the ready-made leaves and observers write to the log. -/
inductive Note where
  | rejected (r : Rejection)
  | heard (e : StatusEvent)
deriving DecidableEq

/-- A step whose notes are told apart from those of observers. -/
def noting {Leaf State α : Type} (s : LeafStep Leaf State Rejection α) :
    LeafStep Leaf State Note α := ⟨s.answer, s.leaf, s.shared, s.notes.map .rejected⟩

/-- A host with the ready-made leaves and observers, over any values that include flags. -/
def host {ι : Type} [DecidableEq ι] {V : ι → Type} (flag : FlagType V) : Host where
  ValueType := ι
  Value := V
  decEqValueType := inferInstance
  World := TeamBoards
  Note := Note
  Action := Action
  Condition := Condition
  Observer := Listener
  Audience := Recordings
  enter context a s := noting (a.enter context s)
  update context a s := noting (a.update context s)
  exit context a s := noting (a.exit context s)
  check context c s := noting (c.check flag context s)
  notify e o r := let (r, heard) := o.hear e r; ⟨o, r, heard.map .heard, false⟩

/-- A blackboard with nothing but flags. -/
def flagsOnly : FlagType fun _ : Unit => Bool := ⟨(), id, id, fun _ => rfl⟩

/-- The smallest host with the ready-made leaves and observers. -/
abbrev smallHost : Host := host flagsOnly

/-- How long the registered wait is. -/
def waitLength : UInt32 := 3

/-- The ready-made actions by name. -/
def actions (team : TeamId) : List (String × Action) :=
  [("Succeed", .succeed), ("Fail", .fail), ("Wait", .wait waitLength waitLength),
    ("Report", .report team)]

/-- The ready-made conditions by name. -/
def conditions : List (String × Condition) := [("Toggle", .toggle)]

/-- Adds the ready-made leaves to a registry of any host that has a place for them. -/
def register {H : Host} (action : Action → H.Action) (condition : Condition → H.Condition)
    (team : TeamId) (r : Registry H) : Registry H :=
  let r := (actions team).foldl (fun r a => r.register a.1 (.action (action a.2))) r
  conditions.foldl (fun r c => r.register c.1 (.condition (condition c.2))) r

/-- The built-in kinds and the ready-made leaves. -/
def registry {ι : Type} [DecidableEq ι] {V : ι → Type} (flag : FlagType V) (team : TeamId) :
    Registry (host flag) := register id id team .builtin

end BehaviourTree.Demo
