import BehaviourTree.Command.Plan

/-!
Carrying out plans in a folder in memory.
-/

namespace BehaviourTree.Command

/-- What a plan has done so far. -/
structure Outcome where
  /-- The effects that have been carried out, the last first. -/
  done : List Effect
  folder : Folder
  /-- Why the command failed, if it did. -/
  failure : Option String

namespace Outcome

/-- Carries out effects until one fails. -/
def follow (o : Outcome) : List Effect → Outcome
  | [] => o
  | .write path text fault :: rest => match o.folder.write? path text with
    | some folder => follow { o with done := .write path text fault :: o.done, folder } rest
    | none => { o with failure := some fault.message }
  | e :: rest => follow { o with done := e :: o.done } rest

/-- The effects in the order in which they were carried out. -/
def effects (o : Outcome) : List Effect := o.done.reverse

/-- All that was printed and logged, if the whole command took no time. -/
def shown (o : Outcome) (time : String) : List String := o.effects.filterMap (·.shown? time)

/-- The exit code. -/
def code (o : Outcome) : UInt32 := if o.failure.isSome then 1 else 0

end Outcome

/-- Carries out a plan in a folder. -/
def Plan.carryOut (p : Plan) (folder : Folder) : Outcome :=
  Outcome.follow ⟨[], folder, p.failure⟩ p.effects

end BehaviourTree.Command
