import BehaviourTree.Tick.Stage

/-!
How control nodes update their children. Each function is given `ask`, the update of a child.
-/

namespace BehaviourTree

variable {H : Host}

/-- Adds the children that are flagged and not yet among the guards, in the order of the list. -/
def collectGuards (flagged : NodeId → Bool) (children guards : List NodeId) : List NodeId :=
  children.foldl (fun gs c => if flagged c && !gs.contains c then gs ++ [c] else gs) guards

/-- Polls guards in turn up to the first that does not succeed. They hold if all succeed. -/
def pollGuards (ask : NodeId → Ticking H Status) : List NodeId → Ticking H Bool
  | [] => pure true
  | g :: gs => do
    match ← ask g with
    | .success => pollGuards ask gs
    | .fail => pure false
    | .running =>
      Ticking.warn (.guardRunning g)
      pure false

namespace Series

/-- Begins a run: the first child is next, and newly flagged children become guards. -/
def enter (flagged : NodeId → Bool) (s : Series) : Series :=
  { s with guards := collectGuards flagged s.children s.guards, current := 0 }

/-- Updates the current child. A child that ends in `pass` hands over to the next one, or ends the
run in `pass` if it was the last; any other answer is the composite's own. -/
def advance (ask : NodeId → Ticking H Status) (pass : Status) (s : Series) :
    Ticking H (Status × Series) :=
  match s.children[s.current]? with
  | none => pure (.fail, s)
  | some child => do
    let answer ← ask child
    if answer = pass then
      pure (if s.current+1 < s.children.length then .running else pass,
        { s with current := s.current+1 })
    else pure (answer, s)

/-- One update: the guards, and if they hold the current child. -/
def update (ask : NodeId → Ticking H Status) (pass : Status) (empty : Warning) (s : Series) :
    Ticking H (Status × Series) :=
  if s.children.isEmpty then do
    Ticking.warn empty
    pure (.fail, s)
  else do
    if ← pollGuards ask s.guards then s.advance ask pass else pure (.fail, s)

end Series

/-- Updates children in turn up to the first that fails. Without a failure the answer is `running`
if one of them runs, and `result` otherwise. -/
def updateAll (ask : NodeId → Ticking H Status) : List NodeId → Status → Ticking H Status
  | [], result => pure result
  | c :: cs, result => do
    match ← ask c with
    | .success => updateAll ask cs result
    | .running => updateAll ask cs .running
    | .fail => pure .fail

/-- Picks a child for the coming run, with one draw if there is a choice to make. -/
def pickChild (children : List NodeId) : Ticking H (Option NodeId) :=
  if children.isEmpty then do
    Ticking.warn .choiceWithoutChildren
    pure none
  else do
    let w ← Ticking.draw32
    pure children[scaleDraw w children.length]?

end BehaviourTree
