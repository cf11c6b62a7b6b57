import BehaviourTree.Host
import BehaviourTree.TeamBoard

/-!
Ready-made leaves, with which templates can be run without an application.
-/

namespace BehaviourTree.Demo

/-- The type among a blackboard's types that stands for truth values. -/
structure FlagType {ι : Type} (V : ι → Type) where
  type : ι
  encode : Bool → V type
  decode : V type → Bool
  decode_encode : ∀ b, decode (encode b) = b

/-- A team board turned a report down. -/
structure Rejection where
  key : String
deriving DecidableEq

/-- Actions that come ready-made. -/
inductive Action where
  | succeed
  | fail
  /-- Runs for `ticks` updates and then succeeds; `remaining` of them are still to come. -/
  | wait (ticks remaining : UInt32)
  /-- Reports to a team where the owner is. -/
  | report (team : TeamId)
deriving DecidableEq, Inhabited

/-- Conditions that come ready-made. -/
inductive Condition where
  /-- Holds on every other check of the trees that share a blackboard. -/
  | toggle
deriving DecidableEq, Inhabited

/-- The blackboard key that `toggle` flips. -/
def toggleKey : String := "toggle"

/-- The team key that `report` writes. -/
def sightingKey : String := "sighting"

variable {ι : Type} {V : ι → Type}

/-- A step that does nothing but answer. -/
def quiet {Leaf State Note α : Type} (answer : α) (leaf : Leaf) (shared : State) :
    LeafStep Leaf State Note α := ⟨answer, leaf, shared, []⟩

/-- What an agent reports on a frame: its number and the frame's as a place, with a confidence that
was drawn. -/
def sighting (owner : AgentHandle) (frame : TickContext) (confidence : Float32) : TeamReport where
  key := sightingKey
  value := ⟨owner.number.toFloat32, frame.tick.toFloat32, 0⟩
  agent := owner
  time := frame.time
  confidence

namespace Action

/-- A wait starts from its full length. -/
def enter (_ : LeafContext) (a : Action) (s : Shared V TeamBoards) :
    LeafStep Action (Shared V TeamBoards) Rejection Unit :=
  match a with
  | .wait ticks _ => quiet () (.wait ticks ticks) s
  | a => quiet () a s

def update (context : LeafContext) (a : Action) (s : Shared V TeamBoards) :
    LeafStep Action (Shared V TeamBoards) Rejection Status :=
  match a with
  | .succeed => quiet .success a s
  | .fail => quiet .fail a s
  | .wait ticks remaining =>
    if remaining = 0 then quiet .success a s else quiet .running (.wait ticks (remaining-1)) s
  | .report team => match context.owner with
    | none => quiet .fail a s
    | some owner =>
      let (confidence, rng) := s.rng.nextUnit
      let report := sighting owner context.frame confidence
      let (stored, world) := s.world.submit team report
      ⟨.success, a, { s with rng, world }, if stored then [] else [⟨report.key⟩]⟩

def exit (_ : LeafContext) (a : Action) (s : Shared V TeamBoards) :
    LeafStep Action (Shared V TeamBoards) Rejection Unit := quiet () a s

end Action

/-- A toggle answers the opposite of what it finds, and leaves its answer. Under a key of another
type it finds and leaves nothing, and does not hold. -/
def Condition.check [DecidableEq ι] (flag : FlagType V) (_ : LeafContext) (c : Condition)
    (s : Shared V TeamBoards) : LeafStep Condition (Shared V TeamBoards) Rejection Bool :=
  match c with
  | .toggle =>
    let next := !((s.blackboard.get? toggleKey flag.type).map flag.decode).getD false
    match s.blackboard.set toggleKey flag.type (flag.encode next) with
    | .ok blackboard => quiet next c { s with blackboard }
    | .error _ => quiet false c s

end BehaviourTree.Demo
