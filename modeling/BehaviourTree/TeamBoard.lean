import BehaviourTree.Identity
import BehaviourTree.Vector
import Std.Data.TreeMap

/-!
Facts that several agents share. A board keeps one report per key, the most confident one and among
equally confident ones the newest.
-/

namespace BehaviourTree

/-- Names a team. -/
abbrev TeamId := UInt32

/-- What an agent has seen, how sure it is, and when it saw it. -/
structure TeamReport where
  key : String
  value : Vec3
  agent : AgentHandle
  time : Float
  confidence : Float32
deriving Inhabited

namespace TeamReport

/-- Seconds from the report to `now`. -/
def age (r : TeamReport) (now : Float) : Float := now-r.time

/-- A report gives way to a more confident one and to an equally confident newer one. -/
def yieldsTo (stored offered : TeamReport) : Bool :=
  offered.confidence > stored.confidence ||
    (offered.confidence == stored.confidence && stored.time < offered.time)

end TeamReport

/-- The reports of one team, one per key. -/
structure TeamBoard where
  reports : Std.TreeMap String TeamReport

namespace TeamBoard

def empty : TeamBoard := ⟨∅⟩

def get? (b : TeamBoard) (key : String) : Option TeamReport := b.reports[key]?

/-- Offers a report. Nothing comes back if the stored one stands. -/
def submit? (b : TeamBoard) (r : TeamReport) : Option TeamBoard :=
  match b.get? r.key with
  | some stored => if stored.yieldsTo r then some ⟨b.reports.insert r.key r⟩ else none
  | none => some ⟨b.reports.insert r.key r⟩

/-- The report under a key if it is younger than `maxAge` seconds at `now`. -/
def recent? (b : TeamBoard) (key : String) (maxAge now : Float) : Option TeamReport :=
  (b.get? key).filter fun r => r.age now < maxAge

/-- All reports in the order of their keys. -/
def toList (b : TeamBoard) : List TeamReport := b.reports.values

def size (b : TeamBoard) : Nat := b.reports.size

def isEmpty (b : TeamBoard) : Bool := b.reports.isEmpty

end TeamBoard

/-- The boards of all teams. A board is there from its first use on. -/
structure TeamBoards where
  boards : Std.TreeMap TeamId TeamBoard

namespace TeamBoards

def empty : TeamBoards := ⟨∅⟩

def get? (s : TeamBoards) (team : TeamId) : Option TeamBoard := s.boards[team]?

/-- The board of a team, an empty one if it has none yet. -/
def board (s : TeamBoards) (team : TeamId) : TeamBoard := (s.get? team).getD .empty

def put (s : TeamBoards) (team : TeamId) (b : TeamBoard) : TeamBoards := ⟨s.boards.insert team b⟩

/-- Makes the board of a team if it has none yet. -/
def create (s : TeamBoards) (team : TeamId) : TeamBoards := s.put team (s.board team)

/-- Offers a report to a team; the answer is whether it was stored. -/
def submit (s : TeamBoards) (team : TeamId) (r : TeamReport) : Bool × TeamBoards :=
  match (s.board team).submit? r with
  | some b => (true, s.put team b)
  | none => (false, s.create team)

/-- Clears the board of a team that has one. -/
def reset (s : TeamBoards) (team : TeamId) : TeamBoards :=
  match s.get? team with
  | some _ => s.put team .empty
  | none => s

/-- Clears every board; the teams keep theirs. -/
def resetAll (s : TeamBoards) : TeamBoards := ⟨s.boards.map fun _ _ => .empty⟩

end TeamBoards

end BehaviourTree
