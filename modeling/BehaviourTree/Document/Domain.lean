import BehaviourTree.Config
import BehaviourTree.Document.Basic
import BehaviourTree.StatusEvent
import BehaviourTree.Template.Basic

/-!
The values that are saved and loaded, as documents. For each there is what is written and what is
read, in any format.
-/

namespace BehaviourTree

variable {V : Type}

def Uuid.toDocument (u : Uuid) : Document := .text u.text

def Uuid.read (d : Dialect V) (v : V) : Option Uuid := d.text v >>= Uuid.ofText?

def NodeId.toDocument (id : NodeId) : Document := id.uuid.toDocument

def NodeId.read (d : Dialect V) (v : V) : Option NodeId := NodeId.mk <$> Uuid.read d v

def BlackboardId.toDocument (id : BlackboardId) : Document := id.uuid.toDocument

def BlackboardId.read (d : Dialect V) (v : V) : Option BlackboardId :=
  BlackboardId.mk <$> Uuid.read d v

def AgentHandle.toDocument (a : AgentHandle) : Document := .natural a.number.toNat

def readWord (d : Dialect V) (v : V) : Option UInt64 := UInt64.ofNat <$> d.below UInt64.size v

def AgentHandle.read (d : Dialect V) (v : V) : Option AgentHandle := AgentHandle.mk <$> readWord d v

def Status.toDocument (s : Status) : Document := .text s.name

def Status.read (d : Dialect V) (v : V) : Option Status := d.choice v >>= Status.ofName?

def NodeType.toDocument (t : NodeType) : Document := .text t.name

def NodeType.read (d : Dialect V) (v : V) : Option NodeType := d.choice v >>= NodeType.ofName?

namespace Vec2

def parts : List String := ["x", "y"]

def shape : Shape := .flat parts

def toDocument (p : Vec2) : Document := .record [("x", .single p.x), ("y", .single p.y)]

def read (d : Dialect V) (v : V) : Option Vec2 := do
  match ← d.record parts v with
  | [x, y] => pure ⟨← required d.single x, ← required d.single y⟩
  | _ => none

end Vec2

namespace Vec3

def parts : List String := ["x", "y", "z"]

def shape : Shape := .flat parts

def toDocument (p : Vec3) : Document :=
  .record [("x", .single p.x), ("y", .single p.y), ("z", .single p.z)]

def read (d : Dialect V) (v : V) : Option Vec3 := do
  match ← d.record parts v with
  | [x, y, z] => pure ⟨← required d.single x, ← required d.single y, ← required d.single z⟩
  | _ => none

end Vec3

namespace StatusEvent

def parts : List String := ["tick", "node", "guid", "status"]

def shape : Shape := .flat parts

def toDocument (e : StatusEvent) : Document :=
  .record [("tick", .natural e.tick.toNat), ("node", e.node.toDocument),
    ("guid", e.guid.toDocument), ("status", e.status.toDocument)]

def read (d : Dialect V) (v : V) : Option StatusEvent := do
  match ← d.record parts v with
  | [tick, node, guid, status] =>
    pure ⟨← required (readWord d) tick, ← required (NodeId.read d) node,
      ← required (NodeId.read d) guid, ← required (Status.read d) status⟩
  | _ => none

end StatusEvent

namespace TraceLog

def shape : Shape := .record [("events", .list StatusEvent.shape)]

def toDocument (l : TraceLog) : Document :=
  .record [("events", .list (l.events.map (·.toDocument)))]

def read (d : Dialect V) (v : V) : Option TraceLog := do
  match ← d.record ["events"] v with
  | [events] => pure (.ofEvents (← required (d.each (StatusEvent.read d)) events))
  | _ => none

end TraceLog

namespace NodeTemplate

def parts : List String := ["guid", "kind", "name", "always_check", "position", "children"]

def shape : Shape :=
  .record [("guid", .single), ("kind", .single), ("name", .single), ("always_check", .single),
    ("position", Vec2.shape), ("children", .list .single)]

/-- A name that is not given and an empty list of children are left out. -/
def toDocument (a : NodeTemplate) : Document :=
  .record ([("guid", a.guid.toDocument), ("kind", .text a.kind)] ++
    (a.name.map fun n => ("name", .text n)).toList ++
    [("always_check", .flag a.alwaysCheck), ("position", a.position.toDocument)] ++
    if a.children.isEmpty then [] else [("children", .list (a.children.map (·.toDocument)))])

def read (d : Dialect V) (v : V) : Option NodeTemplate := do
  match ← d.record parts v with
  | [guid, kind, name, alwaysCheck, position, children] =>
    let readName (v : V) : Option (Option String) := do
      match ← d.optional v with
      | none => pure none
      | some v => some <$> d.text v
    pure ⟨← required (NodeId.read d) guid, ← required d.text kind, ← defaulting none readName name,
      ← defaulting false d.flag alwaysCheck, ← defaulting .zero (Vec2.read d) position,
      ← defaulting [] (d.each (NodeId.read d)) children⟩
  | _ => none

end NodeTemplate

namespace TreeTemplate

def shape : Shape := .record [("nodes", .list NodeTemplate.shape)]

def toDocument (t : TreeTemplate) : Document :=
  .record [("nodes", .list (t.nodes.map (·.toDocument)))]

def read (d : Dialect V) (v : V) : Option TreeTemplate := do
  match ← d.record ["nodes"] v with
  | [nodes] => pure ⟨← defaulting [] (d.each (NodeTemplate.read d)) nodes⟩
  | _ => none

end TreeTemplate

namespace RuntimeConfig

def parts : List String := ["seed", "think_every_ticks", "dt_seconds", "agents", "ticks"]

def shape : Shape := .flat parts

def toDocument (c : RuntimeConfig) : Document :=
  .record [("seed", .natural c.seed.toNat), ("think_every_ticks", .natural c.thinkEvery.toNat),
    ("dt_seconds", .single c.dt), ("agents", .natural c.agents.toNat),
    ("ticks", .natural c.ticks.toNat)]

/-- Settings that are not given are the standard ones. -/
def read (d : Dialect V) (v : V) : Option RuntimeConfig := do
  match ← d.record parts v with
  | [seed, thinkEvery, dt, agents, ticks] =>
    let s := standard
    pure ⟨← defaulting s.seed (readWord d) seed,
      ← defaulting s.thinkEvery (fun v => UInt32.ofNat <$> d.below UInt32.size v) thinkEvery,
      ← defaulting s.dt d.single dt, ← defaulting s.agents (readWord d) agents,
      ← defaulting s.ticks (readWord d) ticks⟩
  | _ => none

end RuntimeConfig

end BehaviourTree
