import BehaviourTree.Template.Build
import BehaviourTree.Tree.Edit
import BehaviourTree.Tree.Instance
import BehaviourTree.Tree.Tick

/-!
The life of a tree: how it comes about, and what is done to it from then on.
-/

namespace BehaviourTree

variable {H : Host}

/-- The supply after some more identifiers have been drawn elsewhere. -/
def IdSupply.skip (s : IdSupply) (draws : Nat) : IdSupply := ⟨s.stream, s.drawn+draws⟩

/-- A tree with what it draws on and what lies outside it. -/
structure Session (H : Host) where
  tree : Tree H
  supply : IdSupply
  world : H.World
  audience : H.Audience

/-- What can be done to a tree. -/
inductive Operation (H : Host) where
  | create (kind : String)
  | add (kind : NodeKind H)
  | delete (id : NodeId)
  | attach (parent child : NodeId)
  | detach (parent child : NodeId)
  | rename (id : NodeId) (name : String)
  | move (id : NodeId) (position : Vec2)
  | setAlwaysCheck (id : NodeId) (alwaysCheck : Bool)
  | sortChildren (parent : NodeId)
  | subscribe (id : NodeId) (o : H.Observer)
  | subscribeAll (o : H.Observer)
  | setOwner (agent : AgentHandle)
  | setSeed (seed : UInt64)
  | editBlackboard (f : Blackboard H.Value → Blackboard H.Value)
  | tick (frame : TickContext)
  /-- What happens outside the tree: identifiers are drawn, and the states there change. -/
  | elsewhere (draws : Nat) (world : H.World) (audience : H.Audience)

namespace Session

/-- A new tree in the world. -/
def new (registry : Registry H) (supply : IdSupply) (world : H.World) (audience : H.Audience) :
    Session H :=
  ⟨(Tree.new registry supply).1, (Tree.new registry supply).2, world, audience⟩

/-- The tree after an edit, and what is left to draw on. A refused edit changes nothing. -/
def edited (s : Session H) : Operation H → Tree H × IdSupply
  | .create kind =>
    let r := s.tree.create? kind s.supply
    (r.1.elim s.tree (·.2), r.2)
  | .add kind =>
    let r := s.tree.add kind s.supply
    (r.1.2, r.2)
  | .delete id =>
    let r := s.tree.delete? id s.supply
    (r.1.getD s.tree, r.2)
  | .attach parent child => (((s.tree.attach parent child).toOption).getD s.tree, s.supply)
  | .detach parent child => ((s.tree.detach? parent child).getD s.tree, s.supply)
  | .rename id name => ((s.tree.rename? id name).getD s.tree, s.supply)
  | .move id position => ((s.tree.move? id position).getD s.tree, s.supply)
  | .setAlwaysCheck id alwaysCheck =>
    ((s.tree.setAlwaysCheck? id alwaysCheck).getD s.tree, s.supply)
  | .sortChildren parent => ((s.tree.sortChildren? parent).getD s.tree, s.supply)
  | .subscribe id o => ((s.tree.subscribe? id o).getD s.tree, s.supply)
  | .subscribeAll o => (s.tree.subscribeAll o, s.supply)
  | .setOwner agent => (s.tree.setOwner agent, s.supply)
  | .setSeed seed => (s.tree.setSeed seed, s.supply)
  | .editBlackboard f => ({ s.tree with blackboard := f s.tree.blackboard }, s.supply)
  | .tick _ => (s.tree, s.supply)
  | .elsewhere draws _ _ => (s.tree, s.supply.skip draws)

/-- One operation, and what happens in it. -/
def step (s : Session H) : Operation H → Session H × Trace H
  | .tick frame =>
    let r := s.tree.tick frame s.world s.audience
    (⟨r.tree, s.supply, r.world, r.audience⟩, r.trace)
  | .elsewhere draws world audience => (⟨s.tree, s.supply.skip draws, world, audience⟩, [])
  | op => ({ s with tree := (s.edited op).1, supply := (s.edited op).2 }, [])

/-- Operations in a row. -/
def run (s : Session H) : List (Operation H) → Session H × Trace H
  | [] => (s, [])
  | op :: ops =>
    let (s, first) := s.step op
    let (s, rest) := s.run ops
    (s, first ++ rest)

/-- What every operation of a list keeps, operations in a row keep. -/
theorem run_induct {P : Session H → Trace H → Prop} {ops : List (Operation H)}
    (hstep : ∀ s τ, ∀ op ∈ ops, P s τ → P (s.step op).1 (τ ++ (s.step op).2)) {s : Session H}
    {τ : Trace H} (h : P s τ) : P (s.run ops).1 (τ ++ (s.run ops).2) := by
  induction ops generalizing s τ with
  | nil =>
    have hnil : τ ++ (s.run []).2 = τ := List.append_nil τ
    rw [hnil]
    exact h
  | cons op ops ih =>
    have hfirst := hstep s τ op List.mem_cons_self h
    have hall := ih (fun s τ d hd => hstep s τ d (List.mem_cons_of_mem op hd)) hfirst
    rw [List.append_assoc] at hall
    exact hall

end Session

/-- The trees that come about with one registry and those operations that are allowed, and all that
has happened in the ticks of each. Where a tree is made from scratch, identifiers are promised to be
fresh until `limit` of them have been drawn. -/
inductive Reached (registry : Registry H) (allowed : Operation H → Prop) (limit : Nat) :
    Session H → Trace H → Prop where
  /-- A tree of nothing but a root. -/
  | new {supply : IdSupply} (fresh : supply.Fresh limit fun _ => False) (world : H.World)
      (audience : H.Audience) :
      Reached registry allowed limit (.new registry supply world audience) []
  /-- What an author has described, with the children searched for loops in any order. -/
  | ofTemplate {a : TreeTemplate} {visit : List NodeId → List NodeId} {supply supply' : IdSupply}
      {t : Tree H} (fresh : supply.Fresh limit fun u => ∃ guid ∈ a.guids, guid.uuid = u)
      (hvisit : ∀ ids, (visit ids).Perm ids)
      (built : Tree.ofTemplateVia visit registry a supply = (.ok t, supply')) (world : H.World)
      (audience : H.Audience) : Reached registry allowed limit ⟨t, supply', world, audience⟩ []
  /-- A copy of a tree. -/
  | instantiate {s : Session H} {τ : Trace H} (reached : Reached registry allowed limit s τ) :
      Reached registry allowed limit { s with
        tree := (s.tree.instantiate s.supply).1, supply := (s.tree.instantiate s.supply).2 } []
  | step {s : Session H} {τ : Trace H} {op : Operation H}
      (reached : Reached registry allowed limit s τ) (isAllowed : allowed op) :
      Reached registry allowed limit (s.step op).1 (τ ++ (s.step op).2)

theorem Reached.run {registry : Registry H} {allowed : Operation H → Prop} {limit : Nat}
    {s : Session H} {τ : Trace H} (h : Reached registry allowed limit s τ)
    {ops : List (Operation H)} (hops : ∀ op ∈ ops, allowed op) :
    Reached registry allowed limit (s.run ops).1 (τ ++ (s.run ops).2) :=
  Session.run_induct (fun _ _ op hop hbefore => hbefore.step (hops op hop)) h

end BehaviourTree
