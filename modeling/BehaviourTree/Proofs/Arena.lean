import BehaviourTree.Proofs.Mirror
import BehaviourTree.Proofs.Profile

/-!
Ticks on an arena, which keeps the nodes apart from their order: a node is taken out of it for its
update and put back after it, so an update in progress is one that no link leads to. Such ticks are
those of the tree.
-/

namespace BehaviourTree

open Ticking

variable {H : Host} {α β : Type} {path : List NodeId} {id : NodeId}

namespace Stage

/-- Takes a node out of the arena. -/
def take (s : Stage H) (id : NodeId) : Stage H := { s with nodes := s.nodes.filter (·.id ≠ id) }

/-- Puts a node into the arena. -/
def put (s : Stage H) (n : Node H) : Stage H := { s with nodes := n :: s.nodes }

theorem take_node? (s : Stage H) (gone id : NodeId) :
    (s.take gone).node? id = if id = gone then none else s.node? id :=
  find?_without s.nodes gone id

theorem put_node? (s : Stage H) (n : Node H) (id : NodeId) :
    (s.put n).node? id = if id = n.id then some n else s.node? id := by
  unfold put node?
  by_cases hid : id = n.id
  · simp [hid]
  · have hne : ¬ n.id = id := fun h => hid h.symm
    simp [hid, hne]

theorem node?_isSome {s : Stage H} : (s.node? id).isSome ↔ id ∈ s.ids := by
  unfold node? ids
  rw [List.find?_isSome, List.mem_map]
  simp only [decide_eq_true_eq]

/-- Read in their order, nodes with different identifiers are all there. -/
theorem filterMap_node? {s : Stage H} (hkeys : s.ids.Nodup) :
    s.ids.filterMap s.node? = s.nodes := by
  have hfind (n : Node H) (hn : n ∈ s.nodes) : s.node? n.id = some n := by
    obtain ⟨m, hm⟩ := Option.isSome_iff_exists.mp (node?_isSome.mpr (List.mem_map_of_mem hn))
    have hid : m.id = n.id := by simpa using List.find?_some hm
    have hsame : m = n := List.inj_on_of_nodup_map hkeys (List.mem_of_find?_eq_some hm) hn hid
    rw [hm, hsame]
  have hall (l : List (Node H)) (hl : ∀ n ∈ l, n ∈ s.nodes) :
      (l.map (·.id)).filterMap s.node? = l := by
    induction l with
    | nil => rfl
    | cons n l ih =>
      rw [List.map_cons, List.filterMap_cons_some (hfind n (hl n List.mem_cons_self)),
        ih fun m hm => hl m (List.mem_cons_of_mem n hm)]
  exact hall s.nodes fun _ hn => hn

end Stage

/-! ### Updates on an arena -/

/-- An update on an arena: the node is taken out, updated and put back. Of `path` no more than its
head is used, to note who asks. -/
def takeStep (frame : TickContext) (path : List NodeId) (id : NodeId)
    (ask : NodeId → Ticking H Status) : Ticking H Status :=
  asking path id do
    match (← Ticking.stage).node? id with
    | none => unresolved id
    | some n =>
      Ticking.edit (·.take id)
      let (status, n) ← n.update frame (fun s c => (s.node? c).any (·.alwaysCheck)) ask
      Ticking.edit (·.put n)
      pure status

/-- The updates of a node and, through its links, of the nodes below it. -/
def takeNode (frame : TickContext) : Nat → List NodeId → NodeId → Ticking H Status
  | 0, path, id => asking path id (unresolved id)
  | depth+1, path, id => takeStep frame path id (takeNode frame depth (id :: path))

/-- A tick of a tree whose nodes lie in an arena, beside their order. -/
def Tree.tickTaking (t : Tree H) (frame : TickContext) (world : H.World) (audience : H.Audience) :
    Ticked H :=
  let p := takeNode frame t.size [] t.root (t.stage world audience)
  let shared := p.stage.shared
  let tree := { t with
    nodes := t.ids.filterMap p.stage.node?, blackboard := shared.blackboard, rng := shared.rng,
    status := p.answer, observers := p.stage.observers }
  ⟨tree, shared.world, p.stage.audience, p.trace⟩

/-! ### What they do -/

/-- While updates of `path` are in progress, the second stage is an arena without their nodes. -/
structure Lacks (path : List NodeId) (s s' : Stage H) : Prop where
  bare : s'.bare = s.bare
  node? : ∀ id, s'.node? id = s.find? path id

/-- What a run on a stage and one on an arena have in common. -/
structure Agrees (path : List NodeId) (s : Stage H) (p p' : Play H α) : Prop where
  answer : p'.answer = p.answer
  trace : p'.trace = p.trace
  ids : p.stage.ids = s.ids
  lacks : Lacks path p.stage p'.stage

namespace Ticking

/-- On an arena the second computation does what the first one does. -/
def Imitates (path : List NodeId) (m m' : Ticking H α) : Prop :=
  ∀ s s', Lacks path s s' → Agrees path s (m s) (m' s')

theorem Imitates.bind {m m' : Ticking H α} {f f' : α → Ticking H β} (hm : Imitates path m m')
    (hf : ∀ a, Imitates path (f a) (f' a)) : Imitates path (m >>= f) (m' >>= f') := by
  intro s s' hs
  have h := hm s s' hs
  have h' := hf (m s).answer (m s).stage (m' s').stage h.lacks
  have hrun : (m' >>= f') s' = ⟨(f' (m s).answer (m' s').stage).answer,
      (f' (m s).answer (m' s').stage).stage,
      (m' s').trace ++ (f' (m s).answer (m' s').stage).trace⟩ := by
    rw [bind_run, h.answer]
  rw [bind_run, hrun]
  refine ⟨h'.answer, ?_, h'.ids.trans h.ids, h'.lacks⟩
  exact congrArg₂ (· ++ ·) h.trace h'.trace

/-- What a node does by itself does not depend on where the nodes are. -/
theorem imitates_own {m : Ticking H α} (hown : Own id m) (hblind : Blind m) :
    Imitates path m m := by
  intro s s' hs
  obtain ⟨hnodes, -⟩ := hown s
  obtain ⟨hnodes', -⟩ := hown s'
  -- Both runs are the one on a stage without nodes, and neither touches the nodes it has.
  have hrun := hblind s'
  rw [hs.bare, hblind s] at hrun
  obtain ⟨hanswer, hbare, htrace⟩ := Play.mk.inj hrun
  refine ⟨hanswer.symm, htrace.symm, Stage.ids_eq_of_nodes hnodes, hbare.symm, fun id => ?_⟩
  rw [Stage.node?_of_nodes hnodes', hs.node?]
  unfold Stage.find?
  rw [hnodes]

theorem imitates_compositional (path : List NodeId) :
    Compositional (H := H) fun _ => Imitates path := by
  refine ⟨Imitates.bind, fun a => ?_, fun {w} hw => ?_⟩
  · have hown : Own (default : NodeId) (pure a : Ticking H _) := own_pure a
    exact imitates_own hown (blind_pure a)
  · have hown : Own (default : NodeId) (warn w : Ticking H Unit) := own_warn hw.resolved
    exact imitates_own hown (blind_emit _)

end Ticking

namespace NodeKind

variable {ask ask' : NodeId → Ticking H Status}

theorem enter_blind (context : LeafContext) (flagged : NodeId → Bool) (k : NodeKind H) :
    Blind (k.enter context flagged) :=
  @enter_congr H (fun _ m _ => Blind m) context blind_compositional blind_draw32
    (fun _ => blind_leaf _ _ _) flagged k

theorem settle_blind (context : LeafContext) (status : Status) (k : NodeKind H) :
    Blind (k.settle context status) :=
  @settle_congr H (fun _ m _ => Blind m) context blind_compositional
    (fun _ => blind_leaf _ _ _) status k

theorem update_imitates (context : LeafContext) (hask : ∀ c, Imitates path (ask c) (ask' c))
    (k : NodeKind H) : Imitates path (k.update context ask) (k.update context ask') := by
  have hleaf {Leaf α : Type} (hook : α → LeafHook)
      (call : H.Shared → LeafStep Leaf H.Shared H.Note α) :
      Imitates path (leaf context.node hook call) (leaf context.node hook call) :=
    imitates_own (own_leaf hook call) (blind_leaf context.node hook call)
  exact k.update_congr (imitates_compositional path) (fun _ => hleaf _ _) (fun _ => hleaf _ _)
    fun c _ => hask c

end NodeKind

namespace Node

variable {ask ask' : NodeId → Ticking H Status}

/-- The flags of children are read off the stage or the arena, and both have the same of them. -/
theorem begin_imitates (context : LeafContext) (n : Node H) :
    Imitates path (n.begin context fun s c => s.isGuard path c)
      (n.begin context fun s c => (s.node? c).any (·.alwaysCheck)) := by
  unfold Node.begin
  split
  · exact (imitates_compositional path).pure n.kind
  · have hemit : Own n.id (emit (.entered n.id) : Ticking H Unit) := own_emit rfl
    refine (imitates_own hemit (blind_emit _)).bind fun _ => ?_
    intro s s' hs
    have hflags : (fun c => (s'.node? c).any (·.alwaysCheck)) = fun c => s.isGuard path c := by
      funext c
      rw [hs.node? c]
      rfl
    have henter : Imitates path (n.kind.enter context fun c => s.isGuard path c)
        (n.kind.enter context fun c => s.isGuard path c) :=
      imitates_own (n.kind.enter_own context _) (n.kind.enter_blind context _)
    have hrun : Agrees path s (n.kind.enter context (fun c => s.isGuard path c) s)
        (n.kind.enter context (fun c => (s'.node? c).any (·.alwaysCheck)) s') := by
      rw [hflags]
      exact henter s s' hs
    exact hrun

theorem update_imitates (frame : TickContext) (hask : ∀ c, Imitates path (ask c) (ask' c))
    (n : Node H) : Imitates path (n.update frame (fun s c => s.isGuard path c) ask)
      (n.update frame (fun s c => (s.node? c).any (·.alwaysCheck)) ask') := by
  refine (n.begin_imitates ⟨frame, n.id, n.owner⟩).bind fun kind => ?_
  refine (kind.update_imitates ⟨frame, n.id, n.owner⟩ hask).bind fun answer => ?_
  obtain ⟨status, kind⟩ := answer
  have hannounce : Own n.id (announce ⟨frame.tick, n.id, n.guid, status⟩ n.observers) :=
    own_announce rfl n.observers
  refine (imitates_own hannounce (blind_announce _ n.observers)).bind fun observers => ?_
  have hsettle := kind.settle_own ⟨frame, n.id, n.owner⟩ status
  refine (imitates_own hsettle (kind.settle_blind _ status)).bind fun kind => ?_
  exact (imitates_compositional path).pure _

end Node

theorem takeStep_none {frame : TickContext} {s : Stage H} (ask : NodeId → Ticking H Status)
    (h : s.node? id = none) : takeStep frame path id ask s = ⟨.fail, s, refusal path id⟩ := by
  simp [takeStep, asking, unresolved, refusal, h]

/-- The update of a node that has been taken out. -/
abbrev takenUpdate (frame : TickContext) (ask : NodeId → Ticking H Status) (n : Node H) :
    Ticking H (Status × Node H) :=
  n.update frame (fun s c => (s.node? c).any (·.alwaysCheck)) ask

theorem takeStep_some {frame : TickContext} {s : Stage H} {n : Node H}
    (ask : NodeId → Ticking H Status) (h : s.node? id = some n) :
    takeStep frame path id ask s =
      ⟨(takenUpdate frame ask n (s.take id)).answer.1,
        (takenUpdate frame ask n (s.take id)).stage.put
          (takenUpdate frame ask n (s.take id)).answer.2,
        .asked path.head? id :: (takenUpdate frame ask n (s.take id)).trace ++
          [.answered path.head? id (takenUpdate frame ask n (s.take id)).answer.1]⟩ := by
  simp [takeStep, asking, takenUpdate, h]

/-- Taking a node out begins its update. -/
theorem Lacks.take {s s' : Stage H} (h : Lacks path s s') (id : NodeId) :
    Lacks (id :: path) s (s'.take id) := by
  refine ⟨h.bare, fun x => ?_⟩
  rw [Stage.take_node?, h.node?]
  unfold Stage.find?
  by_cases hx : x = id
  · simp [hx]
  · simp [hx]

/-- Putting it back ends the update, as long as the stage has a place for it. -/
theorem Lacks.put {s s' : Stage H} {n : Node H} (h : Lacks (n.id :: path) s s')
    (hpath : n.id ∉ path) (hplace : n.id ∈ s.ids) : Lacks path (s.restore n) (s'.put n) := by
  refine ⟨h.bare, fun x => ?_⟩
  rw [Stage.put_node?, h.node?]
  obtain ⟨m, hm⟩ := Option.isSome_iff_exists.mp (Stage.node?_isSome.mpr hplace)
  by_cases hx : x = n.id
  · rw [if_pos hx, hx, Stage.find?_eq_node? hpath, Stage.restore_node?, if_pos rfl, hm]
    rfl
  · rw [if_neg hx]
    by_cases hin : x ∈ path
    · rw [Stage.find?, Stage.find?, if_pos hin, if_pos (List.mem_cons_of_mem n.id hin)]
    · have hout : x ∉ n.id :: path := by simp [hx, hin]
      rw [Stage.find?_eq_node? hin, Stage.find?_eq_node? hout, Stage.restore_node?, if_neg hx]

theorem takeStep_imitates {frame : TickContext} {ask ask' : NodeId → Ticking H Status}
    (hask : ∀ c, Imitates (id :: path) (ask c) (ask' c)) :
    Imitates path (updateStep frame path id ask) (takeStep frame path id ask') := by
  intro s s' hs
  cases h : s.find? path id with
  | none =>
    rw [updateStep_none frame ask h, takeStep_none ask' ((hs.node? id).trans h)]
    exact ⟨rfl, rfl, rfl, hs⟩
  | some n =>
    obtain ⟨hmem, rfl, hpath⟩ := find?_some h
    -- On the stage the node stays where it is while its update goes on, and no link finds it.
    have hrun := n.update_imitates frame hask s (s'.take n.id) (hs.take n.id)
    have hprofile : (stepUpdate frame path ask n s).answer.2.profile = n.profile :=
      n.update_profile frame _ ask s
    have hid : (stepUpdate frame path ask n s).answer.2.id = n.id := congrArg Profile.id hprofile
    rw [updateStep_some frame ask h, takeStep_some ask' ((hs.node? n.id).trans h)]
    refine ⟨congrArg Prod.fst hrun.answer, ?_, ?_, ?_⟩
    · simp only [takenUpdate, stepUpdate, hrun.trace, hrun.answer]
    · exact (Stage.restore_ids _ _).trans hrun.ids
    · have hplace : (stepUpdate frame path ask n s).answer.2.id ∈
          (stepUpdate frame path ask n s).stage.ids := by
        rw [hid, hrun.ids]
        exact List.mem_map_of_mem hmem
      have hlacks := hrun.lacks
      rw [← hid] at hlacks hpath
      have hput := hlacks.put hpath hplace
      change Lacks path _ (Stage.put _ (takenUpdate frame ask' n (s'.take n.id)).answer.2)
      rw [hrun.answer]
      exact hput

theorem takeNode_imitates (frame : TickContext) (depth : Nat) (path : List NodeId) (id : NodeId) :
    Imitates (H := H) path (updateNode frame depth path id) (takeNode frame depth path id) := by
  induction depth generalizing path id with
  | zero =>
    intro s s' hs
    exact ⟨rfl, rfl, rfl, hs⟩
  | succ depth ih => exact takeStep_imitates fun c => ih (id :: path) c

/-- Taking nodes out and putting them back comes to the same as leaving them in their places. -/
theorem Tree.tickTaking_eq (t : Tree H) (hkeys : t.ids.Nodup) (frame : TickContext)
    (world : H.World) (audience : H.Audience) :
    t.tickTaking frame world audience = t.tick frame world audience := by
  have hstart : Lacks [] (t.stage world audience) (t.stage world audience) :=
    ⟨rfl, fun id => (Stage.find?_eq_node? List.not_mem_nil).symm⟩
  obtain ⟨hanswer, htrace, hids, hbare, hnodes⟩ :=
    takeNode_imitates frame t.size [] t.root _ _ hstart
  let p := updateNode frame t.size [] t.root (t.stage world audience)
  let p' := takeNode frame t.size [] t.root (t.stage world audience)
  have hshared : p'.stage.shared = p.stage.shared := congrArg (·.shared) hbare
  have hobservers : p'.stage.observers = p.stage.observers := congrArg (·.observers) hbare
  have haudience : p'.stage.audience = p.stage.audience := congrArg (·.audience) hbare
  have hplaces : p.stage.ids = t.ids := hids
  -- With no update in progress any more, the arena has all nodes, and the order tells where.
  have hall : t.ids.filterMap p'.stage.node? = p.stage.nodes := by
    rw [← Stage.filterMap_node? (hplaces ▸ hkeys), hplaces]
    apply List.filterMap_congr
    intro id _
    exact (hnodes id).trans (Stage.find?_eq_node? List.not_mem_nil)
  unfold tickTaking tick
  simp only [p, p'] at hshared hobservers haudience hall
  simp only [hall, hshared, hobservers, haudience, hanswer, htrace]

end BehaviourTree
