import BehaviourTree.Proofs.Updating
import BehaviourTree.Tree.Tick
import Mathlib.Data.List.Nodup

/-!
What a tick cannot change: the nodes in their order, and of each node everything but the state of
its runs and its observers.
-/

namespace BehaviourTree

open Ticking

variable {H : Host}

/-- What a node is, whatever its runs have done to it. -/
structure Profile where
  id : NodeId
  guid : NodeId
  typeName : String
  name : String
  type : NodeType
  alwaysCheck : Bool
  position : Vec2
  owner : Option AgentHandle
  blackboard : Option BlackboardId
  links : List NodeId

def Node.profile (n : Node H) : Profile :=
  ⟨n.id, n.guid, n.typeName, n.name, n.nodeType, n.alwaysCheck, n.position, n.owner, n.blackboard,
    n.links⟩

/-! ### Kinds -/

namespace NodeKind

/-- Two kinds of the same type with the same links. -/
def Alike (k k' : NodeKind H) : Prop := k'.nodeType = k.nodeType ∧ k'.links = k.links

theorem Alike.refl (k : NodeKind H) : k.Alike k := ⟨rfl, rfl⟩

theorem Alike.trans {k k' k'' : NodeKind H} (h : k.Alike k') (h' : k'.Alike k'') : k.Alike k'' :=
  ⟨h'.1.trans h.1, h'.2.trans h.2⟩

theorem enter_alike (context : LeafContext) (flagged : NodeId → Bool) (k : NodeKind H) :
    Answers k.Alike (k.enter context flagged) := by
  intro s
  cases k <;> exact ⟨rfl, rfl⟩

/-- At the end of a run an action may become another one, and all other kinds stay what they are. -/
theorem settle_cases (context : LeafContext) (status : Status) (k : NodeKind H) :
    Answers (fun k' => k' = k ∨ ∃ a a', k = action a ∧ k' = action a')
      (k.settle context status) := by
  intro s
  unfold settle
  split
  · cases k with
    | action a => exact Or.inr ⟨a, _, rfl, rfl⟩
    | root _ | condition _ | repeater _ | sequence _ | selector _ | parallel _
    | randomChoice _ _ => exact Or.inl rfl
  · exact Or.inl rfl

theorem settle_alike (context : LeafContext) (status : Status) (k : NodeKind H) :
    Answers k.Alike (k.settle context status) := by
  intro s
  rcases k.settle_cases context status s with hsame | ⟨a, a', rfl, haction⟩
  · rw [hsame]
    exact .refl k
  · rw [haction]
    exact ⟨rfl, rfl⟩

end NodeKind

/-- An update of a series moves nothing but the turn. -/
theorem Series.advance_turn (ask : NodeId → Ticking H Status) (pass : Status) (s : Series) :
    Answers (fun r => ∃ turn, r.2 = { s with current := turn }) (s.advance ask pass) := by
  unfold Series.advance
  split
  · exact answers_pure ⟨s.current, rfl⟩
  · refine answers_bind (answers_any _) fun answer _ => ?_
    split
    · exact answers_pure ⟨s.current+1, rfl⟩
    · exact answers_pure ⟨s.current, rfl⟩

theorem Series.update_turn (ask : NodeId → Ticking H Status) (pass : Status) (empty : Warning)
    (s : Series) :
    Answers (fun r => ∃ turn, r.2 = { s with current := turn }) (s.update ask pass empty) := by
  unfold Series.update
  split
  · exact answers_bind (answers_any _) fun _ _ => answers_pure ⟨s.current, rfl⟩
  · refine answers_bind (answers_any _) fun holds _ => ?_
    split
    · exact s.advance_turn ask pass
    · exact answers_pure ⟨s.current, rfl⟩

theorem NodeKind.update_alike (context : LeafContext) (ask : NodeId → Ticking H Status)
    (k : NodeKind H) : Answers (fun r => k.Alike r.2) (k.update context ask) := by
  cases k with
  | root child => cases child <;> exact fun _ => ⟨rfl, rfl⟩
  | repeater child => cases child <;> exact fun _ => ⟨rfl, rfl⟩
  | randomChoice cs selected => cases selected <;> exact fun _ => ⟨rfl, rfl⟩
  | sequence series | selector series =>
    refine answers_bind (series.update_turn ask _ _) ?_
    rintro ⟨status, _⟩ ⟨turn, rfl⟩
    exact answers_pure ⟨rfl, rfl⟩
  | action _ | condition _ | parallel _ => exact fun _ => ⟨rfl, rfl⟩

/-! ### Nodes -/

namespace Node

theorem begin_alike (context : LeafContext) (flagged : Stage H → NodeId → Bool) (n : Node H) :
    Answers n.kind.Alike (n.begin context flagged) := by
  intro s
  unfold Node.begin
  split
  · exact .refl n.kind
  · exact n.kind.enter_alike context _ _

theorem update_profile (frame : TickContext) (flagged : Stage H → NodeId → Bool)
    (ask : NodeId → Ticking H Status) (n : Node H) :
    Answers (fun r => r.2.profile = n.profile) (n.update frame flagged ask) := by
  refine answers_bind (n.begin_alike _ flagged) fun kind hbegin => ?_
  refine answers_bind (kind.update_alike _ ask) fun r hupdate => ?_
  obtain ⟨status, kind'⟩ := r
  refine answers_bind (answers_any _) fun observers _ => ?_
  refine answers_bind (kind'.settle_alike _ status) fun kind'' hsettle => ?_
  intro s
  obtain ⟨htype, hlinks⟩ := (hbegin.trans hupdate).trans hsettle
  simp only [pure_run, profile, nodeType, links, htype, hlinks]

end Node

/-! ### Ticks -/

namespace Stage

def ids (s : Stage H) : List NodeId := s.nodes.map (·.id)

def profiles (s : Stage H) : List Profile := s.nodes.map Node.profile

theorem ids_eq_of_nodes {s s' : Stage H} (h : s'.nodes = s.nodes) : s'.ids = s.ids := by
  simp only [ids, h]

theorem profiles_ids (s : Stage H) : s.profiles.map (·.id) = s.ids := by
  simp [profiles, ids, Node.profile, Function.comp_def]

theorem ids_eq_of_profiles {s s' : Stage H} (h : s'.profiles = s.profiles) : s'.ids = s.ids := by
  rw [← profiles_ids, ← profiles_ids, h]

/-- Among nodes with different identifiers, an identifier goes with one profile. -/
theorem profile_eq_of_id {s s' : Stage H} (hkeys : s.ids.Nodup) (h : s'.profiles = s.profiles)
    {n m : Node H} (hn : n ∈ s.nodes) (hm : m ∈ s'.nodes) (hid : m.id = n.id) :
    m.profile = n.profile := by
  -- The profile of the later node is that of an earlier one, and its identifier says of which.
  have hmem : m.profile ∈ s.profiles := h ▸ List.mem_map_of_mem hm
  obtain ⟨m₀, hm₀, heq⟩ := List.mem_map.mp hmem
  have hid₀ : m₀.id = n.id := (congrArg Profile.id heq).trans hid
  have hsame : m₀ = n := List.inj_on_of_nodup_map hkeys hm₀ hn hid₀
  rw [← heq, hsame]

/-- Putting a node back changes no identifier. -/
theorem restore_ids (s : Stage H) (n : Node H) : (s.restore n).ids = s.ids := by
  unfold ids restore
  rw [List.map_map]
  apply List.map_congr_left
  intro m _
  by_cases hid : m.id = n.id
  · simp [hid]
  · simp [hid]

theorem restore_profiles {s : Stage H} {n : Node H}
    (h : ∀ m ∈ s.nodes, m.id = n.id → m.profile = n.profile) :
    (s.restore n).profiles = s.profiles := by
  unfold profiles restore
  rw [List.map_map]
  apply List.map_congr_left
  intro m hm
  by_cases hid : m.id = n.id
  · simp [hid, h m hm hid]
  · simp [hid]

end Stage

/-- Updates keep the profiles of nodes that are told apart by their identifiers. -/
theorem updateNode_profiles (frame : TickContext) (depth : Nat) (path : List NodeId) (id : NodeId) :
    Keeps (fun s _ s' => s.ids.Nodup → s'.profiles = s.profiles)
      (updateNode (H := H) frame depth path id) := by
  apply updateNode_induct (R := fun _ s _ s' => s.ids.Nodup → s'.profiles = s.profiles)
  · intro _ _ s _
    rfl
  · intro path id s n ask hfind hask hkeys
    obtain ⟨hmem, rfl, -⟩ := find?_some hfind
    have hsteady (id : NodeId) : Steady id
        fun (s : Stage H) _ s' => s.ids.Nodup → s'.profiles = s.profiles := by
      refine ⟨?_, ?_⟩
      · intro s _ s' _ s'' h h' hkeys
        have hkeys' : s'.ids.Nodup := Stage.ids_eq_of_profiles (h hkeys) ▸ hkeys
        exact (h' hkeys').trans (h hkeys)
      · intro s _ s' hnodes _ _
        simp only [Stage.profiles, hnodes]
    have hbelow := n.update_keeps frame (fun s c => s.isGuard (n.id :: path) c) (hsteady n.id) hask
      s hkeys
    rw [updateStep_some frame ask hfind]
    refine Eq.trans (Stage.restore_profiles ?_) hbelow
    -- What is put back has the profile of what was found, and that has not changed on the stage.
    have hown := n.update_profile frame (fun s c => s.isGuard (n.id :: path) c) ask s
    intro m hm hid
    have hid' : m.id = n.id := hid.trans (congrArg Profile.id hown)
    rw [hown, Stage.profile_eq_of_id hkeys hbelow hmem hm hid']

theorem Tree.tick_profiles {t : Tree H} (hkeys : t.ids.Nodup) (frame : TickContext)
    (world : H.World) (audience : H.Audience) :
    (t.tick frame world audience).tree.nodes.map Node.profile = t.nodes.map Node.profile :=
  updateNode_profiles frame t.size [] t.root (t.stage world audience) hkeys

end BehaviourTree
