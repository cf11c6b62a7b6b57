import BehaviourTree.Proofs.Forest
import BehaviourTree.Proofs.Session
import BehaviourTree.Proofs.Sorting

/-!
Every edit of a tree keeps its links a forest under its root, and its identifiers apart from those
that are still to be drawn.
-/

namespace BehaviourTree

open Relation
open scoped List

variable {H : Host}

/-! ### Fresh identifiers -/

namespace IdSupply

/-- The second supply is what is left of the first after some draws. -/
structure Precedes (s s' : IdSupply) : Prop where
  stream : s'.stream = s.stream
  drawn : s.drawn ≤ s'.drawn

variable {s s' s'' : IdSupply} {limit : Nat} {used used' : Uuid → Prop}

theorem Precedes.refl (s : IdSupply) : s.Precedes s := ⟨rfl, Nat.le_refl _⟩

theorem Precedes.trans (h : s.Precedes s') (h' : s'.Precedes s'') : s.Precedes s'' :=
  ⟨h'.stream.trans h.stream, Nat.le_trans h.drawn h'.drawn⟩

instance : Trans Precedes Precedes Precedes := ⟨Precedes.trans⟩

theorem precedes_draw (s : IdSupply) : s.Precedes s.draw.2 := ⟨rfl, Nat.le_succ _⟩

theorem precedes_skip (s : IdSupply) (draws : Nat) : s.Precedes (s.skip draws) :=
  ⟨rfl, Nat.le_add_right _ _⟩

theorem Precedes.within (h : s.Precedes s') (hlimit : s'.drawn ≤ limit) : s.drawn ≤ limit :=
  Nat.le_trans h.drawn hlimit

theorem Fresh.mono (h : s.Fresh limit used) (hused : ∀ u, used' u → used u) :
    s.Fresh limit used' :=
  ⟨h.distinct, fun i hi hi' hu => h.unused i hi hi' (hused _ hu)⟩

theorem Fresh.later (h : s.Fresh limit used) (hs : s.Precedes s') : s'.Fresh limit used := by
  obtain ⟨hstream, hdrawn⟩ := hs
  have hle (i : Nat) (hi : s'.drawn ≤ i) : s.drawn ≤ i := Nat.le_trans hdrawn hi
  refine ⟨fun i j hi hi' hj hj' => ?_, fun i hi => ?_⟩
  · rw [hstream]
    exact h.distinct i j (hle i hi) hi' (hle j hj) hj'
  · rw [hstream]
    exact h.unused i (hle i hi)

theorem Fresh.draw_unused (h : s.Fresh limit used) (hlimit : s.draw.2.drawn ≤ limit) :
    ¬ used s.draw.1 :=
  h.unused s.drawn (Nat.le_refl _) hlimit

/-- What has been drawn may be put to use. -/
theorem Fresh.draw (h : s.Fresh limit used) :
    s.draw.2.Fresh limit fun u => used u ∨ u = s.draw.1 := by
  refine ⟨(h.later s.precedes_draw).distinct, ?_⟩
  intro i hi hi' hu
  rcases hu with hu | hu
  · exact (h.later s.precedes_draw).unused i hi hi' hu
  -- A later draw that gives the same identifier would be this one.
  · have hlater : s.drawn+1 ≤ i := hi
    have heq : i = s.drawn := h.distinct i s.drawn (by omega) hi' (Nat.le_refl _) (by omega) hu
    omega

end IdSupply

/-- The identifiers that some nodes bear or link to. -/
def uses (ps : List Profile) (u : Uuid) : Prop :=
  ∃ b ∈ ps, b.id.uuid = u ∨ b.guid.uuid = u ∨ ∃ c ∈ b.links, c.uuid = u

theorem Pares.uses {ps ps' : List Profile} (h : Pares ps ps') {u : Uuid} (hu : uses ps' u) :
    uses ps u := by
  obtain ⟨b', hb', hu⟩ := hu
  obtain ⟨b, hb, hid, hguid, -, hlinks⟩ := h.origin b' hb'
  refine ⟨b, hb, ?_⟩
  rw [hid, hguid]
  exact hu.imp_right (Or.imp_right fun ⟨c, hc, hcu⟩ => ⟨c, hlinks.subset hc, hcu⟩)

theorem uses_withLink {ps : List Profile} {p c : NodeId} {u : Uuid}
    (hu : uses (withLink p c ps) u) : uses ps u ∨ c.uuid = u := by
  obtain ⟨b', hb', hu⟩ := hu
  obtain ⟨b, hb, rfl⟩ := List.mem_map.mp hb'
  by_cases hp : b.id = p
  · rw [if_pos hp] at hu
    rcases hu with hu | hu | ⟨d, hd, hu⟩
    · exact Or.inl ⟨b, hb, Or.inl hu⟩
    · exact Or.inl ⟨b, hb, Or.inr (Or.inl hu)⟩
    · rcases List.mem_append.mp hd with hd | hd
      · exact Or.inl ⟨b, hb, Or.inr (Or.inr ⟨d, hd, hu⟩)⟩
      · obtain rfl := List.mem_singleton.mp hd
        exact Or.inr hu
  · rw [if_neg hp] at hu
    exact Or.inl ⟨b, hb, hu⟩

namespace Tree

variable {t t' : Tree H} {limit : Nat} {supply : IdSupply} {id parent child : NodeId}

def profiles (t : Tree H) : List Profile := t.nodes.map Node.profile

/-- The links of a tree form a forest under its root, and it uses no identifier that may still be
drawn. -/
structure Sound (t : Tree H) (limit : Nat) (supply : IdSupply) : Prop where
  forest : Forest t.profiles
  rooted : Rooted t.root t.profiles
  fresh : supply.Fresh limit (uses t.profiles)

theorem map_id_profiles (t : Tree H) : t.profiles.map (·.id) = t.ids := by
  simp [profiles, ids, Node.profile, Function.comp_def]

theorem Sound.keyed (h : t.Sound limit supply) : t.ids.Nodup := t.map_id_profiles ▸ h.forest.ids

theorem mem_uses (h : id ∈ t.ids) : uses t.profiles id.uuid := by
  rw [← map_id_profiles] at h
  obtain ⟨b, hb, rfl⟩ := List.mem_map.mp h
  exact ⟨b, hb, Or.inl rfl⟩

/-- A fresh identifier is that of no node. -/
theorem draw_notMem_ids (h : supply.Fresh limit (uses t.profiles))
    (hlimit : supply.draw.2.drawn ≤ limit) : (⟨supply.draw.1⟩ : NodeId) ∉ t.ids :=
  fun hmem => h.draw_unused hlimit (mem_uses hmem)

/-! ### Edits that take links away -/

theorem Sound.pare (h : t.Sound limit supply) (hpares : Pares t.profiles t'.profiles)
    (hroot : t'.root = t.root) (hids : t'.ids = t.ids) : t'.Sound limit supply := by
  refine ⟨hpares.forest h.forest, ?_, h.fresh.mono fun _ => hpares.uses⟩
  obtain ⟨r, hr, hid, -⟩ := h.rooted.live
  have hlive : t.root ∈ t'.profiles.map (·.id) := by
    rw [map_id_profiles, hids, ← map_id_profiles]
    exact List.mem_map.mpr ⟨r, hr, hid⟩
  rw [hroot]
  exact hpares.rooted h.rooted h.forest.ids hlive

theorem Sound.skip (h : t.Sound limit supply) (draws : Nat) : t.Sound limit (supply.skip draws) :=
  ⟨h.forest, h.rooted, h.fresh.later (supply.precedes_skip draws)⟩

/-- An edit of nodes one by one that adds no links. -/
theorem Sound.map (h : t.Sound limit supply) {f : Node H → Node H} (hroot : t'.root = t.root)
    (hnodes : t'.nodes = t.nodes.map f)
    (hf : ∀ n ∈ t.nodes, (f n).id = n.id ∧ (f n).guid = n.guid ∧ (f n).nodeType = n.nodeType ∧
      (f n).links <+~ n.links) : t'.Sound limit supply := by
  have hprofiles : t'.profiles = t.nodes.map fun n => (f n).profile := by
    rw [profiles, hnodes, List.map_map]
    rfl
  refine h.pare ?_ hroot ?_
  · rw [hprofiles]
    exact pares_map hf
  · rw [ids, hnodes, List.map_map]
    exact List.map_congr_left fun n hn => (hf n hn).1

theorem Sound.editNode (h : t.Sound limit supply) {f : Node H → Node H}
    (hf : ∀ n, (f n).id = n.id ∧ (f n).guid = n.guid ∧ (f n).nodeType = n.nodeType ∧
      (f n).links = n.links) : ((t.editNode? id f).getD t).Sound limit supply := by
  unfold editNode?
  split
  · refine h.map rfl rfl fun n _ => ?_
    obtain ⟨hid, hguid, htype, hlinks⟩ := hf n
    by_cases hn : n.id = id
    · rw [if_pos hn]
      exact ⟨hid, hguid, htype, hlinks ▸ .refl _⟩
    · rw [if_neg hn]
      exact ⟨rfl, rfl, rfl, .refl _⟩
  · exact h

theorem Sound.setOwner (h : t.Sound limit supply) (agent : AgentHandle) :
    (t.setOwner agent).Sound limit supply := by
  refine h.map rfl rfl fun n _ => ?_
  split
  · exact ⟨rfl, rfl, rfl, .refl _⟩
  · exact ⟨rfl, rfl, rfl, .refl _⟩

theorem Sound.tick (h : t.Sound limit supply) (frame : TickContext) (world : H.World)
    (audience : H.Audience) : (t.tick frame world audience).tree.Sound limit supply := by
  have hprofiles : (t.tick frame world audience).tree.profiles = t.profiles :=
    t.tick_profiles h.keyed frame world audience
  refine h.pare (hprofiles ▸ .refl _) rfl ?_
  rw [← map_id_profiles, ← map_id_profiles, hprofiles]

/-! ### New nodes -/

theorem insert_of_new {n : Node H} (hn : n.id ∉ t.ids) :
    t.insert n = { t with nodes := t.nodes ++ [n] } := by
  unfold insert
  rw [if_neg fun hlive => hn (contains_iff.mp hlive)]

theorem insert_profiles {n : Node H} (hn : n.id ∉ t.ids) :
    (t.insert n).profiles = t.profiles ++ [n.profile] := by
  rw [insert_of_new hn]
  simp [profiles]

/-- A new node without links, under a fresh identifier. -/
theorem insert_forest (hforest : Forest t.profiles)
    (hfresh : supply.Fresh limit (uses t.profiles)) (hlimit : supply.draw.2.drawn ≤ limit)
    {n : Node H} (hid : n.id = ⟨supply.draw.1⟩) (hguid : n.guid = n.id) (hlinks : n.links = []) :
    Forest (t.insert n).profiles ∧ supply.draw.2.Fresh limit (uses (t.insert n).profiles) := by
  -- A new node bears its identifier as its authored identity too, and both are unused.
  have hnew : n.id ∉ t.ids := hid ▸ draw_notMem_ids hfresh hlimit
  have hguids : n.guid ∉ t.profiles.map (·.guid) := by
    intro hmem
    obtain ⟨b, hb, hb'⟩ := List.mem_map.mp hmem
    have huuid : b.guid.uuid = supply.draw.1 := by rw [hb', hguid, hid]
    exact hfresh.draw_unused hlimit ⟨b, hb, Or.inr (Or.inl huuid)⟩
  rw [insert_profiles hnew]
  refine ⟨hforest.add (t.map_id_profiles ▸ hnew) hguids hlinks, ?_⟩
  refine hfresh.draw.mono fun u hu => ?_
  obtain ⟨b, hb, hu⟩ := hu
  rcases List.mem_append.mp hb with hb | hb
  · exact Or.inl ⟨b, hb, hu⟩
  · obtain rfl := List.mem_singleton.mp hb
    refine Or.inr ?_
    rcases hu with rfl | rfl | ⟨c, hc, -⟩
    · exact congrArg NodeId.uuid hid
    · exact congrArg NodeId.uuid (hguid.trans hid)
    · exact absurd hc (by simp [Node.profile, hlinks])

theorem insert_root (t : Tree H) (n : Node H) : (t.insert n).root = t.root := by
  unfold insert
  split <;> rfl

theorem Sound.insert (h : t.Sound limit supply) (hlimit : supply.draw.2.drawn ≤ limit)
    {n : Node H} (hid : n.id = ⟨supply.draw.1⟩) (hguid : n.guid = n.id) (hlinks : n.links = []) :
    (t.insert n).Sound limit supply.draw.2 := by
  obtain ⟨hforest, hfresh⟩ := insert_forest h.forest h.fresh hlimit hid hguid hlinks
  have hnew : n.id ∉ t.ids := hid ▸ draw_notMem_ids h.fresh hlimit
  refine ⟨hforest, ?_, hfresh⟩
  rw [insert_root, insert_profiles hnew]
  exact h.rooted.add hlinks

theorem Sound.addNamed (h : t.Sound limit supply) (typeName : String) {kind : NodeKind H}
    (hkind : kind.LinkFree) (hlimit : (t.addNamed typeName kind supply).2.drawn ≤ limit) :
    (t.addNamed typeName kind supply).1.2.Sound limit (t.addNamed typeName kind supply).2 :=
  h.insert hlimit rfl rfl hkind

/-- The node that takes the place of a root that is gone. -/
def spareRoot (t : Tree H) (id : NodeId) : Node H :=
  { Node.make id NodeType.root.name (.root none) with
    owner := t.owner, blackboard := some t.blackboard.id }

theorem ensureRoot_of_live (h : t.contains t.root) (supply : IdSupply) :
    t.ensureRoot supply = (t, supply) := by
  unfold ensureRoot
  rw [if_pos h]
  rfl

theorem ensureRoot_of_gone (h : ¬ t.contains t.root) (supply : IdSupply) :
    t.ensureRoot supply =
      ({ t.insert (t.spareRoot ⟨supply.draw.1⟩) with root := ⟨supply.draw.1⟩ }, supply.draw.2) := by
  unfold ensureRoot
  rw [if_neg h]
  rfl

/-- A root that is gone is replaced by a new node without links. -/
theorem ensureRoot_spec (t : Tree H) (supply : IdSupply) :
    t.contains t.root ∧ t.ensureRoot supply = (t, supply) ∨
      ∃ n : Node H, n.id = ⟨supply.draw.1⟩ ∧ n.guid = n.id ∧ n.nodeType = .root ∧ n.links = [] ∧
        n.running = false ∧
        t.ensureRoot supply = ({ t.insert n with root := n.id }, supply.draw.2) := by
  by_cases hlive : t.contains t.root
  · exact Or.inl ⟨hlive, ensureRoot_of_live hlive supply⟩
  · exact Or.inr ⟨t.spareRoot ⟨supply.draw.1⟩, rfl, rfl, rfl, rfl, rfl,
      ensureRoot_of_gone hlive supply⟩

theorem ensureRoot_precedes (t : Tree H) (supply : IdSupply) :
    supply.Precedes (t.ensureRoot supply).2 := by
  rcases t.ensureRoot_spec supply with ⟨-, hrun⟩ | ⟨n, -, -, -, -, -, hrun⟩
  · rw [hrun]
    exact .refl supply
  · rw [hrun]
    exact supply.precedes_draw

theorem ensureRoot_sound (hforest : Forest t.profiles)
    (hfresh : supply.Fresh limit (uses t.profiles))
    (hrooted : t.contains t.root → Rooted t.root t.profiles)
    (hlimit : (t.ensureRoot supply).2.drawn ≤ limit) :
    (t.ensureRoot supply).1.Sound limit (t.ensureRoot supply).2 := by
  rcases t.ensureRoot_spec supply with ⟨hlive, hrun⟩ | ⟨n, hid, hguid, htype, hlinks, -, hrun⟩
  · rw [hrun]
    exact ⟨hforest, hrooted hlive, hfresh⟩
  · rw [hrun] at hlimit ⊢
    obtain ⟨hforest', hfresh'⟩ := insert_forest hforest hfresh hlimit hid hguid hlinks
    have hnew : n.id ∉ t.ids := hid ▸ draw_notMem_ids hfresh hlimit
    refine ⟨hforest', ⟨⟨n.profile, ?_, rfl, htype⟩, ?_⟩, hfresh'⟩
    · change n.profile ∈ (t.insert n).profiles
      rw [insert_profiles hnew]
      exact List.mem_append_right _ List.mem_cons_self
    · change n.id ∉ linksOf (t.insert n).profiles
      rw [insert_profiles hnew]
      -- Whatever linked to the new root would have used an identifier before it was drawn.
      intro hmem
      obtain ⟨b, hb, hc⟩ := List.mem_flatMap.mp hmem
      rcases List.mem_append.mp hb with hb | hb
      · have huuid : n.id.uuid = supply.draw.1 := congrArg NodeId.uuid hid
        exact hfresh.draw_unused hlimit ⟨b, hb, Or.inr (Or.inr ⟨n.id, hc, huuid⟩)⟩
      · obtain rfl := List.mem_singleton.mp hb
        have hnone : n.profile.links = [] := hlinks
        simp [hnone] at hc

/-- A tree without the node of some identifier. -/
def without (t : Tree H) (id : NodeId) : Tree H :=
  { t with nodes := t.nodes.filter (·.id ≠ id) }

theorem Sound.create (h : t.Sound limit supply) (name : String)
    (hkinds : ∀ k, t.registry.create? name = some k → k.LinkFree)
    (hlimit : (t.create? name supply).2.drawn ≤ limit) :
    ((t.create? name supply).1.elim t (·.2)).Sound limit (t.create? name supply).2 := by
  cases hk : t.registry.create? name with
  | none =>
    simp only [create?, hk]
    exact h
  | some k =>
    simp only [create?, hk] at hlimit ⊢
    exact h.addNamed name (hkinds k hk) hlimit

theorem Sound.delete (h : t.Sound limit supply) (id : NodeId)
    (hlimit : (t.delete? id supply).2.drawn ≤ limit) :
    ((t.delete? id supply).1.getD t).Sound limit (t.delete? id supply).2 := by
  unfold delete? at hlimit ⊢
  by_cases hid : t.contains id
  · rw [if_pos hid] at hlimit ⊢
    have hprofiles : (t.without id).profiles = t.profiles.filter (·.id ≠ id) := by
      unfold profiles without
      rw [List.filter_map]
      rfl
    have hpares : Pares t.profiles (t.without id).profiles := hprofiles ▸ pares_filter _ _
    refine ensureRoot_sound (t := t.without id) (hpares.forest h.forest)
      (h.fresh.mono fun _ => hpares.uses) (fun hlive => ?_) hlimit
    -- The root is still there unless it is the node that was deleted.
    refine hpares.rooted h.rooted h.forest.ids ?_
    rw [map_id_profiles]
    exact contains_iff.mp hlive
  · rw [if_neg hid]
    exact h

end Tree

/-! ### Links -/

/-- The links that a node of some type makes of a list. -/
def NodeType.fit (type : NodeType) (cs : List NodeId) : List NodeId :=
  match type.shape with
  | .noChildren => []
  | .oneChild => cs.head?.toList
  | .manyChildren => cs

theorem NodeKind.setLinks_links (k : NodeKind H) (cs : List NodeId) :
    (k.setLinks cs).nodeType = k.nodeType ∧ (k.setLinks cs).links = k.nodeType.fit cs := by
  cases k <;> exact ⟨rfl, rfl⟩

/-- The links of a node fit its type. -/
theorem NodeKind.fit_links (k : NodeKind H) : k.nodeType.fit k.links = k.links := by
  cases k with
  | root c | repeater c => cases c <;> rfl
  | action _ | condition _ | sequence _ | selector _ | parallel _ | randomChoice _ _ => rfl

theorem NodeType.fit_sublist (type : NodeType) (cs : List NodeId) :
    (type.fit cs).Sublist cs := by
  unfold fit
  split
  · exact List.nil_sublist cs
  · cases cs with
    | nil => exact .refl _
    | cons c cs => exact List.singleton_sublist.mpr List.mem_cons_self
  · exact .refl cs

namespace Tree

variable {t t' : Tree H} {limit : Nat} {supply : IdSupply} {id parent child : NodeId}

theorem relink_nodes (t : Tree H) (id : NodeId) (cs : List NodeId) :
    (t.relink id cs).nodes = t.nodes.map fun n =>
      if n.id = id then { n with kind := n.kind.setLinks cs } else n := by
  unfold relink editNode?
  split
  · rfl
  · next hnot =>
    -- There is no node to relink.
    conv_lhs => rw [Option.getD_none, ← List.map_id t.nodes]
    apply List.map_congr_left
    intro n hn
    have hne : n.id ≠ id := fun h => hnot (contains_iff.mpr (h ▸ List.mem_map_of_mem hn))
    simp [hne]

theorem relink_root (t : Tree H) (id : NodeId) (cs : List NodeId) :
    (t.relink id cs).root = t.root := by
  unfold relink editNode?
  split <;> rfl

theorem relink_profiles (t : Tree H) (id : NodeId) (cs : List NodeId) :
    (t.relink id cs).profiles = t.profiles.map fun b =>
      if b.id = id then { b with links := b.type.fit cs } else b := by
  rw [profiles, relink_nodes, profiles, List.map_map, List.map_map]
  apply List.map_congr_left
  intro n _
  have hid : n.profile.id = n.id := rfl
  by_cases h : n.id = id
  · obtain ⟨htype, hlinks⟩ := n.kind.setLinks_links cs
    simp only [Function.comp_apply, hid, if_pos h]
    simp only [Node.profile, Node.nodeType, Node.links, htype, hlinks]
  · simp only [Function.comp_apply, hid, if_neg h]

/-- Links that are only taken away or put in another order. -/
theorem Sound.relink (h : t.Sound limit supply) {p : Node H} (hp : t.node? id = some p)
    {cs : List NodeId} (hcs : cs <+~ p.links) : (t.relink id cs).Sound limit supply := by
  obtain ⟨hmem, rfl⟩ := node?_some hp
  refine h.map (relink_root t _ cs) (relink_nodes t _ cs) fun n hn => ?_
  by_cases hid : n.id = p.id
  · have hsame : n = p :=
      List.inj_on_of_nodup_map h.keyed hn hmem hid
    obtain ⟨htype, hlinks⟩ := n.kind.setLinks_links cs
    rw [if_pos hid]
    refine ⟨rfl, rfl, htype, ?_⟩
    change (n.kind.setLinks cs).links <+~ n.links
    rw [hlinks, hsame]
    exact (NodeType.fit_sublist _ cs).subperm.trans hcs
  · rw [if_neg hid]
    exact ⟨rfl, rfl, rfl, .refl _⟩

theorem Sound.detach (h : t.Sound limit supply) (parent child : NodeId) :
    ((t.detach? parent child).getD t).Sound limit supply := by
  unfold detach?
  split
  · next hchild =>
    obtain ⟨p, hp, -⟩ := Links.exists_node hchild
    rw [children_of_node? hp] at hchild ⊢
    exact h.relink hp List.erase_sublist.subperm
  · exact h

theorem Sound.sortChildren (h : t.Sound limit supply) (parent : NodeId) :
    ((t.sortChildren? parent).getD t).Sound limit supply := by
  unfold sortChildren?
  split
  · exact h
  · next p hp =>
    split
    · exact h.relink hp (Sorting.sortByKey_perm t.abscissa? p.links).subperm
    · exact h

/-! ### New links -/

theorem linksOf_profiles (t : Tree H) : linksOf t.profiles = t.nodes.flatMap (·.links) := by
  rw [linksOf, profiles, List.flatMap_map]
  rfl

theorem linked_profiles : Linked t.profiles parent child ↔
    ∃ n ∈ t.nodes, n.id = parent ∧ child ∈ n.links := by
  constructor
  · rintro ⟨b, hb, hid, hc⟩
    obtain ⟨n, hn, rfl⟩ := List.mem_map.mp hb
    exact ⟨n, hn, hid, hc⟩
  · rintro ⟨n, hn, hid, hc⟩
    exact ⟨n.profile, List.mem_map_of_mem hn, hid, hc⟩

theorem parentOf?_eq_none_iff : t.parentOf? child = none ↔ ∀ n ∈ t.nodes, child ∉ n.links := by
  simp [parentOf?]

theorem parentOf?_eq_none (h : t.parentOf? child = none) : child ∉ linksOf t.profiles := by
  intro hmem
  rw [linksOf_profiles] at hmem
  obtain ⟨n, hn, hc⟩ := List.mem_flatMap.mp hmem
  exact parentOf?_eq_none_iff.mp h n hn hc

/-- The only node that links to a child is its parent. -/
theorem parentOf?_of_only (h : Linked t.profiles parent child)
    (honly : ∀ m ∈ t.nodes, child ∈ m.links → m.id = parent) : t.parentOf? child = some parent := by
  obtain ⟨n, hn, -, hc⟩ := linked_profiles.mp h
  unfold parentOf?
  cases hfind : t.nodes.find? fun n => child ∈ n.links with
  | none =>
    have hnone := List.find?_eq_none.mp hfind n hn
    exact absurd hc (by simpa using hnone)
  | some m =>
    have hm := List.mem_of_find?_eq_some hfind
    have hc' : child ∈ m.links := by simpa using List.find?_some hfind
    exact congrArg some (honly m hm hc')

/-- Where nothing is linked twice, the node that links to a child is its parent. -/
theorem parentOf?_eq_some (hlinks : (linksOf t.profiles).Nodup)
    (h : Linked t.profiles parent child) : t.parentOf? child = some parent := by
  obtain ⟨n, hn, rfl, hc⟩ := linked_profiles.mp h
  refine parentOf?_of_only h fun m hm hc' => ?_
  rw [eq_of_shared_link (t.linksOf_profiles ▸ hlinks) hm hn hc' hc]

/-- The first node is the first in creation order that links to the second. -/
def FirstParent (t : Tree H) (p c : NodeId) : Prop := t.parentOf? c = some p

/-- Climbing from a node meets every node above it by first parents, however many steps are
taken. -/
theorem climbMeets_of_climb (steps : Nat) (h : TransGen t.FirstParent child id) :
    t.climbMeets child steps id := by
  induction steps generalizing id with
  | zero => rfl
  | succ steps ih =>
    unfold climbMeets
    cases h with
    | single hfirst =>
      rw [show t.parentOf? id = some child from hfirst]
      simp
    | @tail p _ hrest hfirst =>
      rw [show t.parentOf? id = some p from hfirst]
      simp [ih hrest]

/-- Where nothing is linked twice, that is every node that leads to it. -/
theorem climbMeets_of_leads (hlinks : (linksOf t.profiles).Nodup) (steps : Nat)
    (h : TransGen (Linked t.profiles) child id) : t.climbMeets child steps id :=
  climbMeets_of_climb steps (TransGen.mono (fun _ _ => parentOf?_eq_some hlinks) child id h)

/-- What a successful attachment has found, and what it does. -/
theorem attach_ok (h : t.attach parent child = .ok t') :
    ∃ p, t.node? parent = some p ∧ parent ≠ child ∧ t.contains child ∧ child ≠ t.root ∧
      t.parentOf? child = none ∧ ¬ t.isAncestor child parent ∧
      (p.kind.shape = .oneChild ∧ t' = t.relink parent [child] ∨
        p.kind.shape = .manyChildren ∧ t' = t.relink parent (p.links ++ [child])) := by
  unfold attach at h
  split at h
  · simp at h
  · next p hp =>
    split at h
    · simp at h
    · next hknown =>
      split at h
      · simp at h
      · next hplaced =>
        rw [not_or, not_not] at hknown
        rw [not_or, not_or] at hplaced
        obtain ⟨hroot, hparent, hancestor⟩ := hplaced
        have hnone : t.parentOf? child = none := by simpa using hparent
        refine ⟨p, hp, hknown.1, hknown.2, hroot, hnone, hancestor, ?_⟩
        split at h
        · simp at h
        · next hshape => exact Or.inl ⟨hshape, (Except.ok.inj h).symm⟩
        · next hshape => exact Or.inr ⟨hshape, (Except.ok.inj h).symm⟩

/-- An attachment is one new link, after a single slot has let go of the child it had. -/
theorem attach_profiles (hids : t.ids.Nodup) (h : t.attach parent child = .ok t') :
    ∃ ps, Pares t.profiles ps ∧ ps.map (·.id) = t.profiles.map (·.id) ∧
      t'.profiles = withLink parent child ps ∧ t'.root = t.root := by
  obtain ⟨p, hp, -, -, -, -, -, hcase⟩ := attach_ok h
  obtain ⟨hmem, rfl⟩ := node?_some hp
  have hsame {b : Profile} (hb : b ∈ t.profiles) (hid : b.id = p.id) : b = p.profile :=
    List.inj_on_of_nodup_map (t.map_id_profiles ▸ hids) hb (List.mem_map_of_mem hmem) hid
  rcases hcase with ⟨hshape, rfl⟩ | ⟨hshape, rfl⟩
  -- A single slot lets go of its child before it takes the new one.
  · let clear (b : Profile) : Profile := if b.id = p.id then { b with links := [] } else b
    have hclear (b : Profile) : (clear b).id = b.id ∧ (clear b).guid = b.guid ∧
        (clear b).type = b.type ∧ (clear b).links <+~ b.links := by
      unfold clear
      split
      · exact ⟨rfl, rfl, rfl, List.nil_subperm⟩
      · exact ⟨rfl, rfl, rfl, .refl _⟩
    have hpares := pares_map (l := t.profiles) (f := id) (g := clear) fun b _ => hclear b
    rw [List.map_id] at hpares
    refine ⟨t.profiles.map clear, hpares, ?_, ?_, relink_root t _ _⟩
    · rw [List.map_map]
      exact List.map_congr_left fun b _ => (hclear b).1
    · rw [relink_profiles, withLink, List.map_map]
      apply List.map_congr_left
      intro b hb
      by_cases hid : b.id = p.id
      · have htype : b.type.shape = .oneChild := by
          rw [hsame hb hid]
          exact hshape
        have hcleared : clear b = { b with links := [] } := if_pos hid
        have hfit : b.type.fit [child] = [child] := by
          simp [NodeType.fit, htype]
        rw [if_pos hid, hfit, Function.comp_apply, hcleared, if_pos hid]
        rfl
      · have hkept : clear b = b := if_neg hid
        rw [if_neg hid, Function.comp_apply, hkept, if_neg hid]
  · refine ⟨t.profiles, .refl _, rfl, ?_, relink_root t _ _⟩
    rw [relink_profiles]
    apply List.map_congr_left
    intro b hb
    by_cases hid : b.id = p.id
    · have htype : b.type.shape = .manyChildren := by
        rw [hsame hb hid]
        exact hshape
      have hlinks : b.links = p.links := by
        rw [hsame hb hid]
        rfl
      have hfit : b.type.fit (p.links ++ [child]) = b.links ++ [child] := by
        simp [NodeType.fit, htype, hlinks]
      rw [if_pos hid, if_pos hid, hfit]
    · rw [if_neg hid, if_neg hid]

theorem Sound.attach (h : t.Sound limit supply) (parent child : NodeId) :
    (((t.attach parent child).toOption).getD t).Sound limit supply := by
  cases hattach : t.attach parent child with
  | error _ => exact h
  | ok t' =>
    obtain ⟨ps, hpares, hids, hprofiles, hroot⟩ := attach_profiles h.keyed hattach
    obtain ⟨p, hp, hne, hlive, hchild, hparent, hancestor, -⟩ := attach_ok hattach
    have hps : Forest ps := hpares.forest h.forest
    have hfree : child ∉ linksOf ps := hpares.free (parentOf?_eq_none hparent)
    -- A way back from the child would have been met by climbing from the parent.
    have hback : ¬ ReflTransGen (Linked ps) child parent := by
      intro hleads
      rcases ReflTransGen.cases_tail hleads with heq | ⟨q, hq, hlink⟩
      · exact hne heq
      · have hleads' := TransGen.tail' hq hlink
        have hleads'' := TransGen.mono (fun _ _ => hpares.linked) child parent hleads'
        exact hancestor (climbMeets_of_leads h.forest.links _ hleads'')
    have hrooted : Rooted t.root ps := by
      refine hpares.rooted h.rooted h.forest.ids ?_
      obtain ⟨r, hr, hid, -⟩ := h.rooted.live
      rw [hids]
      exact List.mem_map.mpr ⟨r, hr, hid⟩
    refine ⟨?_, ?_, h.fresh.mono fun u hu => ?_⟩
    · change Forest t'.profiles
      rw [hprofiles]
      exact hps.link hfree hback
    · change Rooted t'.root t'.profiles
      rw [hprofiles, hroot]
      exact hrooted.link hps.ids hchild
    · change uses t'.profiles u at hu
      rw [hprofiles] at hu
      rcases uses_withLink hu with hu | rfl
      · exact hpares.uses hu
      · exact mem_uses (contains_iff.mp hlive)

end Tree

end BehaviourTree
