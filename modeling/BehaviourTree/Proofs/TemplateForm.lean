import BehaviourTree.Proofs.Structure

/-!
A template is accepted exactly if it describes a forest under at most one root, and what comes of it
is that forest.
-/

namespace BehaviourTree

open Relation

variable {H : Host} {registry : Registry H}

/-! ### Well-formed templates -/

/-- The type of node that an authored kind stands for. A root needs no registry. -/
def NodeTemplate.type? (registry : Registry H) (a : NodeTemplate) : Option NodeType :=
  if a.isRoot then some .root else (registry.create? a.kind).map (·.nodeType)

namespace TreeTemplate

/-- A forest of known kinds under at most one root. -/
structure WellFormed (registry : Registry H) (t : TreeTemplate) : Prop where
  distinct : t.guids.Nodup
  oneRoot : (t.nodes.filter (·.isRoot)).length ≤ 1
  registered : ∀ a ∈ t.nodes, ¬ a.isRoot → (registry.create? a.kind).isSome
  present : ∀ a ∈ t.nodes, ∀ c ∈ a.children, c ∈ t.guids
  rootFree : ∀ r ∈ t.nodes, r.isRoot → ∀ a ∈ t.nodes, r.guid ∉ a.children
  once : (t.nodes.flatMap (·.children)).Nodup
  counts : ∀ a ∈ t.nodes, ∀ type, a.type? registry = some type →
    type.shape.Takes a.children.length
  acyclic : ∀ id, ¬ TransGen t.Lists id id

/-- Without a fault that can be seen on one node, on its links or among all identities: what is left
are loops through several nodes. -/
structure FaultFree (registry : Registry H) (t : TreeTemplate) : Prop where
  distinct : t.guids.Nodup
  oneRoot : (t.nodes.filter (·.isRoot)).length ≤ 1
  registered : ∀ a ∈ t.nodes, ¬ a.isRoot → (registry.create? a.kind).isSome
  present : ∀ a ∈ t.nodes, ∀ c ∈ a.children, c ∈ t.guids
  rootFree : ∀ r ∈ t.nodes, r.isRoot → ∀ a ∈ t.nodes, r.guid ∉ a.children
  notOwn : ∀ a ∈ t.nodes, a.guid ∉ a.children
  once : (t.nodes.flatMap (·.children)).Nodup
  counts : ∀ a ∈ t.nodes, ∀ type, a.type? registry = some type →
    type.shape.Takes a.children.length

/-! ### Nodes -/

theorem type?_eq_some_iff {a : NodeTemplate} {type : NodeType} :
    a.type? registry = some type ↔ ∃ k, kindOf registry a = .ok k ∧ k.nodeType = type := by
  unfold NodeTemplate.type? kindOf
  by_cases hroot : a.isRoot
  · simp [hroot, NodeKind.nodeType]
  · cases hk : registry.create? a.kind with
    | none => simp [hroot]
    | some k => simp [hroot]

theorem type?_isSome_iff {a : NodeTemplate} :
    (a.type? registry).isSome ↔ (¬ a.isRoot → (registry.create? a.kind).isSome) := by
  unfold NodeTemplate.type?
  by_cases hroot : a.isRoot
  · simp [hroot]
  · simp [hroot]

theorem buildNodes_isOk_iff {known placed : List NodeId} {root : Option NodeId}
    {authored : List NodeTemplate} :
    (∃ ns, buildNodes registry known root placed authored = .ok ns) ↔
      (∀ a ∈ authored, ∃ n, buildNode registry known root a = .ok n) ∧
        (authored.flatMap (·.children)).Nodup ∧
        ∀ c ∈ authored.flatMap (·.children), c ∉ placed := by
  constructor
  · rintro ⟨ns, h⟩
    obtain ⟨hbuilt, honce⟩ := buildNodes_ok h
    refine ⟨fun a ha => ?_, honce⟩
    obtain ⟨n, -, hn⟩ := exists_of_mem_right hbuilt.flip ha
    exact ⟨n, hn⟩
  · rintro ⟨hbuilt, honce, hout⟩
    induction authored generalizing placed with
    | nil => exact ⟨[], rfl⟩
    | cons a authored ih =>
      obtain ⟨⟨n, hn⟩, hbuilt⟩ := List.forall_mem_cons.mp hbuilt
      rw [List.flatMap_cons] at honce hout
      obtain ⟨hown, honce, happart⟩ := List.nodup_append.mp honce
      have hplaced : placeChildren placed a.children = .ok (a.children.reverse ++ placed) :=
        placeChildren_ok_iff.mpr ⟨hown, fun c hc => hout c (List.mem_append_left _ hc), rfl⟩
      -- From here on the children of this node are placed as well.
      have hlater : ∀ c ∈ authored.flatMap (·.children), c ∉ a.children.reverse ++ placed := by
        intro c hc hmem
        rcases List.mem_append.mp hmem with hmem | hmem
        · exact happart c (List.mem_reverse.mp hmem) c hc rfl
        · exact hout c (List.mem_append_right _ hc) hmem
      obtain ⟨ns, hns⟩ := ih hbuilt honce hlater
      refine ⟨n :: ns, bind_ok_iff.mpr ⟨n, hn, bind_ok_iff.mpr ⟨_, hplaced, ?_⟩⟩⟩
      exact bind_ok_iff.mpr ⟨ns, hns, rfl⟩

/-! ### Templates -/

section WellFormed

variable {visit : List NodeId → List NodeId} {t : TreeTemplate} {root : Option NodeId}

/-- Where the first two passes go through, there are no faults but loops. -/
theorem faultFree_of_built (hdistinct : t.guids.Nodup) (hroots : t.rootGuids = root.toList)
    {nodes : List (Node H)} (hnodes : buildNodes registry t.guids root [] t.nodes = .ok nodes) :
    t.FaultFree registry := by
  obtain ⟨hbuilt, honce, -⟩ := buildNodes_isOk_iff.mp ⟨nodes, hnodes⟩
  have hnode : ∀ a ∈ t.nodes, ∃ k, kindOf registry a = .ok k ∧
      k.nodeType.shape.Takes a.children.length ∧
      ∀ c ∈ a.children, c ∈ t.guids ∧ some c ≠ root ∧ c ≠ a.guid := by
    intro a ha
    obtain ⟨n, hn⟩ := hbuilt a ha
    obtain ⟨k, hkind, hcount, hlinks, -⟩ := buildNode_ok_iff.mp hn
    exact ⟨k, hkind, hcount, hlinks⟩
  refine ⟨hdistinct, ?_, ?_, ?_, ?_, ?_, honce, ?_⟩
  -- There is no other root than the one that was found, and no node has it for a child.
  · have hlength : t.rootGuids.length = root.toList.length := congrArg List.length hroots
    have hle : root.toList.length ≤ 1 := by cases root <;> simp
    rw [rootGuids, List.length_map] at hlength
    omega
  · intro a ha
    obtain ⟨k, hkind, -⟩ := hnode a ha
    have htype := type?_eq_some_iff.mpr ⟨k, hkind, rfl⟩
    exact type?_isSome_iff.mp (Option.isSome_of_eq_some htype)
  · intro a ha c hc
    obtain ⟨k, -, -, hlinks⟩ := hnode a ha
    exact (hlinks c hc).1
  · intro r hr hisRoot a ha hmem
    obtain ⟨k, -, -, hlinks⟩ := hnode a ha
    have hfound : r.guid ∈ root.toList := hroots ▸ mem_rootGuids.mpr ⟨r, hr, hisRoot, rfl⟩
    exact (hlinks r.guid hmem).2.1 (Option.mem_toList.mp hfound).symm
  · intro a ha hmem
    obtain ⟨k, -, -, hlinks⟩ := hnode a ha
    exact (hlinks a.guid hmem).2.2 rfl
  · intro a ha type htype
    obtain ⟨k, hkind, hcount, -⟩ := hnode a ha
    obtain ⟨k', hkind', rfl⟩ := type?_eq_some_iff.mp htype
    obtain rfl := Except.ok.inj (hkind.symm.trans hkind')
    exact hcount

theorem wellFormed_of_check (hvisit : ∀ ids, (visit ids).Perm ids) {nodes : List (Node H)}
    (h : t.check visit registry = .ok (nodes, root)) : t.WellFormed registry := by
  obtain ⟨hdistinct, hroots, hnodes, hacyclic⟩ := (check_ok_iff hvisit).mp h
  obtain ⟨-, honeRoot, hregistered, hpresent, hrootFree, -, honce, hcounts⟩ :=
    faultFree_of_built hdistinct hroots hnodes
  exact ⟨hdistinct, honeRoot, hregistered, hpresent, hrootFree, honce, hcounts, hacyclic⟩

theorem WellFormed.rootGuids_eq (h : t.WellFormed registry) :
    t.rootGuids = t.rootGuids.head?.toList := by
  have hle : t.rootGuids.length ≤ 1 := by
    rw [rootGuids, List.length_map]
    exact h.oneRoot
  cases hroots : t.rootGuids with
  | nil => rfl
  | cons r later =>
    rw [hroots, List.length_cons] at hle
    obtain rfl : later = [] := List.eq_nil_of_length_eq_zero (by omega)
    rfl

theorem WellFormed.buildNode_isOk (h : t.WellFormed registry) (hroots : t.rootGuids = root.toList)
    {a : NodeTemplate} (ha : a ∈ t.nodes) : ∃ n, buildNode registry t.guids root a = .ok n := by
  obtain ⟨type, htype⟩ := Option.isSome_iff_exists.mp (type?_isSome_iff.mpr (h.registered a ha))
  obtain ⟨k, hkind, rfl⟩ := type?_eq_some_iff.mp htype
  refine ⟨_, buildNode_ok_iff.mpr ⟨k, hkind, h.counts a ha _ htype, fun c hc => ?_, rfl⟩⟩
  refine ⟨h.present a ha c hc, ?_, ?_⟩
  · intro hroot
    have hmem : c ∈ t.rootGuids := by
      rw [hroots, ← hroot]
      exact List.mem_singleton_self c
    obtain ⟨r, hr, hisRoot, rfl⟩ := mem_rootGuids.mp hmem
    exact h.rootFree r hr hisRoot a ha hc
  -- A node that lists itself would be a loop of its own.
  · rintro rfl
    exact h.acyclic a.guid (.single ⟨a, ha, rfl, hc⟩)

/-- A template passes exactly if it is well-formed. -/
theorem check_isOk_iff (hvisit : ∀ ids, (visit ids).Perm ids) (t : TreeTemplate) :
    (∃ r, t.check visit registry = .ok r) ↔ t.WellFormed registry := by
  constructor
  · rintro ⟨⟨nodes, root⟩, h⟩
    exact wellFormed_of_check hvisit h
  · intro h
    have hroots := h.rootGuids_eq
    obtain ⟨nodes, hnodes⟩ := buildNodes_isOk_iff.mpr
      ⟨fun _ ha => h.buildNode_isOk hroots ha, h.once, fun _ _ => List.not_mem_nil⟩
    exact ⟨(nodes, t.rootGuids.head?),
      (check_ok_iff hvisit).mpr ⟨h.distinct, hroots, hnodes, h.acyclic⟩⟩

end WellFormed

/-! ### What comes of a template -/

/-- A node is what an author has described, on the given blackboard. -/
def Describes (registry : Registry H) (board : BlackboardId) (a : NodeTemplate) (n : Node H) :
    Prop :=
  ∃ k, kindOf registry a = .ok k ∧ k.nodeType.shape.Takes a.children.length ∧
    n = { nodeOf a k with blackboard := some board }

/-- A root without children. -/
def bareRoot (id : NodeId) (board : BlackboardId) : Node H :=
  { Node.make id NodeType.root.name (.root none) with blackboard := some board }

/-- A tree has the nodes that a template lists, in their order, and behind them those that were
added: none if the template names a root, and otherwise a root without children. -/
structure Builds (registry : Registry H) (a : TreeTemplate) (board : BlackboardId)
    (added : List (Node H)) (t : Tree H) : Prop where
  nodes : ∃ listed, t.nodes = listed ++ added ∧
    List.Forall₂ (Describes registry board) a.nodes listed
  root : a.rootGuids = [t.root] ∧ added = [] ∨
    a.rootGuids = [] ∧ t.root ∉ a.guids ∧ added = [bareRoot t.root board]
  rest : t = ⟨t.root, t.nodes, .empty board, none, registry, 0, Tree.choiceRng 0 none, .running, []⟩

end TreeTemplate

namespace Tree

theorem ofNodes_named {nodes : List (Node H)} {root : NodeId} (hroot : root ∈ nodes.map (·.id))
    (supply : IdSupply) : (ofNodes registry nodes (some root) supply).1 =
      planted registry nodes ⟨supply.draw.1⟩ root := by
  have hlive : (planted registry nodes ⟨supply.draw.1⟩ root).contains root :=
    planted_contains_iff.mpr hroot
  exact congrArg Prod.fst (ensureRoot_of_live hlive supply.draw.2)

/-- Nodes without a root get one behind them. -/
theorem ofNodes_rootless {nodes : List (Node H)} {supply : IdSupply} {limit : Nat}
    (hfresh : supply.Fresh limit fun u => ∃ n ∈ nodes, n.id.uuid = u)
    (hlimit : (ofNodes registry nodes none supply).2.drawn ≤ limit) :
    ∃ id, id ∉ nodes.map (·.id) ∧ (ofNodes registry nodes none supply).1 =
      { planted registry nodes ⟨supply.draw.1⟩ id with
        nodes := (planted registry nodes ⟨supply.draw.1⟩ id).nodes ++
          [TreeTemplate.bareRoot id ⟨supply.draw.1⟩] } := by
  have hunused {s : IdSupply} (hs : s.Fresh limit fun u => ∃ n ∈ nodes, n.id.uuid = u)
      (hs' : s.draw.2.drawn ≤ limit) : (⟨s.draw.1⟩ : NodeId) ∉ nodes.map (·.id) := by
    intro hmem
    obtain ⟨n, hn, hid⟩ := List.mem_map.mp hmem
    exact hs.draw_unused hs' ⟨n, hn, congrArg NodeId.uuid hid⟩
  let first := supply.draw.2
  let second := first.draw.2
  let start := planted registry nodes ⟨supply.draw.1⟩ ⟨first.draw.1⟩
  have hrun : ofNodes registry nodes none supply = start.ensureRoot second := rfl
  -- Neither the root that is named first nor the one that takes its place is a node yet.
  have hfirst : (⟨first.draw.1⟩ : NodeId) ∉ nodes.map (·.id) :=
    hunused (hfresh.later supply.precedes_draw)
      ((start.ensureRoot_precedes second).within (hrun ▸ hlimit))
  have hgone : ¬ start.contains start.root := mt planted_contains_iff.mp hfirst
  rw [hrun, ensureRoot_of_gone hgone] at hlimit ⊢
  have hsecond : (⟨second.draw.1⟩ : NodeId) ∉ nodes.map (·.id) :=
    hunused (hfresh.later (supply.precedes_draw.trans first.precedes_draw)) hlimit
  have hnew : (start.spareRoot ⟨second.draw.1⟩).id ∉ start.ids := fun hmem =>
    hsecond (planted_contains_iff.mp (contains_iff.mpr hmem))
  refine ⟨⟨second.draw.1⟩, hsecond, ?_⟩
  rw [insert_of_new hnew]
  rfl

theorem ofTemplateVia_isOk_iff {visit : List NodeId → List NodeId} {a : TreeTemplate}
    {supply : IdSupply} : (∃ t, (ofTemplateVia visit registry a supply).1 = .ok t) ↔
      ∃ r, a.check visit registry = .ok r := by
  unfold ofTemplateVia
  cases a.check visit registry with
  | error e =>
    constructor
    · rintro ⟨t, ht⟩
      cases ht
    · rintro ⟨r, hr⟩
      cases hr
  | ok r => exact ⟨fun _ => ⟨r, rfl⟩, fun _ => ⟨_, rfl⟩⟩

/-- Only a root that is made for lack of one has to be fresh. -/
theorem ofTemplateVia_builds {visit : List NodeId → List NodeId}
    (hvisit : ∀ ids, (visit ids).Perm ids) {a : TreeTemplate} {supply supply' : IdSupply}
    {limit : Nat}
    (hfresh : a.rootGuids = [] → supply.Fresh limit fun u => ∃ guid ∈ a.guids, guid.uuid = u)
    {t : Tree H} (h : ofTemplateVia visit registry a supply = (.ok t, supply'))
    (hlimit : a.rootGuids = [] → supply'.drawn ≤ limit) :
    ∃ board added, a.Builds registry board added t := by
  obtain ⟨nodes, root, hcheck, hbuilt⟩ := ofTemplateVia_ok h
  obtain ⟨-, hroots, hnodes, -⟩ := (TreeTemplate.check_ok_iff hvisit).mp hcheck
  obtain ⟨hlisted, -, -⟩ := TreeTemplate.buildNodes_ok hnodes
  have hids : nodes.map (·.id) = a.guids :=
    map_eq_of_forall₂ hlisted fun _ _ hn => (TreeTemplate.buildNode_idle hn).1
  let board : BlackboardId := ⟨supply.draw.1⟩
  have hdescribed (id : NodeId) : List.Forall₂ (TreeTemplate.Describes registry board) a.nodes
      (planted registry nodes board id).nodes := by
    refine List.forall₂_map_right_iff.mpr (hlisted.imp fun b n hn => ?_)
    obtain ⟨k, hkind, hcount, -, rfl⟩ := TreeTemplate.buildNode_ok_iff.mp hn
    exact ⟨k, hkind, hcount, rfl⟩
  have htree : t = (ofNodes registry nodes root supply).1 := by rw [hbuilt]
  cases root with
  | some r =>
    have hmem : r ∈ a.rootGuids := hroots ▸ List.mem_singleton_self r
    obtain ⟨b, hb, -, hguid⟩ := TreeTemplate.mem_rootGuids.mp hmem
    have hr : r ∈ nodes.map (·.id) := by
      rw [hids, ← hguid]
      exact List.mem_map_of_mem hb
    rw [ofNodes_named hr] at htree
    obtain rfl := htree
    exact ⟨board, [], ⟨_, (List.append_nil _).symm, hdescribed r⟩, Or.inl ⟨hroots, rfl⟩, rfl⟩
  | none =>
    have hfresh' : supply.Fresh limit fun u => ∃ n ∈ nodes, n.id.uuid = u := by
      refine (hfresh hroots).mono fun u hu => ?_
      obtain ⟨n, hn, rfl⟩ := hu
      exact ⟨n.id, hids ▸ List.mem_map_of_mem hn, rfl⟩
    have hdrawn : (ofNodes registry nodes none supply).2.drawn ≤ limit := by
      rw [hbuilt]
      exact hlimit hroots
    obtain ⟨id, hnew, hrun⟩ := ofNodes_rootless hfresh' hdrawn
    rw [hrun] at htree
    obtain rfl := htree
    exact ⟨board, _, ⟨_, rfl, hdescribed id⟩, Or.inr ⟨hroots, hids ▸ hnew, rfl⟩, rfl⟩

end Tree

/-- A node gets the identity that is authored, and with a prototype without links just the children
that are. -/
theorem TreeTemplate.Describes.links (hkinds : registry.LinkFree) {board : BlackboardId}
    {a : NodeTemplate} {n : Node H} (h : Describes registry board a n) : n.links = a.children := by
  obtain ⟨k, hkind, hcount, rfl⟩ := h
  exact (linkKind_links (kindOf_linkFree hkinds hkind).1 hcount).2

theorem TreeTemplate.Describes.id {board : BlackboardId} {a : NodeTemplate} {n : Node H}
    (h : Describes registry board a n) : n.id = a.guid := by
  obtain ⟨k, -, -, rfl⟩ := h
  rfl

/-- A tree is what a template describes: the listed nodes in their order with the listed children,
under the root that is listed or, behind all of them, under a new one without children. -/
structure TreeTemplate.Becomes (a : TreeTemplate) (t : Tree H) : Prop where
  nodes : (t.nodes.map fun n => (n.id, n.links)) = (a.nodes.map fun x => (x.guid, x.children)) ++
    if a.nodes.any (·.isRoot) then [] else [(t.root, [])]
  root : ∃ n, t.node? t.root = some n ∧ n.nodeType = .root
  named : ∀ r ∈ a.nodes, r.isRoot → t.root = r.guid
  fresh : (∀ r ∈ a.nodes, ¬ r.isRoot) → t.root ∉ a.guids

theorem TreeTemplate.Describes.type_root (hkinds : registry.LinkFree) {board : BlackboardId}
    {a : NodeTemplate} {n : Node H} (h : Describes registry board a n) (hroot : a.isRoot) :
    n.nodeType = .root := by
  obtain ⟨k, hkind, hcount, rfl⟩ := h
  obtain ⟨hfree, htype⟩ := kindOf_linkFree hkinds hkind
  exact (linkKind_links hfree hcount).1.trans (htype hroot)

/-- The root is a node of its type: the listed one if there is one, and otherwise the added one. -/
theorem TreeTemplate.Builds.rootLive (hkinds : registry.LinkFree) {a : TreeTemplate}
    {board : BlackboardId} {added : List (Node H)} {t : Tree H}
    (h : a.Builds registry board added t) (hdistinct : a.guids.Nodup) :
    ∃ n, t.node? t.root = some n ∧ n.nodeType = .root := by
  obtain ⟨listed, hnodes, hlisted⟩ := h.nodes
  have hids : t.ids = a.guids ++ added.map (·.id) := by
    rw [Tree.ids, hnodes, List.map_append, map_eq_of_forall₂ hlisted fun _ _ hn => hn.id]
    rfl
  rcases h.root with ⟨hroots, rfl⟩ | ⟨-, hnew, rfl⟩
  · have hmem : t.root ∈ a.rootGuids := hroots ▸ List.mem_singleton_self _
    obtain ⟨r, hr, hisRoot, hguid⟩ := mem_rootGuids.mp hmem
    obtain ⟨n, hn, hread⟩ := exists_of_mem_right hlisted.flip hr
    have hdescribes : Describes registry board r n := hread
    have hid : n.id = t.root := hdescribes.id.trans hguid
    have hlive : n ∈ t.nodes := hnodes ▸ List.mem_append_left _ hn
    rw [List.map_nil, List.append_nil] at hids
    exact ⟨n, hid ▸ Tree.node?_of_mem (hids ▸ hdistinct) hlive, hdescribes.type_root hkinds hisRoot⟩
  · have hlive : bareRoot t.root board ∈ t.nodes :=
      hnodes ▸ List.mem_append_right _ List.mem_cons_self
    have hnodup : t.ids.Nodup := by
      rw [hids, List.nodup_append]
      refine ⟨hdistinct, List.nodup_singleton _, ?_⟩
      rintro id hguid _ hid rfl
      have hroot : id = t.root := List.mem_singleton.mp hid
      exact hnew (hroot ▸ hguid)
    exact ⟨_, Tree.node?_of_mem hnodup hlive, rfl⟩

theorem TreeTemplate.Builds.becomes (hkinds : registry.LinkFree) {a : TreeTemplate}
    {board : BlackboardId} {added : List (Node H)} {t : Tree H}
    (h : a.Builds registry board added t) (hdistinct : a.guids.Nodup) : a.Becomes t := by
  have hroot := h.rootLive hkinds hdistinct
  obtain ⟨listed, hnodes, hlisted⟩ := h.nodes
  have hsame : listed.map (fun n => (n.id, n.links)) = a.nodes.map fun x => (x.guid, x.children) :=
    map_eq_of_forall₂ hlisted fun _ _ hn => Prod.ext hn.id (hn.links hkinds)
  rcases h.root with ⟨hroots, rfl⟩ | ⟨hroots, hnew, rfl⟩
  · have hmem : t.root ∈ a.rootGuids := hroots ▸ List.mem_singleton_self _
    obtain ⟨r, hr, hisRoot, hguid⟩ := mem_rootGuids.mp hmem
    refine ⟨?_, hroot, ?_, fun hnone => absurd hisRoot (hnone r hr)⟩
    · rw [if_pos (List.any_eq_true.mpr ⟨r, hr, hisRoot⟩), hnodes, List.append_nil, List.append_nil,
        hsame]
    · intro r' hr' hisRoot'
      have hmem' : r'.guid ∈ a.rootGuids := mem_rootGuids.mpr ⟨r', hr', hisRoot', rfl⟩
      rw [hroots] at hmem'
      exact (List.mem_singleton.mp hmem').symm
  · have hnone : ∀ r ∈ a.nodes, ¬ r.isRoot := by
      intro r hr hisRoot
      have hmem : r.guid ∈ a.rootGuids := mem_rootGuids.mpr ⟨r, hr, hisRoot, rfl⟩
      simp [hroots] at hmem
    refine ⟨?_, hroot, fun r hr hisRoot => absurd hisRoot (hnone r hr), fun _ => hnew⟩
    have hany : ¬ a.nodes.any (·.isRoot) := by
      rw [List.any_eq_true]
      rintro ⟨r, hr, hisRoot⟩
      exact hnone r hr hisRoot
    rw [if_neg hany, hnodes, List.map_append, hsame]
    rfl

/-- The nodes that a well-formed template becomes can be told apart, and below the root they are a
tree. -/
theorem TreeTemplate.Becomes.linksFormTree {a : TreeTemplate} {t : Tree H} (h : a.Becomes t)
    (hwell : a.WellFormed registry) : t.ids.Nodup ∧ t.LinksFormTree := by
  let added : List (NodeId × List NodeId) :=
    if a.nodes.any (·.isRoot) then [] else [(t.root, [])]
  have hnodes : (t.nodes.map fun n => (n.id, n.links)) =
      (a.nodes.map fun x => (x.guid, x.children)) ++ added := h.nodes
  have hids : t.ids = a.guids ++ added.map Prod.fst := by
    have hfirst := congrArg (List.map Prod.fst) hnodes
    rwa [List.map_append, List.map_map, List.map_map] at hfirst
  have hlinks : t.nodes.flatMap (·.links) = a.nodes.flatMap (·.children) := by
    have hsecond := congrArg (List.flatMap Prod.snd) hnodes
    rw [List.flatMap_append, List.flatMap_map, List.flatMap_map] at hsecond
    have hnone : added.flatMap Prod.snd = [] := by
      unfold added
      split <;> rfl
    rwa [hnone, List.append_nil] at hsecond
  have hlisted {p c : NodeId} (hlink : t.Links p c) : a.Lists p c := by
    obtain ⟨n, hn, hc⟩ := hlink.exists_node
    obtain ⟨hmem, rfl⟩ := Tree.node?_some hn
    have hpair : (n.id, n.links) ∈ (a.nodes.map fun x => (x.guid, x.children)) ++ added :=
      hnodes ▸ List.mem_map_of_mem hmem
    rcases List.mem_append.mp hpair with hpair | hpair
    · obtain ⟨x, hx, heq⟩ := List.mem_map.mp hpair
      obtain ⟨hguid, hchildren⟩ := Prod.mk.inj heq
      exact ⟨x, hx, hguid, hchildren ▸ hc⟩
    -- A root that was added has no links.
    · have hnone : n.links = [] := by
        unfold added at hpair
        split at hpair
        · cases hpair
        · exact (Prod.mk.inj (List.mem_singleton.mp hpair)).2
      rw [hnone] at hc
      cases hc
  constructor
  · rw [hids, List.nodup_append]
    refine ⟨hwell.distinct, ?_, fun id hid id' hadded => ?_⟩
    · unfold added
      split <;> simp
    · unfold added at hadded
      split at hadded
      · cases hadded
      · next hrootless =>
        obtain rfl : id' = t.root := List.mem_singleton.mp hadded
        have hnew := h.fresh fun r hr hroot => hrootless (List.any_eq_true.mpr ⟨r, hr, hroot⟩)
        exact fun heq => hnew (heq ▸ hid)
  · obtain ⟨r, hr, -⟩ := h.root
    refine .of_forest (Option.isSome_of_eq_some hr) (hlinks ▸ hwell.once) (fun n hn c hc => ?_)
      fun id hcycle => hwell.acyclic id (TransGen.mono (fun _ _ => hlisted) id id hcycle)
    have hmem : c ∈ a.nodes.flatMap (·.children) := hlinks ▸ List.mem_flatMap.mpr ⟨n, hn, hc⟩
    obtain ⟨x, hx, hcx⟩ := List.mem_flatMap.mp hmem
    rw [Tree.contains_iff, hids]
    exact List.mem_append_left _ (hwell.present x hx c hcx)

/-- Whatever order children are searched for loops in, exactly the well-formed templates are
accepted. With a registry of kinds without links an accepted template becomes the tree that it
describes, if a root that has to be made for it gets a fresh identifier. -/
theorem ofTemplate_accepts_iff (hkinds : registry.LinkFree) {visit : List NodeId → List NodeId}
    (hvisit : ∀ ids, (visit ids).Perm ids) (a : TreeTemplate) (supply : IdSupply) :
    ((∃ t, (Tree.ofTemplateVia visit registry a supply).1 = .ok t) ↔ a.WellFormed registry) ∧
      ∀ t limit, (Tree.ofTemplateVia visit registry a supply).1 = .ok t →
        (a.rootGuids = [] → supply.Fresh limit fun u => ∃ guid ∈ a.guids, guid.uuid = u) →
        (a.rootGuids = [] → (Tree.ofTemplateVia visit registry a supply).2.drawn ≤ limit) →
          a.Becomes t := by
  have haccepts : (∃ t, (Tree.ofTemplateVia visit registry a supply).1 = .ok t) ↔
      a.WellFormed registry :=
    Tree.ofTemplateVia_isOk_iff.trans (TreeTemplate.check_isOk_iff hvisit a)
  refine ⟨haccepts, fun t limit ht hfresh hlimit => ?_⟩
  have hrun : Tree.ofTemplateVia visit registry a supply =
      (.ok t, (Tree.ofTemplateVia visit registry a supply).2) := Prod.ext ht rfl
  obtain ⟨board, added, hbuilds⟩ := Tree.ofTemplateVia_builds hvisit hfresh hrun hlimit
  exact hbuilds.becomes hkinds (haccepts.mp ⟨t, ht⟩).distinct

/-- A sequence of two composites, which the author has put in another order than they are listed in.
There is no root above it. -/
def Demo.sketch : TreeTemplate where
  nodes := [⟨.ofNat 2, "Sequence", some "patrol", false, .zero, [.ofNat 4, .ofNat 3]⟩,
    ⟨.ofNat 3, "Selector", none, true, .zero, []⟩, ⟨.ofNat 4, "Parallel", none, false, .zero, []⟩]

/-- A tree of the sketch, with the children searched for loops from the last to the first. -/
def Demo.sketched : Except TreeError (Tree Demo.smallHost) × IdSupply :=
  Tree.ofTemplateVia List.reverse .builtin Demo.sketch (Demo.counted.skip 10)

theorem ofTemplate_accepts_iff_sketch :
    Demo.sketch.WellFormed (Registry.builtin : Registry Demo.smallHost) ∧
      ∃ t, Demo.sketched.1 = .ok t ∧ Demo.sketch.Becomes t := by
  have hfresh : (Demo.counted.skip 10).Fresh (2^128)
      fun u => ∃ guid ∈ Demo.sketch.guids, guid.uuid = u := by
    apply Demo.counted_unused
    rintro u ⟨guid, hguid, rfl⟩
    simp only [Demo.sketch, TreeTemplate.guids, List.map_cons, List.map_nil, List.mem_cons,
      List.not_mem_nil, or_false] at hguid
    rcases hguid with rfl | rfl | rfl
    · exact ⟨2, by decide, rfl⟩
    · exact ⟨3, by decide, rfl⟩
    · exact ⟨4, by decide, rfl⟩
  have hlimit : Demo.sketched.2.drawn ≤ 2^128 := by decide +kernel
  obtain ⟨haccepts, hbecomes⟩ := ofTemplate_accepts_iff (H := Demo.smallHost)
    Registry.builtin_linkFree List.reverse_perm Demo.sketch (Demo.counted.skip 10)
  have hok : Demo.sketched.1.toBool = true := by decide +kernel
  cases hbuilt : Demo.sketched.1 with
  | error e => simp [hbuilt, Except.toBool] at hok
  | ok t =>
    have hwellFormed := haccepts.mp ⟨t, hbuilt⟩
    exact ⟨hwellFormed, t, rfl, hbecomes t _ hbuilt (fun _ => hfresh) fun _ => hlimit⟩

end BehaviourTree
