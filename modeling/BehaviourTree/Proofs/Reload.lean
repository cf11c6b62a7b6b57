import BehaviourTree.Proofs.Origins

/-!
What has been written is read back: the template of a tree that was made by name is well-formed, and
the tree that comes of it has the same nodes under the same root, with all links that led somewhere.
-/

namespace BehaviourTree

open Relation

variable {H : Host} {registry : Registry H}

/-! ### Prototypes -/

theorem NodeType.eq_root_of_name {type : NodeType} (h : type.name = NodeType.root.name) :
    type = .root := by
  cases type with
  | root => rfl
  | _ => exact absurd h (by decide)

namespace Registry

/-- A registry that leaves roots to the trees and links to the authors. -/
structure Tidy (r : Registry H) : Prop where
  linkFree : r.LinkFree
  rootless : ∀ name k, r.create? name = some k → k.nodeType ≠ .root
  unbound : r.create? NodeType.root.name = none

/-- The prototype under a name. That of a root is built in. -/
def prototype? (r : Registry H) (typeName : String) : Option (NodeKind H) :=
  if typeName = NodeType.root.name then some (.root none) else r.create? typeName

variable {r : Registry H} {typeName : String} {k : NodeKind H}

theorem builtin_tidy : (builtin : Registry H).Tidy := by
  have hrootless : ∀ name k, (builtin : Registry H).create? name = some k →
      k.nodeType ≠ .root := by
    have htypes : ∀ type ∈ [NodeType.sequence, .selector, .parallel, .randomChoice, .repeater],
        type ≠ .root := by decide
    exact fun _ _ hk =>
      htypes _ (List.mem_map_of_mem (f := NodeKind.nodeType) (create?_builtin hk).1)
  refine ⟨builtin_linkFree, hrootless, ?_⟩
  apply Option.eq_none_iff_forall_ne_some.mpr
  intro k hk
  -- A built-in kind has the name of its type, and the type is another.
  exact hrootless _ k hk (NodeType.eq_root_of_name (create?_builtin hk).2)

theorem Tidy.register (h : r.Tidy) {name : String} {kind : NodeKind H}
    (hname : name ≠ NodeType.root.name) (hfree : kind.LinkFree) (htype : kind.nodeType ≠ .root) :
    (r.register name kind).Tidy := by
  refine ⟨fun other k hk => ?_, fun other k hk => ?_, ?_⟩
  · rcases create?_register hk with ⟨-, rfl⟩ | hbefore
    · exact hfree
    · exact h.linkFree other k hbefore
  · rcases create?_register hk with ⟨-, rfl⟩ | hbefore
    · exact htype
    · exact h.rootless other k hbefore
  · apply Option.eq_none_iff_forall_ne_some.mpr
    intro k hk
    rcases create?_register hk with ⟨heq, -⟩ | hbefore
    · exact hname heq
    · simp [h.unbound] at hbefore

theorem Tidy.registerAll {Leaf : Type} {kind : Leaf → NodeKind H} {leaves : List (String × Leaf)}
    (h : r.Tidy) (hleaves : ∀ l ∈ leaves, l.1 ≠ NodeType.root.name ∧ (kind l.2).LinkFree ∧
      (kind l.2).nodeType ≠ .root) :
    (leaves.foldl (fun r l => r.register l.1 (kind l.2)) r).Tidy := by
  induction leaves generalizing r with
  | nil => exact h
  | cons l leaves ih =>
    obtain ⟨⟨hname, hfree, htype⟩, hleaves⟩ := List.forall_mem_cons.mp hleaves
    exact ih (h.register hname hfree htype) hleaves

theorem Tidy.prototype?_of_create? (h : r.Tidy) (hk : r.create? typeName = some k) :
    r.prototype? typeName = some k := by
  have hname : typeName ≠ NodeType.root.name := by
    rintro rfl
    simp [h.unbound] at hk
  rw [prototype?, if_neg hname, hk]

/-- Only the trees make roots. -/
def Rootless (r : Registry H) : Prop :=
  ∀ name k, r.create? name = some k → k.nodeType ≠ .root

/-- Only roots are made under the name of the root type, and under no other. -/
theorem Rootless.type_root_iff (h : r.Rootless) (hk : r.prototype? typeName = some k) :
    k.nodeType = .root ↔ typeName = NodeType.root.name := by
  unfold prototype? at hk
  split at hk
  · next hname =>
    obtain rfl := Option.some.inj hk
    exact ⟨fun _ => hname, fun _ => rfl⟩
  · next hname => exact ⟨fun htype => absurd htype (h typeName k hk), (absurd · hname)⟩

end Registry

/-- The ready-made leaves leave roots and links alone as well. -/
theorem Demo.registry_tidy {ι : Type} [DecidableEq ι] {V : ι → Type} (flag : FlagType V)
    (team : TeamId) : (Demo.registry flag team).Tidy := by
  have hnames : ∀ name ∈ ["Succeed", "Fail", "Wait", "Report"], name ≠ NodeType.root.name := by
    decide
  have hactions : ∀ a ∈ actions team, a.1 ≠ NodeType.root.name := fun a ha =>
    hnames a.1 (List.mem_map_of_mem (f := Prod.fst) ha)
  have hconditions : ∀ c ∈ conditions, c.1 ≠ NodeType.root.name := by decide
  refine (Registry.builtin_tidy.registerAll fun a ha => ?_).registerAll fun c hc => ?_
  · exact ⟨hactions a ha, rfl, nofun⟩
  · exact ⟨hconditions c hc, rfl, nofun⟩

theorem NodeTemplate.isRoot_iff {a : NodeTemplate} : a.isRoot ↔ a.kind = NodeType.root.name := by
  simp [isRoot]

theorem TreeTemplate.kindOf_ok_iff {a : NodeTemplate} {k : NodeKind H} :
    kindOf registry a = .ok k ↔ registry.prototype? a.kind = some k := by
  unfold kindOf Registry.prototype?
  by_cases hroot : a.kind = NodeType.root.name
  · rw [if_pos (NodeTemplate.isRoot_iff.mpr hroot), if_pos hroot]
    simp
  · rw [if_neg fun h => hroot (NodeTemplate.isRoot_iff.mp h), if_neg hroot]
    cases registry.create? a.kind with
    | none => simp
    | some k => simp

/-! ### Nodes made by name -/

/-- The operations that make nodes by name alone. -/
def Operation.ByName : Operation H → Prop
  | .add _ => False
  | _ => True

theorem Operation.ByName.linkFree {op : Operation H} (h : op.ByName) : op.LinkFree := by
  cases op with
  | add _ => exact h.elim
  | _ => exact trivial

/-- A node of the type that is made under its type name; only the root of its tree is a root. -/
structure Node.MadeByName (registry : Registry H) (root : NodeId) (n : Node H) : Prop where
  prototype : ∃ k, registry.prototype? n.typeName = some k ∧ k.nodeType = n.nodeType
  root : n.nodeType = .root → n.id = root

theorem Node.MadeByName.type_root_iff (hkinds : registry.Tidy) {root : NodeId} {n : Node H}
    (h : n.MadeByName registry root) : n.nodeType = .root ↔ n.typeName = NodeType.root.name := by
  obtain ⟨k, hk, htype⟩ := h.prototype
  rw [← htype]
  exact Registry.Rootless.type_root_iff hkinds.rootless hk

namespace TreeTemplate

/-- Whatever an author lists, a node is made of its prototype by setting links. -/
theorem linkKind_setLinks (a : NodeTemplate) (k : NodeKind H) :
    ∃ cs, linkKind a k = k.setLinks cs := by
  unfold linkKind
  split
  · exact ⟨k.links, k.setLinks_self.symm⟩
  · exact ⟨_, rfl⟩
  · exact ⟨_, rfl⟩

theorem linkKind_type (a : NodeTemplate) (k : NodeKind H) :
    (linkKind a k).nodeType = k.nodeType := by
  obtain ⟨cs, hlink⟩ := linkKind_setLinks a k
  rw [hlink]
  exact (k.setLinks_links cs).1

theorem Describes.guid {board : BlackboardId} {a : NodeTemplate} {n : Node H}
    (h : Describes registry board a n) : n.guid = a.guid := by
  obtain ⟨k, -, -, rfl⟩ := h
  rfl

end TreeTemplate

theorem madeByName_hereditary (hkinds : registry.Tidy) :
    Hereditary registry Operation.ByName (Node.MadeByName registry) where
  root := by
    intro n htypeName hkind
    have htype : n.nodeType = .root := by rw [Node.nodeType, hkind]; rfl
    exact ⟨⟨.root none, by rw [htypeName]; rfl, htype.symm⟩, fun _ => rfl⟩
  described := by
    rintro root board a n ⟨k, hk, -, rfl⟩ hroot
    have hproto := TreeTemplate.kindOf_ok_iff.mp hk
    have htype : (TreeTemplate.linkKind a k).nodeType = k.nodeType := TreeTemplate.linkKind_type a k
    have hname := Registry.Rootless.type_root_iff hkinds.rootless hproto
    refine ⟨⟨k, hproto, htype.symm⟩, fun hisRoot => hroot ?_⟩
    exact NodeTemplate.isRoot_iff.mpr (hname.mp (htype.symm.trans hisRoot))
  made := by
    intro root op n hop hmade
    cases hmade with
    | create typeName registered =>
      refine ⟨⟨n.kind, hkinds.prototype?_of_create? (typeName ▸ registered), rfl⟩, ?_⟩
      exact fun htype => absurd htype (hkinds.rootless _ _ registered)
    | add _ _ => exact hop.elim
  edited := by
    rintro root n n' ⟨⟨k, hk, htype⟩, hroot⟩ hedited
    refine ⟨⟨k, hedited.typeName ▸ hk, htype.trans hedited.type.symm⟩, fun h => ?_⟩
    exact hedited.id.trans (hroot (hedited.type.symm.trans h))
  ticked := by
    rintro root n n' frame - ⟨⟨k, hk, htype⟩, hroot⟩ hprofile
    have htypeName : n'.typeName = n.typeName := congrArg Profile.typeName hprofile
    have htype' : n'.nodeType = n.nodeType := congrArg Profile.type hprofile
    refine ⟨⟨k, htypeName ▸ hk, htype.trans htype'.symm⟩, fun h => ?_⟩
    exact (congrArg Profile.id hprofile).trans (hroot (htype'.symm.trans h))
  rerooted := by
    rintro root root' n ⟨hproto, hroot⟩ hother
    exact ⟨hproto, fun h => absurd (hroot h) hother⟩
  copied := by
    rintro root root' n id links board ⟨⟨k, hk, htype⟩, hroot⟩ hid
    have htype' : (n.copy id links board).nodeType = n.nodeType :=
      (n.kind.authored.setLinks_links links).1.trans n.kind.authored_same.1
    exact ⟨⟨k, hk, htype.trans htype'.symm⟩, fun h => hid (hroot (htype'.symm.trans h))⟩

/-! ### Writing -/

theorem NodeKind.takes_links (k : NodeKind H) : k.nodeType.shape.Takes k.links.length := by
  have hone (child : Option NodeId) : child.toList.length ≤ 1 := by cases child <;> simp
  cases k with
  | root child | repeater child => exact hone child
  | action _ | condition _ => rfl
  | sequence _ | selector _ | parallel _ | randomChoice _ _ => trivial

theorem NodeShape.Takes.mono {shape : NodeShape} {count fewer : Nat} (h : shape.Takes count)
    (hle : fewer ≤ count) : shape.Takes fewer := by
  cases shape with
  | noChildren => exact Nat.le_zero.mp (h ▸ hle)
  | oneChild => exact Nat.le_trans hle h
  | manyChildren => trivial

attribute [ext] NodeTemplate

/-- The same authored node without a name that is its kind's anyway. -/
def NodeTemplate.normal (a : NodeTemplate) : NodeTemplate :=
  { a with name := if a.name = some a.kind then none else a.name }

namespace Tree

variable {t : Tree H}

/-- The authored identity of a live node. -/
def guid? (t : Tree H) (id : NodeId) : Option NodeId := (t.node? id).map (·.guid)

/-- A tree of nodes that were made by name, with links as they should be. -/
structure Writable (registry : Registry H) (t : Tree H) : Prop where
  wellFormed : t.WellFormed
  nodes : ∀ n ∈ t.nodes, n.MadeByName registry t.root

theorem guid?_eq_some {id guid : NodeId} (h : t.guid? id = some guid) :
    ∃ n ∈ t.nodes, n.id = id ∧ n.guid = guid := by
  obtain ⟨n, hn, hguid⟩ := Option.map_eq_some_iff.mp h
  obtain ⟨hmem, hid⟩ := node?_some hn
  exact ⟨n, hmem, hid, hguid⟩

/-- What a node lists as written are the live nodes that it links to. -/
theorem mem_children {n : Node H} {guid : NodeId} (h : guid ∈ (t.authorNode n).children) :
    ∃ m ∈ t.nodes, m.id ∈ n.links ∧ m.guid = guid := by
  obtain ⟨c, hc, hguid⟩ := List.mem_filterMap.mp h
  obtain ⟨m, hm, rfl, hmguid⟩ := guid?_eq_some hguid
  exact ⟨m, hm, hc, hmguid⟩

theorem WellFormed.guid_injective (h : t.WellFormed) {n m : Node H} (hn : n ∈ t.nodes)
    (hm : m ∈ t.nodes) (hguid : n.guid = m.guid) : n = m :=
  List.inj_on_of_nodup_map h.guidsDistinct hn hm hguid

theorem WellFormed.lists (h : t.WellFormed) {p c : NodeId} (hlists : t.toTemplate.Lists p c)
    {n : Node H} (hn : n ∈ t.nodes) (hguid : n.guid = p) :
    ∃ m ∈ t.nodes, m.guid = c ∧ t.Links n.id m.id := by
  obtain ⟨a, ha, hp, hc⟩ := hlists
  obtain ⟨n', hn', rfl⟩ := List.mem_map.mp ha
  obtain rfl : n = n' := h.guid_injective hn hn' (hguid.trans hp.symm)
  obtain ⟨m, hm, hlink, hmguid⟩ := mem_children hc
  exact ⟨m, hm, hmguid, .of_node? (node?_of_mem h.idsDistinct hn) hlink⟩

theorem WellFormed.lists_acyclic (h : t.WellFormed) (guid : NodeId) :
    ¬ TransGen t.toTemplate.Lists guid guid := by
  have hleads {p c : NodeId} (hpc : TransGen t.toTemplate.Lists p c) {n : Node H}
      (hn : n ∈ t.nodes) (hguid : n.guid = p) :
      ∃ m ∈ t.nodes, m.guid = c ∧ TransGen t.Links n.id m.id := by
    induction hpc with
    | single hlists =>
      obtain ⟨m, hm, hmguid, hlink⟩ := h.lists hlists hn hguid
      exact ⟨m, hm, hmguid, .single hlink⟩
    | tail _ hlists ih =>
      obtain ⟨q, hq, hqguid, hway⟩ := ih
      obtain ⟨m, hm, hmguid, hlink⟩ := h.lists hlists hq hqguid
      exact ⟨m, hm, hmguid, hway.tail hlink⟩
  intro hcycle
  obtain ⟨_, ⟨a, ha, hguid, -⟩, -⟩ := TransGen.head'_iff.mp hcycle
  obtain ⟨n, hn, rfl⟩ := List.mem_map.mp ha
  obtain ⟨m, hm, hmguid, hway⟩ := hleads hcycle hn hguid
  -- The way comes back to the node that it began at, as no other has its authored identity.
  obtain rfl : m = n := h.guid_injective hm hn (hmguid.trans hguid.symm)
  exact h.acyclic m.id hway

/-- No node is listed twice, as none is linked twice and each has its own authored identity. -/
theorem WellFormed.listed_once (h : t.WellFormed) :
    (t.toTemplate.nodes.flatMap (·.children)).Nodup := by
  have hchildren : t.toTemplate.nodes.flatMap (·.children) =
      (t.nodes.flatMap (·.links)).filterMap t.guid? := by
    rw [toTemplate, List.flatMap_map, List.filterMap_flatMap]
    rfl
  rw [hchildren]
  refine h.linkedOnce.filterMap fun c d guid hc hd => ?_
  obtain ⟨n, hn, rfl, hnguid⟩ := guid?_eq_some hc
  obtain ⟨m, hm, rfl, hmguid⟩ := guid?_eq_some hd
  rw [h.guid_injective hn hm (hnguid.trans hmguid.symm)]

theorem kind_authorNode (hkinds : registry.Tidy) {n : Node H}
    (h : n.MadeByName registry t.root) : (t.authorNode n).kind = n.typeName := by
  unfold authorNode
  split
  · next htype => exact ((h.type_root_iff hkinds).mp htype).symm
  · rfl

theorem isRoot_authorNode (hkinds : registry.Tidy) {n : Node H}
    (h : n.MadeByName registry t.root) : (t.authorNode n).isRoot ↔ n.nodeType = .root := by
  rw [NodeTemplate.isRoot_iff, kind_authorNode hkinds h, h.type_root_iff hkinds]

theorem toTemplate_guids (t : Tree H) : t.toTemplate.guids = t.nodes.map (·.guid) := by
  rw [TreeTemplate.guids, toTemplate, List.map_map]
  rfl

/-- The prototype that is found for a node as written is the one that the node was made of. -/
theorem kindOf_authorNode (hkinds : registry.Tidy) {n : Node H}
    (h : n.MadeByName registry t.root) {k : NodeKind H} :
    TreeTemplate.kindOf registry (t.authorNode n) = .ok k ↔
      registry.prototype? n.typeName = some k := by
  rw [TreeTemplate.kindOf_ok_iff, kind_authorNode hkinds h]

theorem type_of_kindOf (hkinds : registry.Tidy) {n : Node H}
    (h : n.MadeByName registry t.root) {k : NodeKind H}
    (hk : TreeTemplate.kindOf registry (t.authorNode n) = .ok k) : k.nodeType = n.nodeType := by
  obtain ⟨k', hk', htype⟩ := h.prototype
  obtain rfl := Option.some.inj (hk'.symm.trans ((kindOf_authorNode hkinds h).mp hk))
  exact htype

namespace Writable

variable (h : t.Writable registry)

include h

/-- The one root of a tree is what is written as the root. -/
theorem rootGuids (hkinds : registry.Tidy) {r : Node H} (hr : t.node? t.root = some r)
    (htype : r.nodeType = .root) : t.toTemplate.rootGuids = [r.guid] := by
  obtain ⟨hmem, hid⟩ := node?_some hr
  have hdistinct := h.wellFormed.idsDistinct
  -- All nodes are distinct, so it is enough to know which of them are left.
  have hroots : t.nodes.filter (fun n => (t.authorNode n).isRoot) = [r] := by
    apply List.perm_singleton.mp
    apply (List.perm_ext_iff_of_nodup (hdistinct.of_map.filter _) (List.nodup_singleton r)).mpr
    intro n
    rw [List.mem_filter, List.mem_singleton]
    constructor
    · rintro ⟨hn, hisRoot⟩
      have hroot := (h.nodes n hn).root ((isRoot_authorNode hkinds (h.nodes n hn)).mp hisRoot)
      exact List.inj_on_of_nodup_map hdistinct hn hmem (hroot.trans hid.symm)
    · rintro rfl
      exact ⟨hmem, (isRoot_authorNode hkinds (h.nodes n hmem)).mpr htype⟩
  rw [TreeTemplate.rootGuids, toTemplate, List.filter_map, List.map_map]
  exact congrArg (List.map Node.guid) hroots

theorem exists_authored {a : NodeTemplate} (ha : a ∈ t.toTemplate.nodes) :
    ∃ n ∈ t.nodes, n.MadeByName registry t.root ∧ t.authorNode n = a := by
  obtain ⟨n, hn, rfl⟩ := List.mem_map.mp ha
  exact ⟨n, hn, h.nodes n hn, rfl⟩

/-- What is written of a tree passes for a template. -/
theorem toTemplate_wellFormed (hkinds : registry.Tidy) : t.toTemplate.WellFormed registry where
  distinct := t.toTemplate_guids ▸ h.wellFormed.guidsDistinct
  oneRoot := by
    obtain ⟨r, hr, htype⟩ := h.wellFormed.rootLive
    have hlength := congrArg List.length (h.rootGuids hkinds hr htype)
    rw [TreeTemplate.rootGuids, List.length_map] at hlength
    exact Nat.le_of_eq hlength
  registered := by
    intro a ha hnot
    obtain ⟨n, -, hmade, rfl⟩ := h.exists_authored ha
    obtain ⟨k, hk, -⟩ := hmade.prototype
    rw [NodeTemplate.isRoot_iff, kind_authorNode hkinds hmade] at hnot
    rw [Registry.prototype?, if_neg hnot] at hk
    rw [kind_authorNode hkinds hmade, hk]
    rfl
  present := by
    intro a ha c hc
    obtain ⟨n, -, -, rfl⟩ := h.exists_authored ha
    obtain ⟨m, hm, -, rfl⟩ := mem_children hc
    exact t.toTemplate_guids ▸ List.mem_map_of_mem hm
  rootFree := by
    intro a ha hisRoot b hb hc
    obtain ⟨m, hm, hmade, rfl⟩ := h.exists_authored ha
    obtain ⟨n, hn, -, rfl⟩ := h.exists_authored hb
    obtain ⟨m', hm', hlink, hguid⟩ := mem_children hc
    obtain rfl : m' = m := h.wellFormed.guid_injective hm' hm hguid
    -- What lists the root as written is a node that links to it.
    have hroot := hmade.root ((isRoot_authorNode hkinds hmade).mp hisRoot)
    exact h.wellFormed.rootUnlinked (hroot ▸ List.mem_flatMap.mpr ⟨n, hn, hlink⟩)
  once := h.wellFormed.listed_once
  counts := by
    intro a ha type hatype
    obtain ⟨n, -, hmade, rfl⟩ := h.exists_authored ha
    obtain ⟨k, hk, rfl⟩ := TreeTemplate.type?_eq_some_iff.mp hatype
    -- As many children as a node links to are not too many, and not all of them have to be live.
    rw [type_of_kindOf hkinds hmade hk]
    exact n.kind.takes_links.mono (List.length_filterMap_le _ _)
  acyclic := h.wellFormed.lists_acyclic

end Writable

/-! ### Reading back -/

/-- One tree is what another one was written as: the same nodes as far as they are authored, under
their authored identities, linked as before but for links that led nowhere. -/
structure Restores (t t' : Tree H) : Prop where
  template : t'.toTemplate = t.toTemplate
  root : ∃ r, t.node? t.root = some r ∧ t'.root = r.guid ∧ t'.guid? t'.root = some r.guid
  ids : t'.ids = t.nodes.map (·.guid)
  links : (t'.nodes.map fun n => (n.guid, n.links)) =
    t.nodes.map fun n => (n.guid, n.links.filterMap t.guid?)

/-- A node is written as it was described, but for a name that says nothing. -/
theorem authorNode_of_describes (hfree : registry.LinkFree) (hrootless : registry.Rootless)
    {t : Tree H} {a : NodeTemplate} {n : Node H} {board : BlackboardId}
    (h : TreeTemplate.Describes registry board a n)
    (hlive : ∀ c ∈ a.children, t.guid? c = some c) : t.authorNode n = a.normal := by
  have hchildren : n.links.filterMap t.guid? = a.children := by
    rw [h.links hfree, List.filterMap_congr hlive, List.filterMap_some]
  obtain ⟨k, hk, -, rfl⟩ := h
  have htype : (TreeTemplate.linkKind a k).nodeType = .root ↔ a.kind = NodeType.root.name := by
    rw [TreeTemplate.linkKind_type]
    exact hrootless.type_root_iff (TreeTemplate.kindOf_ok_iff.mp hk)
  apply NodeTemplate.ext
  · rfl
  · change (if (TreeTemplate.linkKind a k).nodeType = .root then NodeType.root.name else a.kind) =
      a.kind
    split
    next hroot => exact (htype.mp hroot).symm
    next => rfl
  · change (if a.name.getD a.kind = a.kind then none else some (a.name.getD a.kind)) =
      if a.name = some a.kind then none else a.name
    cases a.name with
    | none => rw [Option.getD_none, if_pos rfl, if_neg (by nofun)]
    | some name => simp only [Option.getD_some, Option.some.injEq]
  · rfl
  · rfl
  · exact hchildren

/-- What is written is in normal form. -/
theorem authorNode_normal (hkinds : registry.Tidy) {n : Node H}
    (h : n.MadeByName registry t.root) : (t.authorNode n).normal = t.authorNode n := by
  have hkind : (t.authorNode n).kind = n.typeName := kind_authorNode hkinds h
  apply NodeTemplate.ext
  · rfl
  · rfl
  · change (if (t.authorNode n).name = some (t.authorNode n).kind then none else
      (t.authorNode n).name) = (t.authorNode n).name
    rw [hkind, authorNode]
    -- A name is left out if it is that of the type, and is another one otherwise.
    by_cases hname : n.name = n.typeName
    · rw [if_pos hname, if_neg (by nofun)]
    · rw [if_neg hname, if_neg fun hsame => hname (Option.some.inj hsame)]
  · rfl
  · rfl
  · rfl

/-- What a tree is written as is accepted, whatever there is to draw on: it names its root, so none
has to be made. What comes of it has just the nodes that were written. -/
theorem Writable.reload (h : t.Writable registry) (hkinds : registry.Tidy)
    {visit : List NodeId → List NodeId} (hvisit : ∀ ids, (visit ids).Perm ids)
    (supply : IdSupply) : ∃ t' board,
      (ofTemplateVia visit registry t.toTemplate supply).1 = .ok t' ∧
        t.toTemplate.Builds registry board [] t' := by
  obtain ⟨r, hr, htype⟩ := h.wellFormed.rootLive
  have hroots := h.rootGuids hkinds hr htype
  have haccepted := (TreeTemplate.check_isOk_iff hvisit t.toTemplate).mpr
    (h.toTemplate_wellFormed hkinds)
  have hok : ∃ t', (ofTemplateVia visit registry t.toTemplate supply).1 = .ok t' :=
    ofTemplateVia_isOk_iff.mpr haccepted
  obtain ⟨t', ht'⟩ := hok
  have hrun : ofTemplateVia visit registry t.toTemplate supply =
      (.ok t', (ofTemplateVia visit registry t.toTemplate supply).2) := Prod.ext ht' rfl
  have hfresh : t.toTemplate.rootGuids = [] →
      supply.Fresh 0 fun u => ∃ guid ∈ t.toTemplate.guids, guid.uuid = u := by
    intro hnone
    simp [hroots] at hnone
  obtain ⟨board, added, hbuilds⟩ := ofTemplateVia_builds hvisit hfresh hrun fun hnone => by
    simp [hroots] at hnone
  rcases hbuilds.root with ⟨-, rfl⟩ | ⟨hnone, -⟩
  · exact ⟨t', board, ht', hbuilds⟩
  · simp [hroots] at hnone

/-- The nodes that come of a template have their authored identities for identifiers. -/
theorem guid?_of_builds {a : TreeTemplate} {board : BlackboardId} {added : List (Node H)}
    {t : Tree H} (h : a.Builds registry board added t) {c : NodeId} (hc : c ∈ t.ids) :
    t.guid? c = some c := by
  obtain ⟨m, hm⟩ := Option.isSome_iff_exists.mp (contains_iff.mpr hc)
  obtain ⟨hmem, rfl⟩ := node?_some hm
  obtain ⟨listed, hnodes, hlisted⟩ := h.nodes
  have hguid : m.guid = m.id := by
    rw [hnodes] at hmem
    rcases List.mem_append.mp hmem with hmem | hmem
    · obtain ⟨x, -, hx⟩ := exists_of_mem_right hlisted hmem
      exact (TreeTemplate.Describes.guid hx).trans (TreeTemplate.Describes.id hx).symm
    · rcases h.root with ⟨-, rfl⟩ | ⟨-, -, rfl⟩
      · exact absurd hmem List.not_mem_nil
      · rw [List.mem_singleton.mp hmem]
        rfl
  rw [guid?, hm, Option.map_some, hguid]

/-- Nodes and what they were read back as, one by one. -/
theorem described_of_builds {t t' : Tree H} {board : BlackboardId}
    (h : t.toTemplate.Builds registry board [] t') : List.Forall₂
      (fun n n' => TreeTemplate.Describes registry board (t.authorNode n) n') t.nodes t'.nodes := by
  obtain ⟨listed, hnodes, hlisted⟩ := h.nodes
  rw [hnodes, List.append_nil]
  exact List.forall₂_map_left_iff.mp hlisted

/-- Whatever reads a tree back has the same to write. -/
theorem Writable.restores (h : t.Writable registry) (hkinds : registry.Tidy) {t' : Tree H}
    {board : BlackboardId} (hbuilds : t.toTemplate.Builds registry board [] t') :
    t.Restores t' := by
  obtain ⟨r, hr, htype⟩ := h.wellFormed.rootLive
  have hroots := h.rootGuids hkinds hr htype
  have hpairs := described_of_builds hbuilds
  have hroot : t'.root = r.guid := by
    rcases hbuilds.root with ⟨hroot, -⟩ | ⟨hroot, -⟩
    · rw [hroots] at hroot
      exact (List.singleton_inj.mp hroot).symm
    · simp [hroots] at hroot
  have hids : t'.ids = t.nodes.map (·.guid) :=
    map_eq_of_forall₂ hpairs fun _ _ hn => hn.id
  have hlive : ∀ n ∈ t.nodes, ∀ c ∈ (t.authorNode n).children, t'.guid? c = some c := by
    intro n hn c hc
    obtain ⟨m, hm, -, rfl⟩ := mem_children hc
    exact guid?_of_builds hbuilds (hids ▸ List.mem_map_of_mem hm)
  refine ⟨?_, ⟨r, hr, hroot, ?_⟩, hids, ?_⟩
  · refine congrArg TreeTemplate.mk (map_eq_of_forall₂ (forall₂_mem hpairs) ?_)
    rintro n n' ⟨hn, -, hdescribes⟩
    rw [authorNode_of_describes hkinds.linkFree hkinds.rootless hdescribes (hlive n hn)]
    exact authorNode_normal hkinds (h.nodes n hn)
  · rw [hroot]
    exact guid?_of_builds hbuilds (hids ▸ List.mem_map_of_mem (node?_some hr).1)
  · refine map_eq_of_forall₂ hpairs fun n n' hn => ?_
    exact Prod.ext hn.guid (hn.links hkinds.linkFree)

end Tree

/-- A tree that was made by name can be written at any time. -/
theorem Reached.writable (hkinds : registry.Tidy) {limit : Nat} {s : Session H} {τ : Trace H}
    (h : Reached registry Operation.ByName limit s τ) (hlimit : s.supply.drawn ≤ limit) :
    s.tree.Writable registry where
  wellFormed :=
    ((h.mono fun _ => Operation.ByName.linkFree).sound hkinds.linkFree hlimit).2.wellFormed
  nodes := h.inherit (madeByName_hereditary hkinds) hkinds.linkFree
    (fun _ => Operation.ByName.linkFree) hlimit

end BehaviourTree
