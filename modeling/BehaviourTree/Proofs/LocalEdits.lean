import BehaviourTree.Proofs.Structure

/-!
Edits are all or nothing: one that is refused leaves everything as it is, and one that applies
changes the node that it names, in its place, and nothing else.
-/

namespace BehaviourTree

variable {H : Host}

/-- The edits that are refused where they do not apply. -/
def Operation.Refusable : Operation H → Prop
  | .create _ | .delete _ | .attach _ _ | .detach _ _ | .rename _ _ | .move _ _
  | .setAlwaysCheck _ _ | .sortChildren _ | .subscribe _ _ => True
  | _ => False

/-- What comes of an edit: a tree, or none if it is refused, and what is left to draw on. -/
def Session.attempt (s : Session H) : Operation H → Option (Tree H) × IdSupply
  | .create kind =>
    let r := s.tree.create? kind s.supply
    (r.1.map (·.2), r.2)
  | .delete id => s.tree.delete? id s.supply
  | .attach parent child => ((s.tree.attach parent child).toOption, s.supply)
  | .detach parent child => (s.tree.detach? parent child, s.supply)
  | .rename id name => (s.tree.rename? id name, s.supply)
  | .move id position => (s.tree.move? id position, s.supply)
  | .setAlwaysCheck id alwaysCheck => (s.tree.setAlwaysCheck? id alwaysCheck, s.supply)
  | .sortChildren parent => (s.tree.sortChildren? parent, s.supply)
  | .subscribe id o => (s.tree.subscribe? id o, s.supply)
  | op => (some (s.edited op).1, (s.edited op).2)

namespace Node

/-- The same node with other children. -/
def withLinks (n : Node H) (cs : List NodeId) : Node H := { n with kind := n.kind.setLinks cs }

/-- The children of a node after one has been attached: a single slot lets go of the one that it
held, and a list takes it at its end. -/
def linksAfter (n : Node H) (child : NodeId) : List NodeId :=
  if n.kind.shape = .oneChild then [child] else n.links ++ [child]

end Node

namespace Tree

/-- What an attachment asks for: nodes that are there, a child that has no place in the tree yet,
and a parent that takes children. -/
structure Attachable (t : Tree H) (parent child : NodeId) : Prop where
  distinct : parent ≠ child
  live : t.contains child
  notRoot : child ≠ t.root
  unplaced : t.parentOf? child = none
  notAbove : ¬ t.isAncestor child parent
  takes : ∃ p, t.node? parent = some p ∧ p.kind.shape ≠ .noChildren

/-- What an edit asks for. -/
def Admits (t : Tree H) : Operation H → Prop
  | .create kind => (t.registry.create? kind).isSome
  | .attach parent child => t.Attachable parent child
  | .detach parent child => t.Links parent child
  | .sortChildren parent => ∃ p, t.node? parent = some p ∧ p.kind.shape = .manyChildren
  | .delete id | .rename id _ | .move id _ | .setAlwaysCheck id _ | .subscribe id _ => t.contains id
  | _ => True

/-- A node in its place among the others, none of which has its identifier. -/
structure Places (t : Tree H) (before : List (Node H)) (n : Node H) (after : List (Node H)) :
    Prop where
  nodes : t.nodes = before ++ n :: after
  alone : ∀ m ∈ before ++ after, m.id ≠ n.id

/-- A new node of a kind, as it comes to the others. -/
def newNode (t : Tree H) (id : NodeId) (kind : String) (k : NodeKind H) : Node H :=
  { Node.make id kind k with owner := t.owner, blackboard := some t.blackboard.id }

/-- What an edit that applies makes of a tree. Whatever is not mentioned stays. -/
inductive EditedTo (t : Tree H) : Operation H → Tree H → Prop where
  /-- A new node at the end of the order. -/
  | create {kind : String} {k : NodeKind H} {id : NodeId}
      (registered : t.registry.create? kind = some k) (new : id ∉ t.ids) :
    EditedTo t (.create kind) { t with nodes := t.nodes ++ [t.newNode id kind k] }
  /-- The node goes. Its children stay, and so do the links to it. -/
  | delete {before after : List (Node H)} {n : Node H} (places : t.Places before n after)
      (other : n.id ≠ t.root) : EditedTo t (.delete n.id) { t with nodes := before ++ after }
  /-- The root goes, and a new one without children comes at the end of the order. -/
  | deleteRoot {before after : List (Node H)} {n : Node H} {root : NodeId}
      (places : t.Places before n after) (isRoot : n.id = t.root) (new : root ∉ t.ids) :
    EditedTo t (.delete n.id) { t with root, nodes := before ++ after ++ [t.spareRoot root] }
  | attach {before after : List (Node H)} {n : Node H} {child : NodeId}
      (places : t.Places before n after) (takes : n.kind.shape ≠ .noChildren) :
    EditedTo t (.attach n.id child)
      { t with nodes := before ++ n.withLinks (n.linksAfter child) :: after }
  | detach {before after : List (Node H)} {n : Node H} {child : NodeId}
      (places : t.Places before n after) (linked : child ∈ n.links) :
    EditedTo t (.detach n.id child)
      { t with nodes := before ++ n.withLinks (n.links.erase child) :: after }
  | rename {before after : List (Node H)} {n : Node H} {name : String}
      (places : t.Places before n after) :
    EditedTo t (.rename n.id name) { t with nodes := before ++ { n with name } :: after }
  | move {before after : List (Node H)} {n : Node H} {position : Vec2}
      (places : t.Places before n after) :
    EditedTo t (.move n.id position) { t with nodes := before ++ { n with position } :: after }
  | setAlwaysCheck {before after : List (Node H)} {n : Node H} {alwaysCheck : Bool}
      (places : t.Places before n after) :
    EditedTo t (.setAlwaysCheck n.id alwaysCheck)
      { t with nodes := before ++ { n with alwaysCheck } :: after }
  /-- The children come in some order, and it is the same ones. -/
  | sortChildren {before after : List (Node H)} {n : Node H} {cs : List NodeId}
      (places : t.Places before n after) (composite : n.kind.shape = .manyChildren)
      (perm : cs.Perm n.links) :
    EditedTo t (.sortChildren n.id) { t with nodes := before ++ n.withLinks cs :: after }
  | subscribe {before after : List (Node H)} {n : Node H} {o : H.Observer}
      (places : t.Places before n after) :
    EditedTo t (.subscribe n.id o)
      { t with nodes := before ++ { n with observers := n.observers ++ [o] } :: after }

variable {t t' : Tree H} {id parent child : NodeId} {before after : List (Node H)} {n : Node H}

/-! ### A node in its place -/

theorem exists_places (hkeys : t.ids.Nodup) (h : t.node? id = some n) :
    n.id = id ∧ ∃ before after, t.Places before n after := by
  obtain ⟨hmem, hid⟩ := node?_some h
  obtain ⟨before, after, hnodes⟩ := List.append_of_mem hmem
  refine ⟨hid, before, after, hnodes, fun m hm heq => ?_⟩
  -- Another node with this identifier would make it occur twice among all of them.
  have hperm : (n :: (before ++ after)).Perm t.nodes := hnodes ▸ List.perm_middle.symm
  have hdistinct : ((n :: (before ++ after)).map (·.id)).Nodup :=
    (hperm.map _).nodup_iff.mpr hkeys
  exact (List.nodup_cons.mp hdistinct).1 (List.mem_map.mpr ⟨m, hm, heq⟩)

/-- A change of the nodes that have an identifier is a change of one of them. -/
theorem Places.map (h : t.Places before n after) (f : Node H → Node H) :
    (t.nodes.map fun m => if m.id = n.id then f m else m) = before ++ f n :: after := by
  have hkept {l : List (Node H)} (hl : ∀ m ∈ l, m.id ≠ n.id) :
      (l.map fun m => if m.id = n.id then f m else m) = l := by
    conv_rhs => rw [← List.map_id l]
    exact List.map_congr_left fun m hm => if_neg (hl m hm)
  rw [h.nodes, List.map_append, List.map_cons, if_pos rfl,
    hkept fun m hm => h.alone m (List.mem_append_left _ hm),
    hkept fun m hm => h.alone m (List.mem_append_right _ hm)]

theorem Places.filter (h : t.Places before n after) :
    t.nodes.filter (·.id ≠ n.id) = before ++ after := by
  have hkept : (before ++ after).filter (·.id ≠ n.id) = before ++ after :=
    List.filter_eq_self.mpr fun m hm => by simpa using h.alone m hm
  rw [h.nodes, List.filter_append, List.filter_cons_of_neg (by simp), ← List.filter_append, hkept]

/-- To edit one node is to put another one in its place. -/
theorem editNode?_places (hkeys : t.ids.Nodup) {f : Node H → Node H}
    (h : t.editNode? id f = some t') : ∃ before n after, n.id = id ∧ t.Places before n after ∧
      t' = { t with nodes := before ++ f n :: after } := by
  unfold editNode? at h
  split at h
  · next hlive =>
    obtain ⟨n, hn⟩ := Option.isSome_iff_exists.mp hlive
    obtain ⟨rfl, before, after, hplaces⟩ := exists_places hkeys hn
    refine ⟨before, n, after, rfl, hplaces, ?_⟩
    rw [← hplaces.map f]
    exact (Option.some.inj h).symm
  · cases h

theorem Places.node? (h : t.Places before n after) : t.node? n.id = some n := by
  have hbefore : before.find? (·.id = n.id) = none :=
    List.find?_eq_none.mpr fun m hm => by simpa using h.alone m (List.mem_append_left _ hm)
  rw [Tree.node?, h.nodes, List.find?_append, hbefore]
  simp

theorem Places.relink (h : t.Places before n after) (cs : List NodeId) :
    t.relink n.id cs = { t with nodes := before ++ n.withLinks cs :: after } := by
  have hlive : t.contains n.id := Option.isSome_of_eq_some h.node?
  unfold Tree.relink editNode?
  rw [if_pos hlive, Option.getD_some, h.map fun m => { m with kind := m.kind.setLinks cs }]
  rfl

theorem Places.without (h : t.Places before n after) :
    t.without n.id = { t with nodes := before ++ after } := by
  rw [Tree.without, h.filter]

theorem without_contains_iff (t : Tree H) (gone id : NodeId) :
    (t.without gone).contains id ↔ t.contains id ∧ id ≠ gone := by
  simp only [contains_iff, ids, without, List.mem_map, List.mem_filter, decide_eq_true_eq]
  constructor
  · rintro ⟨n, ⟨hn, hne⟩, rfl⟩
    exact ⟨⟨n, hn, rfl⟩, hne⟩
  · rintro ⟨⟨n, hn, rfl⟩, hne⟩
    exact ⟨n, ⟨hn, hne⟩, rfl⟩

/-! ### What is refused -/

variable {kind : String} {supply : IdSupply}

theorem create?_unknown (h : t.registry.create? kind = none) (supply : IdSupply) :
    t.create? kind supply = (none, supply) := by
  unfold create?
  rw [h]
  rfl

theorem create?_known {k : NodeKind H} (h : t.registry.create? kind = some k) (supply : IdSupply) :
    t.create? kind supply = (some (⟨supply.draw.1⟩, t.insert (t.newNode ⟨supply.draw.1⟩ kind k)),
      supply.draw.2) := by
  unfold create?
  rw [h]
  rfl

theorem delete?_gone (h : ¬ t.contains id) (supply : IdSupply) :
    t.delete? id supply = (none, supply) := by
  unfold delete?
  rw [if_neg h]
  rfl

theorem delete?_live (h : t.contains id) (supply : IdSupply) :
    t.delete? id supply = (some ((t.without id).ensureRoot supply).1,
      ((t.without id).ensureRoot supply).2) := by
  unfold delete?
  rw [if_pos h]
  rfl

theorem attach_isOk_iff : (∃ t', t.attach parent child = .ok t') ↔ t.Attachable parent child := by
  constructor
  · rintro ⟨t', h⟩
    obtain ⟨p, hp, hne, hlive, hroot, hnone, hancestor, hshape⟩ := attach_ok h
    refine ⟨hne, hlive, hroot, hnone, hancestor, p, hp, ?_⟩
    rcases hshape with ⟨hshape, -⟩ | ⟨hshape, -⟩ <;> simp [hshape]
  · rintro ⟨hne, hlive, hroot, hnone, hancestor, p, hp, hshape⟩
    have hknown : ¬ (parent = child ∨ ¬ t.contains child) := by simp [hne, hlive]
    have hfree : ¬ (child = t.root ∨ (t.parentOf? child).isSome ∨ t.isAncestor child parent) := by
      simp [hroot, hnone, hancestor]
    simp only [attach, hp, if_neg hknown, if_neg hfree]
    cases hkind : p.kind.shape with
    | noChildren => exact absurd hkind hshape
    | oneChild => exact ⟨_, rfl⟩
    | manyChildren => exact ⟨_, rfl⟩

theorem editNode?_isSome_iff {f : Node H → Node H} :
    (t.editNode? id f).isSome ↔ t.contains id := by
  unfold editNode?
  split <;> simp_all

theorem sortChildren?_isSome_iff : (t.sortChildren? parent).isSome ↔
    ∃ p, t.node? parent = some p ∧ p.kind.shape = .manyChildren := by
  unfold sortChildren?
  cases t.node? parent with
  | none => simp
  | some p => cases hshape : p.kind.shape <;> simp [hshape]

/-! ### Edits that apply -/

theorem create?_edited (hnew : (⟨supply.draw.1⟩ : NodeId) ∉ t.ids)
    (h : (t.create? kind supply).1.map (·.2) = some t') : t.EditedTo (.create kind) t' := by
  cases hk : t.registry.create? kind with
  | none =>
    rw [create?_unknown hk] at h
    cases h
  | some k =>
    rw [create?_known hk] at h
    have hinsert : t.insert (t.newNode ⟨supply.draw.1⟩ kind k) = t' := Option.some.inj h
    rw [← hinsert, insert_of_new hnew]
    exact .create hk hnew

/-- A new root comes in if the old one has gone, and only then. -/
theorem delete?_edited (hkeys : t.ids.Nodup) (hroot : t.contains t.root)
    (hnew : (⟨supply.draw.1⟩ : NodeId) ∉ t.ids) (h : (t.delete? id supply).1 = some t') :
    t.EditedTo (.delete id) t' := by
  by_cases hlive : t.contains id
  · rw [delete?_live hlive] at h
    obtain ⟨n, hn⟩ := Option.isSome_iff_exists.mp hlive
    obtain ⟨rfl, before, after, hplaces⟩ := exists_places hkeys hn
    have hrun : ((t.without n.id).ensureRoot supply).1 = t' := Option.some.inj h
    -- The root is looked for among the nodes that are left.
    by_cases hgone : n.id = t.root
    · have hnone : ¬ (t.without n.id).contains t.root :=
        fun hlive => ((t.without_contains_iff _ _).mp hlive).2 hgone.symm
      have hspare : ((t.without n.id).spareRoot ⟨supply.draw.1⟩).id ∉ (t.without n.id).ids := by
        intro hmem
        exact hnew (contains_iff.mp ((t.without_contains_iff _ _).mp (contains_iff.mpr hmem)).1)
      rw [ensureRoot_of_gone hnone, insert_of_new hspare, hplaces.without] at hrun
      exact hrun ▸ .deleteRoot hplaces hgone hnew
    · have hkept : (t.without n.id).contains (t.without n.id).root :=
        (t.without_contains_iff _ _).mpr ⟨hroot, Ne.symm hgone⟩
      rw [ensureRoot_of_live hkept, hplaces.without] at hrun
      exact hrun ▸ .delete hplaces hgone
  · rw [delete?_gone hlive] at h
    cases h

theorem attach_relink (h : t.attach parent child = .ok t') :
    ∃ p, t.node? parent = some p ∧ p.kind.shape ≠ .noChildren ∧
      t' = t.relink parent (p.linksAfter child) := by
  obtain ⟨p, hp, -, -, -, -, -, ⟨hshape, rfl⟩ | ⟨hshape, rfl⟩⟩ := attach_ok h
  · exact ⟨p, hp, by simp [hshape], by rw [Node.linksAfter, if_pos hshape]⟩
  · exact ⟨p, hp, by simp [hshape], by rw [Node.linksAfter, if_neg (by simp [hshape])]⟩

theorem attach_edited (hkeys : t.ids.Nodup) (h : t.attach parent child = .ok t') :
    t.EditedTo (.attach parent child) t' := by
  obtain ⟨p, hp, hshape, rfl⟩ := attach_relink h
  obtain ⟨rfl, before, after, hplaces⟩ := exists_places hkeys hp
  exact hplaces.relink _ ▸ .attach hplaces hshape

theorem detach?_edited (hkeys : t.ids.Nodup) (h : t.detach? parent child = some t') :
    t.EditedTo (.detach parent child) t' := by
  unfold detach? at h
  split at h
  · next hlinked =>
    obtain ⟨p, hp, hchild⟩ := Links.exists_node hlinked
    obtain rfl := Option.some.inj h
    rw [children_of_node? hp]
    obtain ⟨rfl, before, after, hplaces⟩ := exists_places hkeys hp
    exact hplaces.relink _ ▸ .detach hplaces hchild
  · cases h

theorem sortChildren?_edited (hkeys : t.ids.Nodup) (h : t.sortChildren? parent = some t') :
    t.EditedTo (.sortChildren parent) t' := by
  unfold sortChildren? at h
  split at h
  · cases h
  · next p hp =>
    split at h
    · next hshape =>
      obtain rfl := Option.some.inj h
      obtain ⟨rfl, before, after, hplaces⟩ := exists_places hkeys hp
      have hperm := Sorting.sortByKey_perm t.abscissa? p.links
      exact hplaces.relink _ ▸ .sortChildren hplaces hshape hperm
    · cases h

end Tree

namespace Session

variable {s : Session H} {op : Operation H}

theorem attempt_isSome_iff (hop : op.Refusable) :
    (s.attempt op).1.isSome ↔ s.tree.Admits op := by
  cases op with
  | create kind =>
    simp only [attempt, Tree.Admits]
    cases hk : s.tree.registry.create? kind with
    | none => simp [Tree.create?_unknown hk]
    | some k => simp [Tree.create?_known hk]
  | delete id =>
    simp only [attempt, Tree.Admits]
    by_cases hlive : s.tree.contains id
    · simp [Tree.delete?_live hlive, hlive]
    · simp [Tree.delete?_gone hlive, hlive]
  | attach parent child =>
    simp only [attempt, Tree.Admits, ← Tree.attach_isOk_iff]
    cases s.tree.attach parent child <;> simp [Except.toOption]
  | detach parent child =>
    simp only [attempt, Tree.Admits, Tree.Links, Tree.detach?]
    split <;> simp_all
  | sortChildren parent => exact Tree.sortChildren?_isSome_iff
  | rename id _ | move id _ | setAlwaysCheck id _ | subscribe id _ =>
    exact Tree.editNode?_isSome_iff
  | add _ | subscribeAll _ | setOwner _ | setSeed _ | editBlackboard _ | tick _
  | elsewhere _ _ _ => exact hop.elim

theorem step_attempt (hop : op.Refusable) :
    s.step op = ({ s with
      tree := (s.attempt op).1.getD s.tree, supply := (s.attempt op).2 }, []) := by
  cases op with
  | create kind =>
    cases hk : s.tree.registry.create? kind with
    | none => simp [step, edited, attempt, Tree.create?_unknown hk]
    | some k => simp [step, edited, attempt, Tree.create?_known hk]
  | delete _ | attach _ _ | detach _ _ | rename _ _ | move _ _ | setAlwaysCheck _ _
  | sortChildren _ | subscribe _ _ => rfl
  | add _ | subscribeAll _ | setOwner _ | setSeed _ | editBlackboard _ | tick _
  | elsewhere _ _ _ => exact hop.elim

/-- An edit that is refused draws nothing. -/
theorem attempt_supply (h : (s.attempt op).1 = none) : (s.attempt op).2 = s.supply := by
  cases op with
  | create kind =>
    simp only [attempt] at h ⊢
    cases hk : s.tree.registry.create? kind with
    | none => rw [Tree.create?_unknown hk]
    | some k => simp [Tree.create?_known hk] at h
  | delete id =>
    simp only [attempt] at h ⊢
    by_cases hlive : s.tree.contains id
    · simp [Tree.delete?_live hlive] at h
    · rw [Tree.delete?_gone hlive]
  | attach _ _ | detach _ _ | rename _ _ | move _ _ | setAlwaysCheck _ _ | sortChildren _
  | subscribe _ _ => rfl
  | add _ | subscribeAll _ | setOwner _ | setSeed _ | editBlackboard _ | tick _
  | elsewhere _ _ _ => cases h

theorem attempt_edited (hkeys : s.tree.ids.Nodup) (hroot : s.tree.contains s.tree.root)
    (hnew : (⟨s.supply.draw.1⟩ : NodeId) ∉ s.tree.ids) (hop : op.Refusable) {t : Tree H}
    (h : (s.attempt op).1 = some t) : s.tree.EditedTo op t := by
  cases op with
  | create kind => exact Tree.create?_edited hnew h
  | delete id => exact Tree.delete?_edited hkeys hroot hnew h
  | attach parent child =>
    change (s.tree.attach parent child).toOption = some t at h
    cases hattach : s.tree.attach parent child with
    | error e =>
      rw [hattach] at h
      cases h
    | ok t' =>
      rw [hattach] at h
      obtain rfl := Option.some.inj h
      exact Tree.attach_edited hkeys hattach
  | detach parent child => exact Tree.detach?_edited hkeys h
  | sortChildren parent => exact Tree.sortChildren?_edited hkeys h
  | rename id name =>
    obtain ⟨before, n, after, rfl, hplaces, rfl⟩ := Tree.editNode?_places hkeys h
    exact .rename hplaces
  | move id position =>
    obtain ⟨before, n, after, rfl, hplaces, rfl⟩ := Tree.editNode?_places hkeys h
    exact .move hplaces
  | setAlwaysCheck id alwaysCheck =>
    obtain ⟨before, n, after, rfl, hplaces, rfl⟩ := Tree.editNode?_places hkeys h
    exact .setAlwaysCheck hplaces
  | subscribe id o =>
    obtain ⟨before, n, after, rfl, hplaces, rfl⟩ := Tree.editNode?_places hkeys h
    exact .subscribe hplaces
  | add _ | subscribeAll _ | setOwner _ | setSeed _ | editBlackboard _ | tick _
  | elsewhere _ _ _ => exact hop.elim

end Session

/-- Whatever the links of a tree and the runs of its nodes, an edit is refused exactly if what it
asks for is not there, and then everything is as it was. If it applies, the node that it names is
changed in its place, or gone, or there is a new one behind all others; nothing else is touched, but
for a root that takes the place of one that is deleted. Nodes are stored under their identifiers, so
no two share one, the root of a tree is always among them, and a new node gets an identifier that
none of them has. -/
theorem edits_all_or_nothing {s : Session H} (hkeys : s.tree.ids.Nodup)
    (hroot : s.tree.contains s.tree.root) (hnew : (⟨s.supply.draw.1⟩ : NodeId) ∉ s.tree.ids)
    {op : Operation H} (hop : op.Refusable) :
    ((s.attempt op).1.isSome ↔ s.tree.Admits op) ∧
      ((s.attempt op).1 = none → s.step op = (s, [])) ∧
      ∀ t, (s.attempt op).1 = some t → s.tree.EditedTo op t ∧
        s.step op = ({ s with tree := t, supply := (s.attempt op).2 }, []) := by
  refine ⟨Session.attempt_isSome_iff hop, fun hrefused => ?_, fun t happlies => ⟨?_, ?_⟩⟩
  · rw [Session.step_attempt hop, Session.attempt_supply hrefused, hrefused]
    rfl
  · exact Session.attempt_edited hkeys hroot hnew hop happlies
  · rw [Session.step_attempt hop, happlies]
    rfl

/-- While a wait runs below a sequence below the root: the sequence cannot go below the wait, and
the root can be deleted. -/
theorem edits_all_or_nothing_felling :
    let s := (Demo.sapling.run (Demo.pruning.take 5)).1
    (s.tree.nodes.map (·.running) = [true, true, true] ∧ s.tree.ids.Nodup ∧
      s.tree.contains s.tree.root ∧ (⟨s.supply.draw.1⟩ : NodeId) ∉ s.tree.ids) ∧
    s.step (.attach (.ofNat 4) (.ofNat 3)) = (s, []) ∧
    s.tree.EditedTo (.delete s.tree.root) (s.step (.delete s.tree.root)).1.tree := by
  intro s
  have hkeys : s.tree.ids.Nodup := by decide +kernel
  have hroot : s.tree.contains s.tree.root := by decide +kernel
  have hnew : (⟨s.supply.draw.1⟩ : NodeId) ∉ s.tree.ids := by decide +kernel
  have hattach : (Operation.attach (.ofNat 4) (.ofNat 3) : Operation Demo.smallHost).Refusable :=
    trivial
  have hdelete : (Operation.delete s.tree.root : Operation Demo.smallHost).Refusable := trivial
  obtain ⟨-, hrefused, -⟩ := edits_all_or_nothing hkeys hroot hnew hattach
  obtain ⟨-, -, happlied⟩ := edits_all_or_nothing hkeys hroot hnew hdelete
  refine ⟨⟨by decide +kernel, hkeys, hroot, hnew⟩, hrefused rfl, ?_⟩
  obtain ⟨hedited, hstep⟩ := happlied _ rfl
  rw [hstep]
  exact hedited

end BehaviourTree
