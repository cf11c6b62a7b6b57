import BehaviourTree.Proofs.Edits

/-!
What one operation can do to a tree at large: a tick, an edit of nodes that stay who they are, a new
node, or a node that is gone.
-/

namespace BehaviourTree

variable {H : Host}

/-! ### Edits of nodes -/

namespace NodeKind

theorem setLinks_self (k : NodeKind H) : k.setLinks k.links = k := by
  cases k with
  | root c | repeater c => cases c <;> rfl
  | action _ | condition _ | sequence _ | selector _ | parallel _ | randomChoice _ _ => rfl

theorem setLinks_setLinks (k : NodeKind H) (cs ds : List NodeId) :
    (k.setLinks cs).setLinks ds = k.setLinks ds := by
  cases k <;> rfl

end NodeKind

namespace Node

/-- An edit changes neither who a node is nor what it was made as nor whether it runs, and of its
kind no more than the links. -/
structure Edited (n n' : Node H) : Prop where
  id : n'.id = n.id
  typeName : n'.typeName = n.typeName
  kind : ∃ cs, n'.kind = n.kind.setLinks cs
  running : n'.running = n.running

variable {n n' n'' : Node H}

theorem Edited.of_kind (hid : n'.id = n.id) (htypeName : n'.typeName = n.typeName)
    (hkind : n'.kind = n.kind) (hrunning : n'.running = n.running) : n.Edited n' :=
  ⟨hid, htypeName, ⟨n.kind.links, hkind.trans n.kind.setLinks_self.symm⟩, hrunning⟩

theorem Edited.refl (n : Node H) : n.Edited n := .of_kind rfl rfl rfl rfl

theorem Edited.type (h : n.Edited n') : n'.nodeType = n.nodeType := by
  obtain ⟨cs, hkind⟩ := h.kind
  unfold nodeType
  rw [hkind]
  exact (n.kind.setLinks_links cs).1

end Node

/-! ### Edits of trees -/

namespace Tree

variable {t t' : Tree H} {supply : IdSupply}

/-- Nodes are edited one by one. -/
structure Touches (t t' : Tree H) : Prop where
  root : t'.root = t.root
  registry : t'.registry = t.registry
  nodes : ∃ f : Node H → Node H, t'.nodes = t.nodes.map f ∧ ∀ n : Node H, n.Edited (f n)

theorem Touches.of_same (hroot : t'.root = t.root) (hregistry : t'.registry = t.registry)
    (hnodes : t'.nodes = t.nodes) : t.Touches t' := by
  refine ⟨hroot, hregistry, id, ?_, .refl⟩
  rw [hnodes, List.map_id]

theorem Touches.refl (t : Tree H) : t.Touches t := .of_same rfl rfl rfl

theorem touches_editNode {f : Node H → Node H} (t : Tree H) (id : NodeId)
    (hf : ∀ n : Node H, n.Edited (f n)) : t.Touches ((t.editNode? id f).getD t) := by
  unfold editNode?
  split
  · refine ⟨rfl, rfl, _, rfl, fun n => ?_⟩
    split
    · exact hf n
    · exact .refl n
  · exact .refl t

theorem touches_relink (t : Tree H) (id : NodeId) (cs : List NodeId) : t.Touches (t.relink id cs) :=
  t.touches_editNode id fun _ => ⟨rfl, rfl, ⟨cs, rfl⟩, rfl⟩

/-- At most one node is given other children. -/
def Relinked (t t' : Tree H) : Prop := t' = t ∨ ∃ id cs, t' = t.relink id cs

theorem attach_relinked (t : Tree H) (parent child : NodeId) :
    t.Relinked (((t.attach parent child).toOption).getD t) := by
  cases hattach : t.attach parent child with
  | error _ => exact Or.inl rfl
  | ok t' =>
    obtain ⟨p, -, -, -, -, -, -, ⟨-, rfl⟩ | ⟨-, rfl⟩⟩ := attach_ok hattach
    · exact Or.inr ⟨parent, _, rfl⟩
    · exact Or.inr ⟨parent, _, rfl⟩

theorem detach_relinked (t : Tree H) (parent child : NodeId) :
    t.Relinked ((t.detach? parent child).getD t) := by
  unfold detach?
  split
  · exact Or.inr ⟨parent, _, rfl⟩
  · exact Or.inl rfl

theorem sortChildren_relinked (t : Tree H) (parent : NodeId) :
    t.Relinked ((t.sortChildren? parent).getD t) := by
  unfold sortChildren?
  split
  · exact Or.inl rfl
  · split
    · exact Or.inr ⟨parent, _, rfl⟩
    · exact Or.inl rfl

theorem Relinked.touches (h : t.Relinked t') : t.Touches t' := by
  rcases h with rfl | ⟨id, cs, rfl⟩
  · exact .refl t'
  · exact t.touches_relink id cs

theorem touches_setOwner (t : Tree H) (agent : AgentHandle) : t.Touches (t.setOwner agent) := by
  refine ⟨rfl, rfl, _, rfl, fun n => ?_⟩
  split
  · exact .of_kind rfl rfl rfl rfl
  · exact .refl n

/-- Nothing is different but the nodes, and which of them is the root. -/
def Renewed (t t' : Tree H) : Prop := ∃ nodes root, t' = { t with nodes, root }

theorem Renewed.refl (t : Tree H) : t.Renewed t := ⟨t.nodes, t.root, rfl⟩

theorem editNode_renewed (t : Tree H) (id : NodeId) (f : Node H → Node H) :
    t.Renewed ((t.editNode? id f).getD t) := by
  unfold editNode?
  split
  · exact ⟨_, t.root, rfl⟩
  · exact .refl t

theorem Relinked.renewed (h : t.Relinked t') : t.Renewed t' := by
  rcases h with rfl | ⟨id, cs, rfl⟩
  · exact .refl t'
  · exact t.editNode_renewed id _

theorem insert_renewed (t : Tree H) (n : Node H) : t.Renewed (t.insert n) := by
  unfold insert
  split <;> exact ⟨_, t.root, rfl⟩

theorem ensureRoot_renewed (t : Tree H) (supply : IdSupply) :
    t.Renewed (t.ensureRoot supply).1 := by
  rcases t.ensureRoot_spec supply with ⟨-, hrun⟩ | ⟨n, -, -, -, -, -, hrun⟩
  · rw [hrun]
    exact .refl t
  · rw [hrun]
    obtain ⟨nodes, root, hinsert⟩ := t.insert_renewed n
    exact ⟨nodes, n.id, congrArg (fun t : Tree H => { t with root := n.id }) hinsert⟩

theorem insert_registry (t : Tree H) (n : Node H) : (t.insert n).registry = t.registry := by
  obtain ⟨nodes, root, hinsert⟩ := t.insert_renewed n
  rw [hinsert]

theorem ensureRoot_registry (t : Tree H) (supply : IdSupply) :
    (t.ensureRoot supply).1.registry = t.registry := by
  obtain ⟨nodes, root, hroot⟩ := t.ensureRoot_renewed supply
  rw [hroot]

end Tree

/-- The operation makes such a node: of a registered kind, or of the kind that it is given. -/
inductive Operation.Makes (registry : Registry H) : Operation H → Node H → Prop where
  | create {name : String} {n : Node H} (typeName : n.typeName = name)
    (registered : registry.create? name = some n.kind) : Makes registry (.create name) n
  | add {kind : NodeKind H} {n : Node H} (typeName : n.typeName = kind.nodeType.name)
    (given : n.kind = kind) : Makes registry (.add kind) n

/-- The operation is an edit of nodes: it makes some, or does away with some, or changes some that
it names. -/
def Operation.OfNodes : Operation H → Prop
  | .create _ | .add _ | .delete _ | .attach _ _ | .detach _ _ | .rename _ _ | .move _ _
  | .setAlwaysCheck _ _ | .sortChildren _ | .subscribe _ _ => True
  | .subscribeAll _ | .setOwner _ | .setSeed _ | .editBlackboard _ | .tick _
  | .elsewhere _ _ _ => False

namespace Session

/-- What an operation leaves of a session and writes to the trace. -/
inductive Effect (s : Session H) : Operation H → Session H → Trace H → Prop where
  | tick (frame : TickContext) :
    Effect s (.tick frame) (s.step (.tick frame)).1 (s.step (.tick frame)).2
  | touch {op : Operation H} {s' : Session H} (touches : s.tree.Touches s'.tree)
      (precedes : s.supply.Precedes s'.supply) : Effect s op s' []
  | insert {op : Operation H} {s' : Session H} (n : Node H) (id : n.id = ⟨s.supply.draw.1⟩)
      (idle : n.running = false) (made : op.Makes s.tree.registry n)
      (tree : s'.tree = s.tree.insert n) (supply : s'.supply = s.supply.draw.2) : Effect s op s' []
  | delete {op : Operation H} {s' : Session H} (id : NodeId)
      (tree : s'.tree = ((s.tree.without id).ensureRoot s.supply).1)
      (supply : s'.supply = ((s.tree.without id).ensureRoot s.supply).2) : Effect s op s' []

variable {s s' : Session H} {op : Operation H} {τ : Trace H}

/-- A refused edit, like most edits, draws nothing. -/
theorem Effect.edit {t : Tree H} (h : s.tree.Touches t) :
    s.Effect op { s with tree := t, supply := s.supply } [] := .touch h (.refl s.supply)

theorem step_effect (s : Session H) (op : Operation H) :
    s.Effect op (s.step op).1 (s.step op).2 := by
  cases op with
  | create name =>
    change s.Effect _ { s with
      tree := (s.tree.create? name s.supply).1.elim s.tree (·.2),
      supply := (s.tree.create? name s.supply).2 } []
    cases hk : s.tree.registry.create? name with
    | none =>
      simp only [Tree.create?, hk]
      exact .edit (.refl s.tree)
    | some k =>
      simp only [Tree.create?, hk]
      exact .insert _ rfl rfl (.create rfl hk) rfl rfl
  | add kind => exact .insert _ rfl rfl (.add rfl rfl) rfl rfl
  | delete id =>
    change s.Effect _ { s with
      tree := (s.tree.delete? id s.supply).1.getD s.tree,
      supply := (s.tree.delete? id s.supply).2 } []
    -- To delete what is not there is refused.
    by_cases hid : s.tree.contains id
    · simp only [Tree.delete?, if_pos hid]
      exact .delete id rfl rfl
    · simp only [Tree.delete?, if_neg hid]
      exact .edit (.refl s.tree)
  | attach parent child => exact .edit (s.tree.attach_relinked parent child).touches
  | detach parent child => exact .edit (s.tree.detach_relinked parent child).touches
  | rename id name => exact .edit (s.tree.touches_editNode id fun _ => .of_kind rfl rfl rfl rfl)
  | move id position => exact .edit (s.tree.touches_editNode id fun _ => .of_kind rfl rfl rfl rfl)
  | setAlwaysCheck id alwaysCheck =>
    exact .edit (s.tree.touches_editNode id fun _ => .of_kind rfl rfl rfl rfl)
  | sortChildren parent => exact .edit (s.tree.sortChildren_relinked parent).touches
  | subscribe id o => exact .edit (s.tree.touches_editNode id fun _ => .of_kind rfl rfl rfl rfl)
  | setOwner agent => exact .edit (s.tree.touches_setOwner agent)
  | subscribeAll _ | setSeed _ | editBlackboard _ => exact .edit (.of_same rfl rfl rfl)
  | tick frame => exact .tick frame
  | elsewhere draws _ _ => exact .touch (.refl s.tree) (s.supply.precedes_skip draws)

/-- An edit of nodes changes nothing else of the tree. -/
theorem step_renewed (s : Session H) (hop : op.OfNodes) : s.tree.Renewed (s.step op).1.tree := by
  cases op with
  | create name =>
    change s.tree.Renewed ((s.tree.create? name s.supply).1.elim s.tree (·.2))
    cases hk : s.tree.registry.create? name with
    | none =>
      simp only [Tree.create?, hk]
      exact .refl s.tree
    | some k =>
      simp only [Tree.create?, hk]
      exact s.tree.insert_renewed _
  | add kind => exact s.tree.insert_renewed _
  | delete id =>
    change s.tree.Renewed ((s.tree.delete? id s.supply).1.getD s.tree)
    by_cases hid : s.tree.contains id
    · simp only [Tree.delete?, if_pos hid]
      obtain ⟨nodes, root, hrest⟩ := (s.tree.without id).ensureRoot_renewed s.supply
      exact ⟨nodes, root, hrest⟩
    · simp only [Tree.delete?, if_neg hid]
      exact .refl s.tree
  | attach parent child => exact (s.tree.attach_relinked parent child).renewed
  | detach parent child => exact (s.tree.detach_relinked parent child).renewed
  | sortChildren parent => exact (s.tree.sortChildren_relinked parent).renewed
  | rename id _ | move id _ | setAlwaysCheck id _ | subscribe id _ =>
    exact s.tree.editNode_renewed id _
  | subscribeAll _ | setOwner _ | setSeed _ | editBlackboard _ | tick _ | elsewhere _ _ _ =>
    exact hop.elim

/-- What has been drawn stays drawn. -/
theorem Effect.precedes (h : s.Effect op s' τ) : s.supply.Precedes s'.supply := by
  cases h with
  | tick frame => exact .refl s.supply
  | touch _ precedes => exact precedes
  | insert n _ _ _ _ supply => exact supply ▸ s.supply.precedes_draw
  | delete id _ supply => exact supply ▸ (s.tree.without id).ensureRoot_precedes s.supply

theorem run_precedes (s : Session H) (ops : List (Operation H)) :
    s.supply.Precedes (s.run ops).1.supply := by
  induction ops generalizing s with
  | nil => exact .refl s.supply
  | cons op ops ih => exact (s.step_effect op).precedes.trans (ih (s.step op).1)

/-- Nothing replaces the registry that a tree was made with. -/
theorem Effect.registry (h : s.Effect op s' τ) : s'.tree.registry = s.tree.registry := by
  cases h with
  | tick frame => rfl
  | touch touches _ => exact touches.registry
  | insert n _ _ _ tree _ => exact tree ▸ s.tree.insert_registry n
  | delete id tree _ => exact tree ▸ (s.tree.without id).ensureRoot_registry s.supply

end Session

end BehaviourTree
