import BehaviourTree.Proofs.Lifecycle
import BehaviourTree.Proofs.Structure
import BehaviourTree.Proofs.Upholding

/-!
Whose nodes are whose: a node carries the blackboard and the owner of its tree, unless it was passed
over when the tree was handed to its owner.
-/

namespace BehaviourTree

variable {H : Host} {registry : Registry H} {limit : Nat}

/-- The operation does not put another blackboard in the place of the tree's. -/
def Operation.KeepsBoard : Operation H → Prop
  | .editBlackboard f => ∀ b, (f b).id = b.id
  | _ => True

/-- When the tree was last handed to an agent, the node was there and out of reach. -/
def PassedOver (registry : Registry H) (limit : Nat) (s : Session H) (id : NodeId) : Prop :=
  ∃ s₀ τ₀ agent later, Reached registry Operation.KeepsBoard limit s₀ τ₀ ∧
    (∀ op ∈ later, op.KeepsBoard ∧ ∀ a, op ≠ .setOwner a) ∧
    s = ((s₀.step (.setOwner agent)).1.run later).1 ∧
    id ∈ s₀.tree.ids ∧ id ∉ s₀.tree.reachable

namespace Tree

variable {t t' : Tree H} {passed passed' : NodeId → Prop}

/-- Every node is on the blackboard of the tree, and belongs to the owner of the tree unless it was
passed over. -/
def Marked (passed : NodeId → Prop) (t : Tree H) : Prop :=
  ∀ n ∈ t.nodes, n.blackboard = some t.blackboard.id ∧ (n.owner = t.owner ∨ passed n.id)

theorem Marked.mono (h : t.Marked passed) (hpassed : ∀ id, passed id → passed' id) :
    t.Marked passed' :=
  fun n hn => ⟨(h n hn).1, (h n hn).2.imp_right (hpassed n.id)⟩

/-- It is enough that each node was there with the same marks, or has the marks of the tree. -/
theorem Marked.descend (h : t.Marked passed) (hboard : t'.blackboard.id = t.blackboard.id)
    (howner : t'.owner = t.owner)
    (hnodes : ∀ n' ∈ t'.nodes,
      (∃ n ∈ t.nodes, n'.id = n.id ∧ n'.owner = n.owner ∧ n'.blackboard = n.blackboard) ∨
        n'.owner = t.owner ∧ n'.blackboard = some t.blackboard.id) : t'.Marked passed := by
  intro n' hn'
  rw [hboard, howner]
  rcases hnodes n' hn' with ⟨n, hn, hid, hsame, hon⟩ | ⟨hmine, hon⟩
  · rw [hid, hsame, hon]
    exact h n hn
  · exact ⟨hon, Or.inl hmine⟩

theorem Marked.editNode (h : t.Marked passed) (id : NodeId) {f : Node H → Node H}
    (hf : ∀ n : Node H, (f n).id = n.id ∧ (f n).owner = n.owner ∧ (f n).blackboard = n.blackboard) :
    ((t.editNode? id f).getD t).Marked passed := by
  unfold editNode?
  split
  · refine h.descend rfl rfl fun n' hn' => Or.inl ?_
    obtain ⟨n, hn, rfl⟩ := List.mem_map.mp hn'
    split
    · exact ⟨n, hn, hf n⟩
    · exact ⟨n, hn, rfl, rfl, rfl⟩
  · exact h

theorem Marked.relinked (h : t.Marked passed) (hrelinked : t.Relinked t') : t'.Marked passed := by
  rcases hrelinked with rfl | ⟨id, cs, rfl⟩
  · exact h
  · exact h.editNode id fun _ => ⟨rfl, rfl, rfl⟩

theorem insert_marks (t : Tree H) (n : Node H) :
    (t.insert n).blackboard = t.blackboard ∧ (t.insert n).owner = t.owner := by
  unfold insert
  split
  · exact ⟨rfl, rfl⟩
  · exact ⟨rfl, rfl⟩

theorem Marked.insert (h : t.Marked passed) {n : Node H} (howner : n.owner = t.owner)
    (hboard : n.blackboard = some t.blackboard.id) : (t.insert n).Marked passed := by
  obtain ⟨hsameBoard, hsameOwner⟩ := t.insert_marks n
  refine h.descend (congrArg Blackboard.id hsameBoard) hsameOwner fun m hm => ?_
  rcases mem_of_insert hm with rfl | hold
  · exact Or.inr ⟨howner, hboard⟩
  · exact Or.inl ⟨m, hold, rfl, rfl, rfl⟩

theorem Marked.ensureRoot (h : t.Marked passed) (supply : IdSupply) :
    (t.ensureRoot supply).1.Marked passed := by
  by_cases hlive : t.contains t.root
  · rw [ensureRoot_of_live hlive]
    exact h
  · rw [ensureRoot_of_gone hlive]
    exact h.insert rfl rfl

theorem Marked.tick (h : t.Marked passed)
    (hleaves : ∀ c b, H.Upholds (fun board _ => board.id = b) c) (frame : TickContext)
    (world : H.World) (audience : H.Audience) :
    (t.tick frame world audience).tree.Marked passed := by
  let I (board : Blackboard H.Value) (_ : H.World) : Prop := board.id = t.blackboard.id
  have hupheld : ∀ n ∈ t.nodes, H.Upholds I ⟨frame, n.id, n.owner⟩ := fun n _ => hleaves _ _
  obtain ⟨hboard, hnodes⟩ := t.tick_upholds frame world audience hupheld rfl
  refine h.descend hboard rfl fun n' hn' => Or.inl ?_
  obtain ⟨n, hn, hprofile⟩ := hnodes n' hn'
  exact ⟨n, hn, congrArg Profile.id hprofile, congrArg Profile.owner hprofile,
    congrArg Profile.blackboard hprofile⟩

/-- Who cannot be reached when the tree is handed over is passed over. -/
theorem Marked.setOwner (h : t.Marked passed) (agent : AgentHandle) :
    (t.setOwner agent).Marked fun id => id ∈ t.ids ∧ id ∉ t.reachable := by
  intro n' hn'
  obtain ⟨n, hn, rfl⟩ := List.mem_map.mp hn'
  split
  · exact ⟨rfl, Or.inl rfl⟩
  · next hout => exact ⟨(h n hn).1, Or.inr ⟨List.mem_map_of_mem hn, hout⟩⟩

/-- A tree without an owner has nobody's nodes. -/
theorem marked_of_unowned (howner : t.owner = none) (h : ∀ n ∈ t.nodes,
    n.owner = none ∧ n.blackboard = some t.blackboard.id) : t.Marked fun _ => False :=
  fun n hn => ⟨(h n hn).2, Or.inl ((h n hn).1.trans howner.symm)⟩

/-- All nodes of a tree that an author has described, or of one that is a copy, are nobody's. -/
theorem planted_marked {nodes : List (Node H)} (h : ∀ n ∈ nodes, n.owner = none)
    (board : BlackboardId) (root : NodeId) :
    (planted registry nodes board root).Marked fun _ => False := by
  refine marked_of_unowned rfl fun n' hn' => ?_
  obtain ⟨n, hn, rfl⟩ := List.mem_map.mp hn'
  exact ⟨h n hn, rfl⟩

theorem ofNodes_marked {nodes : List (Node H)} (h : ∀ n ∈ nodes, n.owner = none)
    (root : Option NodeId) (supply : IdSupply) :
    (ofNodes registry nodes root supply).1.Marked fun _ => False := by
  obtain ⟨id, later, hrun, -⟩ := ofNodes_spec registry nodes root supply
  rw [hrun]
  exact (planted_marked h _ id).ensureRoot later

theorem ofTemplateVia_marked {visit : List NodeId → List NodeId}
    (hvisit : ∀ ids, (visit ids).Perm ids) {a : TreeTemplate} {supply supply' : IdSupply}
    (h : ofTemplateVia visit registry a supply = (.ok t, supply')) : t.Marked fun _ => False := by
  obtain ⟨nodes, root, hcheck, hrun⟩ := ofTemplateVia_ok h
  obtain ⟨-, -, hnodes, -⟩ := (TreeTemplate.check_ok_iff hvisit).mp hcheck
  obtain ⟨hbuilt, -, -⟩ := TreeTemplate.buildNodes_ok hnodes
  have howner : ∀ n ∈ nodes, n.owner = none := by
    intro n hn
    obtain ⟨a, -, hnode⟩ := exists_of_mem_right hbuilt hn
    obtain ⟨k, -, -, -, rfl⟩ := TreeTemplate.buildNode_ok_iff.mp hnode
    rfl
  have hmarked : (ofNodes registry nodes root supply).1.Marked fun _ => False :=
    ofNodes_marked howner root supply
  rwa [hrun] at hmarked

theorem instantiate_marked (t : Tree H) (supply : IdSupply) :
    (t.instantiate supply).1.Marked fun _ => False := by
  let drawn := t.reachable.mapM mintBeside supply
  let board : BlackboardId := ⟨drawn.2.draw.1⟩
  let nodes := t.traverse.mapM (copyNode drawn.1 board) drawn.2.draw.2
  let named := followCopy drawn.1 t.root nodes.2
  let copy : Tree H := ⟨named.1, nodes.1, .empty board, none, t.registry, t.seed,
    choiceRng t.seed none, .running, []⟩
  have hcopies : ∀ n ∈ nodes.1, n.owner = none ∧ n.blackboard = some board := by
    refine mapM_forall (Q := fun n : Node H => n.owner = none ∧ n.blackboard = some board) ?_ _ _
    exact fun _ _ => ⟨rfl, rfl⟩
  have hcopy : copy.Marked fun _ => False := marked_of_unowned rfl hcopies
  exact hcopy.ensureRoot named.2

end Tree

namespace Session

/-- What no operation but a change of hands can do is to tear a node from its owner. -/
theorem step_marked {s : Session H} {passed : NodeId → Prop}
    (hleaves : ∀ c b, H.Upholds (fun board _ => board.id = b) c) {op : Operation H}
    (hop : op.KeepsBoard) (hother : ∀ a, op ≠ .setOwner a) (h : s.tree.Marked passed) :
    (s.step op).1.tree.Marked passed := by
  cases op with
  | create name =>
    change ((s.tree.create? name s.supply).1.elim s.tree (·.2)).Marked passed
    cases hk : s.tree.registry.create? name with
    | none =>
      simp only [Tree.create?, hk]
      exact h
    | some k =>
      simp only [Tree.create?, hk]
      exact h.insert rfl rfl
  | add kind => exact h.insert rfl rfl
  | delete id =>
    change ((s.tree.delete? id s.supply).1.getD s.tree).Marked passed
    by_cases hid : s.tree.contains id
    · simp only [Tree.delete?, if_pos hid]
      have hrest : Tree.Marked passed (s.tree.without id) :=
        h.descend rfl rfl fun n hn => Or.inl ⟨n, List.mem_of_mem_filter hn, rfl, rfl, rfl⟩
      exact hrest.ensureRoot s.supply
    · simp only [Tree.delete?, if_neg hid]
      exact h
  | attach parent child => exact h.relinked (s.tree.attach_relinked parent child)
  | detach parent child => exact h.relinked (s.tree.detach_relinked parent child)
  | sortChildren parent => exact h.relinked (s.tree.sortChildren_relinked parent)
  | rename id _ | move id _ | setAlwaysCheck id _ | subscribe id _ =>
    exact h.editNode id fun _ => ⟨rfl, rfl, rfl⟩
  | subscribeAll _ | setSeed _ => exact h
  | editBlackboard f =>
    exact h.descend (hop s.tree.blackboard) rfl fun n hn => Or.inl ⟨n, hn, rfl, rfl, rfl⟩
  | setOwner agent => exact absurd rfl (hother agent)
  | tick frame => exact h.tick hleaves frame s.world s.audience
  | elsewhere _ _ _ => exact h

theorem run_concat (s : Session H) (ops : List (Operation H)) (op : Operation H) :
    (s.run (ops ++ [op])).1 = ((s.run ops).1.step op).1 := by
  induction ops generalizing s with
  | nil => rfl
  | cons first ops ih => exact ih (s.step first).1

end Session

/-- Who was passed over stays so until the tree changes hands again. -/
theorem PassedOver.step {s : Session H} {id : NodeId} (h : PassedOver registry limit s id)
    {op : Operation H} (hop : op.KeepsBoard) (hother : ∀ a, op ≠ .setOwner a) :
    PassedOver registry limit (s.step op).1 id := by
  obtain ⟨s₀, τ₀, agent, later, hreached, hlater, rfl, hlive, hout⟩ := h
  refine ⟨s₀, τ₀, agent, later ++ [op], hreached, ?_, ?_, hlive, hout⟩
  · exact List.forall_mem_append.mpr ⟨hlater, by simpa using ⟨hop, hother⟩⟩
  · exact (Session.run_concat _ later op).symm

theorem Reached.marked {s : Session H} {τ : Trace H}
    (hleaves : ∀ c b, H.Upholds (fun board _ => board.id = b) c)
    (h : Reached registry Operation.KeepsBoard limit s τ) :
    s.tree.Marked (PassedOver registry limit s) := by
  induction h with
  | new _ _ _ => exact (Tree.ofNodes_marked (by simp) none _).mono fun _ => False.elim
  | ofTemplate _ hvisit built _ _ =>
    exact (Tree.ofTemplateVia_marked hvisit built).mono fun _ => False.elim
  | @instantiate s _ _ _ => exact (s.tree.instantiate_marked s.supply).mono fun _ => False.elim
  | @step s τ op reached isAllowed ih =>
    by_cases howner : ∃ agent, op = .setOwner agent
    · obtain ⟨agent, rfl⟩ := howner
      refine (ih.setOwner agent).mono fun id hid => ?_
      exact ⟨s, τ, agent, [], reached, by simp, rfl, hid⟩
    · have hother : ∀ a, op ≠ .setOwner a := fun a ha => howner ⟨a, ha⟩
      refine (Session.step_marked hleaves isAllowed hother ih).mono fun id hid => ?_
      exact hid.step isAllowed hother

/-- Where leaves and edits leave a tree the blackboard that it has, all its nodes are on that, in
every state that the tree can come to. They belong to the owner of the tree, but for nodes that were
there and out of reach when the tree was last handed to an agent: those keep the owner that they
had, wherever they are attached later. In a tick, leaves are called for no other owner: a fact about
the blackboard and the world holds after it if the leaves uphold it in every context with the owner
of the tree or with a node that was passed over. -/
theorem nodes_carry_owner {s : Session H} {τ : Trace H}
    (hleaves : ∀ c b, H.Upholds (fun board _ => board.id = b) c)
    (h : Reached registry Operation.KeepsBoard limit s τ) :
    (∀ n ∈ s.tree.nodes, n.blackboard = some s.tree.blackboard.id ∧
      (n.owner = s.tree.owner ∨ PassedOver registry limit s n.id)) ∧
    ∀ (frame : TickContext) (I : Blackboard H.Value → H.World → Prop),
      (∀ c : LeafContext, c.frame = frame →
        (c.owner = s.tree.owner ∨ PassedOver registry limit s c.node) → H.Upholds I c) →
      I s.tree.blackboard s.world →
      let r := s.tree.tick frame s.world s.audience
      I r.tree.blackboard r.world := by
  have hmarked := h.marked hleaves
  refine ⟨hmarked, fun frame I hupholds hbefore => ?_⟩
  have hnodes : ∀ n ∈ s.tree.nodes, H.Upholds I ⟨frame, n.id, n.owner⟩ :=
    fun n hn => hupholds _ rfl (hmarked n hn).2
  exact (s.tree.tick_upholds frame s.world s.audience hnodes hbefore).1

/-! ### Trees that change hands -/

theorem Blackboard.set_id {ι : Type} [DecidableEq ι] {V : ι → Type} {b b' : Blackboard V}
    {key : String} {type : ι} {v : V type} (h : b.set key type v = .ok b') : b'.id = b.id := by
  unfold set at h
  split at h
  · split at h
    · rw [← Except.ok.inj h]
    · simp at h
  · rw [← Except.ok.inj h]

namespace Demo

variable {ι : Type} {V : ι → Type}

theorem Action.update_blackboard (c : LeafContext) (a : Action) (s : Shared V TeamBoards) :
    (a.update c s).shared.blackboard = s.blackboard := by
  cases a with
  | succeed | fail => rfl
  | wait ticks remaining =>
    by_cases hdone : remaining = 0
    · simp only [Action.update, if_pos hdone]
      rfl
    · simp only [Action.update, if_neg hdone]
      rfl
  | report team =>
    cases howner : c.owner with
    | none =>
      simp only [Action.update, howner]
      rfl
    | some owner => simp only [Action.update, howner]

theorem Condition.check_board [DecidableEq ι] (flag : FlagType V) (context : LeafContext)
    (c : Condition) (s : Shared V TeamBoards) :
    (c.check flag context s).shared.blackboard.id = s.blackboard.id := by
  cases c with
  | toggle =>
    unfold Condition.check
    dsimp only
    split
    next hset => exact Blackboard.set_id hset
    next => rfl

/-- The ready-made leaves leave a tree the blackboard that it has. -/
theorem host_keeps_board [DecidableEq ι] (flag : FlagType V) (c : LeafContext) (b : BlackboardId) :
    (host flag).Upholds (fun board _ => board.id = b) c := by
  refine ⟨fun a s h => ?_, fun a s h => ?_, fun _ _ h => h, fun a s h => ?_⟩
  · cases a <;> exact h
  · exact (congrArg Blackboard.id (Action.update_blackboard c a s)).trans h
  · exact (Condition.check_board flag c a s).trans h

end Demo

/-- A leaf is made, the tree is handed to an agent, and then the leaf is attached. -/
def Demo.adoption : List (Operation Demo.smallHost) :=
  [.add (.action (Demo.Action.report 0)), .setOwner ⟨7⟩, .attach (.ofNat 2) (.ofNat 3)]

theorem Demo.adoption_reached :
    Reached .builtin Operation.KeepsBoard (2^128) (sapling.run adoption).1
      (sapling.run adoption).2 := by
  have hnew : Reached .builtin Operation.KeepsBoard (2^128) sapling [] :=
    Reached.new (H := smallHost) counted_fresh _ _
  have hops : ∀ op ∈ adoption, op.KeepsBoard := by
    simp [adoption, Operation.KeepsBoard]
  exact hnew.run hops

/-- The leaf is on the blackboard of the tree, but it was passed over. -/
theorem nodes_carry_owner_adoption :
    let s := (Demo.sapling.run Demo.adoption).1
    s.tree.reachable = [.ofNat 2, .ofNat 3] ∧
      (∀ n ∈ s.tree.nodes, n.blackboard = some s.tree.blackboard.id) ∧
      PassedOver .builtin (2^128) s (.ofNat 3) := by
  intro s
  obtain ⟨hnodes, -⟩ :=
    nodes_carry_owner (Demo.host_keeps_board Demo.flagsOnly) Demo.adoption_reached
  refine ⟨by decide +kernel, fun n hn => (hnodes n hn).1, ?_⟩
  obtain ⟨n, hn, hid, howner⟩ :
      ∃ n ∈ s.tree.nodes, n.id = .ofNat 3 ∧ n.owner ≠ s.tree.owner := by decide +kernel
  exact hid ▸ (hnodes n hn).2.resolve_left howner

/-- A node that is reachable and not its tree's owner's. -/
theorem reachable_node_of_nobody :
    ¬ ∀ (s : Session Demo.smallHost) (τ : Trace Demo.smallHost),
      Reached .builtin Operation.KeepsBoard (2^128) s τ →
      ∀ n ∈ s.tree.traverse, n.owner = s.tree.owner := by
  intro hclaim
  have hall := hclaim _ _ Demo.adoption_reached
  revert hall
  decide +kernel

end BehaviourTree
