import BehaviourTree.Proofs.InstanceForm

/-!
Trees that have not been ticked yet. Whatever else has been done to such a tree, no node of it has
been entered.
-/

namespace BehaviourTree

open Ticking

variable {H : Host} {registry : Registry H} {allowed : Operation H → Prop} {limit : Nat}

/-- A kind as its constructor makes it: it remembers nothing of its children. -/
def NodeKind.Unentered (k : NodeKind H) : Prop := k.memory = ([], 0, none)

def Node.Unentered (n : Node H) : Prop := n.kind.Unentered ∧ n.running = false

def Registry.Unentered (r : Registry H) : Prop := ∀ name k, r.create? name = some k → k.Unentered

/-- Whoever brings a kind brings one that was never entered. -/
def Operation.Unentered : Operation H → Prop
  | .add kind => kind.Unentered
  | _ => True

namespace NodeKind

theorem memory_setLinks (k : NodeKind H) (cs : List NodeId) :
    (k.setLinks cs).memory = k.memory := by
  cases k <;> rfl

theorem unentered_of_root {k : NodeKind H} (h : k.nodeType = .root) : k.Unentered := by
  cases k with
  | root _ => rfl
  | action _ | condition _ | repeater _ | sequence _ | selector _ | parallel _
  | randomChoice _ _ => cases h

theorem guards_eq (k : NodeKind H) : k.guards = k.memory.1 := by
  cases k <;> rfl

theorem pinned_eq (k : NodeKind H) : k.pinned? = k.memory.2.2 := by
  cases k <;> rfl

theorem Unentered.guards {k : NodeKind H} (h : k.Unentered) : k.guards = [] := by
  rw [guards_eq, h]

theorem Unentered.pinned {k : NodeKind H} (h : k.Unentered) : k.pinned? = none := by
  rw [pinned_eq, h]

end NodeKind

theorem Registry.Unentered.register {r : Registry H} (h : r.Unentered) {name : String}
    {kind : NodeKind H} (hkind : kind.Unentered) : (r.register name kind).Unentered := by
  intro other k hk
  rcases create?_register hk with ⟨-, rfl⟩ | hbefore
  · exact hkind
  · exact h other k hbefore

/-! ### How trees come about -/

namespace Tree

theorem ensureRoot_unentered {t : Tree H} (h : ∀ n ∈ t.nodes, n.Unentered) (supply : IdSupply) :
    ∀ n ∈ (t.ensureRoot supply).1.nodes, n.Unentered := by
  rcases t.ensureRoot_spec supply with ⟨-, hrun⟩ | ⟨root, -, -, htype, -, hidle, hrun⟩
  · rw [hrun]
    exact h
  · rw [hrun]
    intro n hn
    rcases mem_of_insert hn with rfl | hn
    · exact ⟨NodeKind.unentered_of_root htype, hidle⟩
    · exact h n hn

theorem ofNodes_unentered {nodes : List (Node H)} (h : ∀ n ∈ nodes, n.Unentered)
    (root : Option NodeId) (supply : IdSupply) :
    ∀ n ∈ (ofNodes registry nodes root supply).1.nodes, n.Unentered := by
  obtain ⟨id, later, hrun, -⟩ := ofNodes_spec registry nodes root supply
  rw [hrun]
  refine ensureRoot_unentered (fun n hn => ?_) later
  obtain ⟨m, hm, rfl⟩ := List.mem_map.mp hn
  exact h m hm

end Tree

/-- What is built of a prototype remembers what the prototype does. -/
theorem TreeTemplate.check_unentered (hkinds : registry.Unentered)
    {visit : List NodeId → List NodeId} {a : TreeTemplate} {nodes : List (Node H)}
    {root : Option NodeId} (h : a.check visit registry = .ok (nodes, root)) :
    ∀ n ∈ nodes, n.Unentered := by
  obtain ⟨_, -, h⟩ := bind_ok_iff.mp h
  obtain ⟨built, hbuilt, h⟩ := bind_ok_iff.mp h
  have hnodes : built = nodes := by
    split at h
    · cases h
    · exact congrArg Prod.fst (Except.ok.inj h)
  subst hnodes
  intro n hn
  obtain ⟨b, -, hnode⟩ := exists_of_mem_right (buildNodes_ok hbuilt).1 hn
  obtain ⟨k, hk, -, -, rfl⟩ := buildNode_ok_iff.mp hnode
  have hproto : k.Unentered := by
    unfold kindOf at hk
    split at hk
    · exact Except.ok.inj hk ▸ rfl
    · split at hk
      · next hcreate => exact Except.ok.inj hk ▸ hkinds _ _ hcreate
      · cases hk
  refine ⟨?_, rfl⟩
  change (linkKind b k).memory = _
  unfold linkKind
  split
  · exact hproto
  · rw [NodeKind.memory_setLinks, hproto]
  · rw [NodeKind.memory_setLinks, hproto]

namespace Tree

theorem ofTemplateVia_unentered (hkinds : registry.Unentered)
    {visit : List NodeId → List NodeId} {a : TreeTemplate} {supply supply' : IdSupply} {t : Tree H}
    (built : ofTemplateVia visit registry a supply = (.ok t, supply')) :
    ∀ n ∈ t.nodes, n.Unentered := by
  obtain ⟨nodes, root, hcheck, hbuilt⟩ := ofTemplateVia_ok built
  have hall : ∀ n ∈ (ofNodes registry nodes root supply).1.nodes, n.Unentered :=
    ofNodes_unentered (TreeTemplate.check_unentered hkinds hcheck) root supply
  rwa [hbuilt] at hall

/-- Whatever has become of a tree, its copies begin anew. -/
theorem instantiate_unentered (t : Tree H) (supply : IdSupply) :
    ∀ n ∈ (t.instantiate supply).1.nodes, n.Unentered := by
  let drawn := t.reachable.mapM mintBeside supply
  let board : BlackboardId := ⟨drawn.2.draw.1⟩
  let nodes := t.traverse.mapM (copyNode drawn.1 board) drawn.2.draw.2
  let named := followCopy drawn.1 t.root nodes.2
  let copy : Tree H := ⟨named.1, nodes.1, .empty board, none, t.registry, t.seed,
    choiceRng t.seed none, .running, []⟩
  have hcopies : ∀ n ∈ copy.nodes, n.Unentered := by
    refine mapM_forall (Q := fun n : Node H => n.Unentered) (fun n _ => ?_) _ _
    exact ⟨NodeKind.memory_authored n.kind _, rfl⟩
  exact ensureRoot_unentered hcopies named.2

end Tree

/-! ### What is done to them -/

theorem updateNode_trace_ne_nil (frame : TickContext) (depth : Nat) (path : List NodeId)
    (id : NodeId) (s : Stage H) : (updateNode frame depth path id s).trace ≠ [] := by
  cases depth with
  | zero => simp [updateNode, asking]
  | succ depth => simp [updateNode, updateStep, asking]

theorem Session.Effect.unentered {s s' : Session H} {op : Operation H}
    (he : s.Effect op s' []) (hop : op.Unentered) (hkinds : s.tree.registry.Unentered)
    (h : ∀ n ∈ s.tree.nodes, n.Unentered) : ∀ n ∈ s'.tree.nodes, n.Unentered := by
  generalize hτ : ([] : Trace H) = τ at he
  cases he with
  | tick frame => exact absurd hτ.symm (updateNode_trace_ne_nil frame _ _ _ _)
  | touch touches _ =>
    obtain ⟨f, hnodes, hf⟩ := touches.nodes
    rw [hnodes]
    intro n' hn'
    obtain ⟨n, hn, rfl⟩ := List.mem_map.mp hn'
    obtain ⟨cs, hkind⟩ := (hf n).kind
    refine ⟨?_, (hf n).running.trans (h n hn).2⟩
    rw [hkind, NodeKind.Unentered, NodeKind.memory_setLinks]
    exact (h n hn).1
  | insert n _ idle made tree _ =>
    rw [tree]
    intro m hm
    rcases Tree.mem_of_insert hm with rfl | hold
    · refine ⟨?_, idle⟩
      cases made with
      | create _ registered => exact hkinds _ _ registered
      | add _ given => exact given ▸ hop
    · exact h m hold
  | delete gone tree _ =>
    rw [tree]
    exact Tree.ensureRoot_unentered (fun n hn => h n (List.mem_of_mem_filter hn)) s.supply

theorem Reached.registry_eq {s : Session H} {τ : Trace H}
    (h : Reached registry allowed limit s τ) : s.tree.registry = registry := by
  induction h with
  | new _ _ _ => exact Tree.ofNodes_registry _ _ _ _
  | ofTemplate _ _ built _ _ => exact Tree.ofTemplateVia_registry built
  | instantiate _ ih => exact (Tree.ensureRoot_registry _ _).trans ih
  | @step s _ op _ _ ih => exact (s.step_effect op).registry.trans ih

/-- As long as nothing has happened in a tick, no node of a tree has been entered. -/
theorem Reached.unentered (hkinds : registry.Unentered) (hallowed : ∀ op, allowed op → op.Unentered)
    {s : Session H} (h : Reached registry allowed limit s []) :
    ∀ n ∈ s.tree.nodes, n.Unentered := by
  generalize hτ : ([] : Trace H) = τ at h
  induction h with
  | new _ _ _ => exact Tree.ofNodes_unentered (by simp) none _
  | ofTemplate _ _ built _ _ => exact Tree.ofTemplateVia_unentered hkinds built
  | @instantiate s _ _ _ => exact s.tree.instantiate_unentered s.supply
  | @step s _ op reached isAllowed ih =>
    obtain ⟨hbefore, hstep⟩ := List.append_eq_nil_iff.mp hτ.symm
    have he := s.step_effect op
    rw [hstep] at he
    exact he.unentered (hallowed op isAllowed) (reached.registry_eq ▸ hkinds) (ih hbefore.symm)

end BehaviourTree
