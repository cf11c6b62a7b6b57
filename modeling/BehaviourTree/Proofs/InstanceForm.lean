import BehaviourTree.Proofs.InstanceRuns
import BehaviourTree.Proofs.Reload

/-!
What an instance is: the reachable nodes as they were authored, one by one and in the order in which
they are met, under new identifiers and with nothing of a run.
-/

namespace BehaviourTree

variable {H : Host}

/-! ### What makes an instance -/

/-- What a node remembers of its children from one tick to the next: those that it polls, whose turn
it is, and which one was drawn. -/
def NodeKind.memory : NodeKind H → List NodeId × Nat × Option NodeId
  | sequence s | selector s => (s.guards, s.current, none)
  | randomChoice _ selected => ([], 0, selected)
  | root _ | repeater _ | action _ | condition _ | parallel _ => ([], 0, none)

theorem NodeKind.memory_authored (k : NodeKind H) (cs : List NodeId) :
    (k.authored.setLinks cs).memory = ([], 0, none) := by
  cases k <;> rfl

/-- One node is another under a new identifier and before anything happened to it: in the place of
each link there is one to the copy of the child, or one that leads nowhere where the old one does. -/
structure Node.CopyIn (t t' : Tree H) (copy : NodeId → NodeId) (n n' : Node H) : Prop where
  id : n'.id = copy n.id
  links : List.Forall₂ (fun c c' => c ∈ t.ids ∧ c' ∈ t'.ids ∧ c' = copy c ∨ c ∉ t.ids ∧ c' ∉ t'.ids)
    n.links n'.links
  apart : (∀ c ∈ n.links, c ∉ t'.ids) ∧ ∀ c' ∈ n'.links, c' ∉ t.ids
  running : n'.running = false
  owner : n'.owner = none
  observers : n'.observers = []
  memory : n'.kind.memory = ([], 0, none)
  blackboard : n'.blackboard = some t'.blackboard.id

/-- One tree is made of what was authored of the reachable nodes of another. -/
structure Tree.AuthoredCopy (t t' : Tree H) (copy : NodeId → NodeId) : Prop where
  distinct : t'.ids.Nodup
  apart : ∀ id ∈ t'.ids, id ∉ t.ids
  created : t'.ids = t.reachable.map copy
  reached : t'.reachable = t.reachable.map copy
  template : t'.toTemplate.nodes = t.traverse.map t.authorNode
  nodes : List.Forall₂ (Node.CopyIn t t' copy) t.traverse t'.nodes
  root : t'.root = copy t.root
  blackboard : t'.blackboard.isEmpty ∧ t'.blackboard.id ≠ t.blackboard.id
  seed : t'.seed = t.seed
  rng : t'.rng = Tree.choiceRng t.seed none
  owner : t'.owner = none
  observers : t'.observers = []

/-! ### The walk over an instance -/

namespace Tree

variable {t t' : Tree H} {supply start : IdSupply} {limit : Nat} {used : Uuid → Prop}
  {copies : List (NodeId × NodeId)}

namespace CopiedBy

variable (h : CopiedBy copies start limit used t t' supply)

include h

/-- Side by side, two walks meet originals and their copies, if each has a step for every link that
is still to be followed. -/
theorem walk_together {steps steps' : Nat} {stack stack' seen seen' : List NodeId}
    (hstack : List.Forall₂ h.pairing.Links stack stack')
    (hseen : List.Forall₂ h.pairing.twins seen seen')
    (hsteps : stack.length+t.unmet seen ≤ steps)
    (hsteps' : stack'.length+t'.unmet seen' ≤ steps') :
    List.Forall₂ h.pairing.twins (t.walk steps stack seen) (t'.walk steps' stack' seen') := by
  induction steps generalizing steps' stack stack' seen seen' with
  | zero =>
    obtain rfl : stack = [] := List.eq_nil_of_length_eq_zero (by omega)
    cases hstack
    rw [walk_nil, walk_nil]
    exact List.forall₂_reverse_iff.mpr hseen
  | succ steps ih =>
    cases hstack with
    | nil =>
      rw [walk_nil, walk_nil]
      exact List.forall₂_reverse_iff.mpr hseen
    | @cons c c' stack stack' hlink hrest =>
      rw [List.length_cons] at hsteps hsteps'
      obtain ⟨steps', rfl⟩ := Nat.exists_eq_add_one_of_ne_zero (show steps' ≠ 0 by omega)
      rcases hlink with hcopied | ⟨hgone, hgone'⟩
      · obtain ⟨n, n', hn, hn', hcopy⟩ := h.copied hcopied
        have hmet : c ∈ seen ↔ c' ∈ seen' :=
          Pairing.mem_iff (hseen.imp fun _ _ htwins => Or.inl htwins) hcopied
        rw [walk, walk, hn, hn']
        dsimp only
        by_cases hold : c ∈ seen
        · rw [if_pos hold, if_pos (hmet.mp hold)]
          exact ih hrest hseen (by omega) (by omega)
        · have hold' : c' ∉ seen' := mt hmet.mpr hold
          have hcount := unmet_cons hn hold
          have hcount' := unmet_cons hn' hold'
          rw [if_neg hold, if_neg hold']
          refine ih (List.rel_append (h.links_together hn hcopied hcopy) hrest)
            (.cons hcopied hseen) ?_ ?_
          · rw [List.length_append]
            omega
          · rw [List.length_append]
            omega
      · rw [walk_gone hgone, walk_gone hgone']
        exact ih hrest hseen (by omega) (by omega)

theorem reachable_together : List.Forall₂ h.pairing.twins t.reachable t'.reachable := by
  have hsteps (t : Tree H) : [t.root].length+t.unmet [] ≤ t.linkCount+1 := by
    rw [unmet_nil, List.length_singleton]
    omega
  exact h.walk_together (.cons (Or.inl h.root) .nil) .nil (hsteps t) (hsteps t')

/-! ### The nodes of an instance -/

/-- The copy of a node that has one. -/
def image (copies : List (NodeId × NodeId)) (id : NodeId) : NodeId := (copies.lookup id).getD id

omit h in
theorem image_eq {id id' : NodeId} (hlookup : copies.lookup id = some id') :
    image copies id = id' := by
  rw [image, hlookup, Option.getD_some]

theorem ids_eq : t'.ids = t.reachable.map (image copies) := by
  rw [← t.traverse_ids, List.map_map]
  exact map_eq_of_forall₂ h.nodes fun _ _ hcopy => (image_eq hcopy.id).symm

theorem reachable_eq : t'.reachable = t.reachable.map (image copies) := by
  have hmap := map_eq_of_forall₂ (f := image copies) (g := id) h.reachable_together
    fun _ _ htwins => (image_eq htwins).symm
  rwa [List.map_id] at hmap

/-- A copy lists children with the authored identities of those that its original lists. -/
theorem authorNode_copy {n n' : Node H} (hn : n ∈ t.traverse)
    (hcopy : CopyOf copies (InUse copies used) n n') : t'.authorNode n' = t.authorNode n := by
  have hlinks := h.links_together (node?_of_traverse hn) hcopy.id hcopy
  have hguids : n'.links.map t'.guid? = n.links.map t.guid? := by
    apply map_eq_of_forall₂ hlinks
    rintro c c' (hcopied | ⟨hgone, hgone'⟩)
    · obtain ⟨m, m', hm, hm', hcopy'⟩ := h.copied hcopied
      rw [guid?, guid?, hm, hm', Option.map_some, Option.map_some, hcopy'.guid]
    · rw [guid?, guid?, node?_eq_none hgone, node?_eq_none hgone']
  have hchildren : n'.links.filterMap t'.guid? = n.links.filterMap t.guid? := by
    calc n'.links.filterMap t'.guid?
      _ = (n'.links.map t'.guid?).filterMap id := by rw [List.filterMap_map]; rfl
      _ = (n.links.map t.guid?).filterMap id := by rw [hguids]
      _ = n.links.filterMap t.guid? := by rw [List.filterMap_map]; rfl
  obtain ⟨board, hmade⟩ := hcopy.made
  apply NodeTemplate.ext
  · exact hcopy.guid
  · rw [authorNode, authorNode, hcopy.type, hmade]
    rfl
  · rw [hmade]
    rfl
  · rw [hmade]
    rfl
  · rw [hmade]
    rfl
  · exact hchildren

theorem copy_in (hids : ∀ id ∈ t.ids, used id.uuid)
    (hlinks : ∀ n ∈ t.nodes, ∀ c ∈ n.links, used c.uuid)
    (hboards : ∀ n' ∈ t'.nodes, n'.blackboard = some t'.blackboard.id) {n n' : Node H}
    (hn : n ∈ t.traverse) (hn' : n' ∈ t'.nodes)
    (hcopy : CopyOf copies (InUse copies used) n n') : n.CopyIn t t' (image copies) n' := by
  have htogether := h.links_together (node?_of_traverse hn) hcopy.id hcopy
  obtain ⟨board, hmade⟩ := hcopy.made
  refine ⟨(image_eq hcopy.id).symm, ?_, ⟨?_, ?_⟩, hcopy.idle, ?_, ?_, ?_, hboards n' hn'⟩
  · refine htogether.imp fun c c' hlink => ?_
    rcases hlink with hcopied | hgone
    · obtain ⟨hlive, hlive'⟩ := h.pairing.live hcopied
      exact Or.inl ⟨hlive, hlive', (image_eq hcopied).symm⟩
    · exact Or.inr hgone
  · intro c hc hlive
    exact h.unused c (h.mem_ids hlive) (hlinks n (mem_of_traverse hn) c hc)
  · intro c' hc' hlive
    -- What is in use already could only be the image of a child, and images were not in use.
    obtain ⟨c, -, hlookup⟩ := hcopy.links c' hc' (Or.inl (hids c' hlive))
    exact h.unused c' (List.mem_map_of_mem (mem_of_lookup hlookup)) (hids c' hlive)
  · rw [hmade]
    rfl
  · rw [hmade]
    rfl
  · rw [hmade]
    exact NodeKind.memory_authored n.kind n'.links

end CopiedBy

/-! ### The blackboard of an instance -/

theorem ensureRoot_blackboard (t : Tree H) (supply : IdSupply) :
    (t.ensureRoot supply).1.blackboard = t.blackboard ∧
      ((∀ n ∈ t.nodes, n.blackboard = some t.blackboard.id) →
        ∀ n ∈ (t.ensureRoot supply).1.nodes, n.blackboard = some t.blackboard.id) := by
  by_cases hlive : t.contains t.root
  · rw [ensureRoot_of_live hlive]
    exact ⟨rfl, fun h => h⟩
  · rw [ensureRoot_of_gone hlive]
    refine ⟨?_, fun h n hn => ?_⟩
    · change (t.insert _).blackboard = t.blackboard
      unfold insert
      split <;> rfl
    · rcases mem_of_insert hn with rfl | hold
      · rfl
      · exact h n hold

/-- The nodes of an instance are on its blackboard, which is empty and fresh. -/
theorem instantiate_blackboard (t : Tree H) {supply : IdSupply} {limit : Nat} {used : Uuid → Prop}
    (hfresh : supply.Fresh limit used) (hlimit : (t.instantiate supply).2.drawn ≤ limit) :
    (t.instantiate supply).1.blackboard.isEmpty ∧
      ¬ used (t.instantiate supply).1.blackboard.id.uuid ∧
      ∀ n ∈ (t.instantiate supply).1.nodes,
        n.blackboard = some (t.instantiate supply).1.blackboard.id := by
  let drawn := t.reachable.mapM mintBeside supply
  let board : BlackboardId := ⟨drawn.2.draw.1⟩
  let nodes := t.traverse.mapM (copyNode drawn.1 board) drawn.2.draw.2
  let named := followCopy drawn.1 t.root nodes.2
  let copy : Tree H := ⟨named.1, nodes.1, .empty board, none, t.registry, t.seed,
    choiceRng t.seed none, .running, []⟩
  have hrun : t.instantiate supply = copy.ensureRoot named.2 := rfl
  obtain ⟨hboard, hnodes⟩ := copy.ensureRoot_blackboard named.2
  rw [hrun] at hlimit ⊢
  -- The blackboard is drawn for after the nodes have their identifiers.
  have hlater : drawn.2.draw.2.Precedes (copy.ensureRoot named.2).2 := by
    calc drawn.2.draw.2.Precedes nodes.2 := mapM_precedes (copyNode_precedes drawn.1 board) _ _
      IdSupply.Precedes _ named.2 := followCopy_precedes drawn.1 t.root nodes.2
      IdSupply.Precedes _ (copy.ensureRoot named.2).2 := copy.ensureRoot_precedes named.2
  have hstart : drawn.2.draw.2.drawn ≤ limit := hlater.within hlimit
  obtain ⟨-, -, -, hdrawn⟩ := mintBeside_spec hfresh (drawn.2.precedes_draw.within hstart)
  rw [hboard]
  refine ⟨rfl, fun hused => hdrawn.draw_unused hstart (Or.inl hused), hnodes ?_⟩
  have hcopy : ∀ (n : Node H) s, (copyNode drawn.1 board n s).1.blackboard = some board :=
    fun _ _ => rfl
  exact mapM_forall hcopy t.traverse drawn.2.draw.2

end Tree

/-- An instance of a tree whose root is a node, as that of a tree always is, is made of what was
authored of the reachable nodes, whatever the links of the tree are and whatever has happened to it:
a new node for each in the order of the walk, with as many children as before and links that lead
nowhere in the same places. All this is on a new blackboard and as if nothing had happened yet. -/
theorem instantiate_copies_authored {t : Tree H} (hlive : t.contains t.root) {supply : IdSupply}
    {limit : Nat}
    (hfresh : supply.Fresh limit fun u => uses t.profiles u ∨ t.blackboard.id.uuid = u)
    (hlimit : (t.instantiate supply).2.drawn ≤ limit) :
    ∃ copy, t.AuthoredCopy (t.instantiate supply).1 copy := by
  obtain ⟨copies, start, h⟩ := t.instantiate_copied hlive hfresh hlimit
  obtain ⟨hempty, hboard, hboards⟩ := t.instantiate_blackboard hfresh hlimit
  have hids : ∀ id ∈ t.ids, uses t.profiles id.uuid ∨ t.blackboard.id.uuid = id.uuid :=
    fun id hid => Or.inl (Tree.mem_uses hid)
  have hlinks : ∀ n ∈ t.nodes, ∀ c ∈ n.links,
      uses t.profiles c.uuid ∨ t.blackboard.id.uuid = c.uuid := fun n hn c hc =>
    Or.inl ⟨n.profile, List.mem_map_of_mem hn, Or.inr (Or.inr ⟨c, hc, rfl⟩)⟩
  have hpairs := forall₂_mem h.nodes
  obtain ⟨board, hmade⟩ := h.made
  refine ⟨Tree.CopiedBy.image copies, h.ids_nodup, ?_, h.ids_eq, h.reachable_eq, ?_, ?_, ?_,
    ⟨hempty, ?_⟩, ?_, ?_, ?_, ?_⟩
  · exact fun id hid hmem => h.unused id (h.mem_ids hid) (hids id hmem)
  · exact map_eq_of_forall₂ hpairs fun n n' hcopy => h.authorNode_copy hcopy.1 hcopy.2.2
  · exact hpairs.imp fun n n' hcopy => h.copy_in hids hlinks hboards hcopy.1 hcopy.2.1 hcopy.2.2
  · exact (Tree.CopiedBy.image_eq h.root).symm
  · exact fun hsame => hboard (Or.inr (congrArg BlackboardId.uuid hsame.symm))
  · rw [hmade]
  · rw [hmade]
  · rw [hmade]
  · rw [hmade]

/-- The tree with every kind of bad link while its sequence runs for an agent, beside a node that is
not attached. -/
def Demo.overgrown : Tree Demo.smallHost :=
  { Demo.tangle with
    nodes := [.make (.ofNat 1) "Root" (.root (some (.ofNat 2))),
      .make (.ofNat 5) "Repeater" (.repeater (some (.ofNat 3))),
      { Node.make (.ofNat 2) "Sequence"
          (.sequence ⟨[.ofNat 3, .ofNat 2, .ofNat 9, .ofNat 3], [.ofNat 3], 2⟩) with
        running := true, owner := some ⟨7⟩ },
      .make (.ofNat 3) "Parallel" (.parallel [.ofNat 2, .ofNat 1])]
    owner := some ⟨7⟩ }

theorem instantiate_copies_authored_overgrown :
    ∃ copy, Demo.overgrown.AuthoredCopy
        (Demo.overgrown.instantiate (Demo.counted.skip 10)).1 copy ∧
      (Demo.overgrown.instantiate (Demo.counted.skip 10)).1.ids =
        [copy (.ofNat 1), copy (.ofNat 2), copy (.ofNat 3)] := by
  have hfresh : (Demo.counted.skip 10).Fresh (2^128) fun u =>
      uses Demo.overgrown.profiles u ∨ Demo.overgrown.blackboard.id.uuid = u := by
    apply Demo.counted_unused
    have hnodes : ∀ b ∈ Demo.overgrown.profiles, ∀ id ∈ b.id :: b.guid :: b.links,
        ∃ k < 10, id.uuid = .ofNat k := by decide +kernel
    have hboard : ∃ k < 10, Demo.overgrown.blackboard.id.uuid = .ofNat k := by decide +kernel
    rintro u (⟨b, hb, rfl | rfl | ⟨c, hc, rfl⟩⟩ | rfl)
    · exact hnodes b hb b.id List.mem_cons_self
    · exact hnodes b hb b.guid (List.mem_cons_of_mem _ List.mem_cons_self)
    · exact hnodes b hb c (List.mem_cons_of_mem _ (List.mem_cons_of_mem _ hc))
    · exact hboard
  have hlive : Demo.overgrown.contains Demo.overgrown.root := by decide +kernel
  have hlimit : (Demo.overgrown.instantiate (Demo.counted.skip 10)).2.drawn ≤ 2^128 := by
    decide +kernel
  obtain ⟨copy, hcopy⟩ := instantiate_copies_authored hlive hfresh hlimit
  have hreachable : Demo.overgrown.reachable = [.ofNat 1, .ofNat 2, .ofNat 3] := by decide +kernel
  refine ⟨copy, hcopy, ?_⟩
  rw [hcopy.created, hreachable]
  rfl

end BehaviourTree
