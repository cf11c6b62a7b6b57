import BehaviourTree.Proofs.Lifecycle
import BehaviourTree.Proofs.TemplateForm

/-!
Where the nodes of a tree come from: what every way of making a node gives it, and every change of
it keeps, holds of all nodes at any time.
-/

namespace BehaviourTree

variable {H : Host} {registry : Registry H} {allowed : Operation H → Prop}

/-- What may be done by fewer operations may be done by more. -/
theorem Reached.mono {allowed' : Operation H → Prop} {limit : Nat} {s : Session H} {τ : Trace H}
    (h : Reached registry allowed limit s τ) (hallowed : ∀ op, allowed op → allowed' op) :
    Reached registry allowed' limit s τ := by
  induction h with
  | new fresh world audience => exact .new fresh world audience
  | ofTemplate fresh hvisit built world audience =>
    exact .ofTemplate fresh hvisit built world audience
  | instantiate _ ih => exact .instantiate ih
  | step _ isAllowed ih => exact .step ih (hallowed _ isAllowed)

/-- A property of a node beside the root of its tree that is passed down: a node has it when it is
made, and keeps it through edits and ticks, when the root is replaced, and when it is copied. -/
structure Hereditary (registry : Registry H) (allowed : Operation H → Prop)
    (Q : NodeId → Node H → Prop) : Prop where
  root : ∀ {n : Node H}, n.typeName = NodeType.root.name → n.kind = .root none → Q n.id n
  described : ∀ {root board a n}, TreeTemplate.Describes registry board a n →
    (a.isRoot → a.guid = root) → Q root n
  made : ∀ {root op n}, allowed op → op.Makes registry n → Q root n
  edited : ∀ {root n n'}, Q root n → n.Edited n' → Q root n'
  ticked : ∀ {root n n' frame}, allowed (.tick frame) → Q root n → n'.profile = n.profile →
    Q root n'
  rerooted : ∀ {root root' n}, Q root n → n.id ≠ root → Q root' n
  copied : ∀ {root root' n id links board}, Q root n → (n.id = root → id = root') →
    Q root' (n.copy id links board)

/-- A root that is put in place comes to the other nodes, and then the old one is not among them. -/
theorem Tree.ensureRoot_origin {t : Tree H} {supply : IdSupply} {n : Node H}
    (h : n ∈ (t.ensureRoot supply).1.nodes) :
    n ∈ t.nodes ∧ ((t.ensureRoot supply).1.root = t.root ∨ n.id ≠ t.root) ∨
      n.typeName = NodeType.root.name ∧ n.kind = .root none ∧
        n.id = (t.ensureRoot supply).1.root := by
  by_cases hlive : t.contains t.root
  · rw [ensureRoot_of_live hlive] at h ⊢
    exact Or.inl ⟨h, Or.inl rfl⟩
  · rw [ensureRoot_of_gone hlive] at h ⊢
    rcases mem_of_insert h with rfl | hold
    · exact Or.inr ⟨rfl, rfl, rfl⟩
    · refine Or.inl ⟨hold, Or.inr fun hid => hlive ?_⟩
      exact contains_iff.mpr (hid ▸ List.mem_map_of_mem hold)

namespace Hereditary

variable {Q : NodeId → Node H → Prop} (hQ : Hereditary registry allowed Q)

include hQ

theorem ensureRoot {t : Tree H} (h : ∀ n ∈ t.nodes, Q t.root n) (supply : IdSupply) :
    ∀ n ∈ (t.ensureRoot supply).1.nodes, Q (t.ensureRoot supply).1.root n := by
  intro n hn
  rcases Tree.ensureRoot_origin hn with ⟨hold, hroot | hother⟩ | ⟨htypeName, hkind, hid⟩
  · exact hroot ▸ h n hold
  · exact hQ.rerooted (h n hold) hother
  · exact hid ▸ hQ.root htypeName hkind

theorem new (supply : IdSupply) :
    ∀ n ∈ (Tree.new registry supply).1.nodes, Q (Tree.new registry supply).1.root n := by
  obtain ⟨id, later, hrun, -⟩ := Tree.ofNodes_spec registry [] none supply
  have hnone : ∀ n ∈ (Tree.planted registry [] ⟨supply.draw.1⟩ id).nodes, Q id n := by
    simp [Tree.planted]
  rw [Tree.new, hrun]
  exact hQ.ensureRoot hnone later

theorem builds {a : TreeTemplate} {board : BlackboardId} {added : List (Node H)} {t : Tree H}
    (h : a.Builds registry board added t) : ∀ n ∈ t.nodes, Q t.root n := by
  obtain ⟨listed, hnodes, hlisted⟩ := h.nodes
  intro n hn
  rw [hnodes] at hn
  rcases List.mem_append.mp hn with hn | hn
  · obtain ⟨b, hb, hdescribes⟩ := exists_of_mem_right hlisted hn
    refine hQ.described hdescribes fun hisRoot => ?_
    -- A root that is authored is the one that the tree has.
    have hmem : b.guid ∈ a.rootGuids := TreeTemplate.mem_rootGuids.mpr ⟨b, hb, hisRoot, rfl⟩
    rcases h.root with ⟨hroots, -⟩ | ⟨hroots, -⟩
    · rw [hroots] at hmem
      exact List.mem_singleton.mp hmem
    · simp [hroots] at hmem
  · rcases h.root with ⟨-, rfl⟩ | ⟨-, -, rfl⟩
    · simp at hn
    · obtain rfl := List.mem_singleton.mp hn
      have hroot : (TreeTemplate.bareRoot (H := H) t.root board).id = t.root := rfl
      exact hroot ▸ hQ.root rfl rfl

theorem copies {t t' : Tree H} {copies : List (NodeId × NodeId)} {start supply : IdSupply}
    {limit : Nat} {used : Uuid → Prop} (h : ∀ n ∈ t.nodes, Q t.root n)
    (hcopied : t.CopiedBy copies start limit used t' supply) : ∀ n ∈ t'.nodes, Q t'.root n := by
  intro n' hn'
  obtain ⟨n, hn, hcopy⟩ := hcopied.origin hn'
  obtain ⟨board, hmade⟩ := hcopy.made
  rw [hmade]
  refine hQ.copied (h n (Tree.mem_of_traverse hn)) fun hid => ?_
  -- The copy of the root is the root of the copy.
  have hlookup := hcopy.id
  rw [hid, hcopied.root] at hlookup
  exact (Option.some.inj hlookup).symm

theorem effect {s s' : Session H} {op : Operation H} {τ : Trace H} (he : s.Effect op s' τ)
    (hop : allowed op) (hregistry : s.tree.registry = registry) (hkeyed : s.tree.ids.Nodup)
    (h : ∀ n ∈ s.tree.nodes, Q s.tree.root n) : ∀ n ∈ s'.tree.nodes, Q s'.tree.root n := by
  cases he with
  | tick frame =>
    intro n' hn'
    have hprofiles := s.tree.tick_profiles hkeyed frame s.world s.audience
    have hmem := hprofiles ▸ List.mem_map_of_mem hn'
    obtain ⟨n, hn, hprofile⟩ := List.mem_map.mp hmem
    exact hQ.ticked hop (h n hn) hprofile.symm
  | touch touches _ =>
    obtain ⟨f, hnodes, hf⟩ := touches.nodes
    intro n' hn'
    rw [hnodes] at hn'
    obtain ⟨n, hn, rfl⟩ := List.mem_map.mp hn'
    rw [touches.root]
    exact hQ.edited (h n hn) (hf n)
  | insert n _ _ made tree _ =>
    intro m hm
    rw [tree] at hm ⊢
    rw [s.tree.insert_root]
    rcases Tree.mem_of_insert hm with rfl | hold
    · exact hQ.made hop (hregistry ▸ made)
    · exact h m hold
  | delete gone tree _ =>
    rw [tree]
    refine hQ.ensureRoot (t := s.tree.without gone) (fun n hn => ?_) s.supply
    exact h n (List.mem_of_mem_filter hn)

end Hereditary

/-- What is passed down from node to node, all nodes have at any time. -/
theorem Reached.inherit {Q : NodeId → Node H → Prop} (hQ : Hereditary registry allowed Q)
    (hkinds : registry.LinkFree) (hallowed : ∀ op, allowed op → op.LinkFree) {limit : Nat}
    {s : Session H} {τ : Trace H} (h : Reached registry allowed limit s τ)
    (hlimit : s.supply.drawn ≤ limit) : ∀ n ∈ s.tree.nodes, Q s.tree.root n := by
  induction h with
  | new _ _ _ => exact hQ.new _
  | ofTemplate fresh hvisit built _ _ =>
    obtain ⟨board, added, hbuilds⟩ :=
      Tree.ofTemplateVia_builds hvisit (fun _ => fresh) built fun _ => hlimit
    exact hQ.builds hbuilds
  | @instantiate s _ reached ih =>
    have hbefore := (s.tree.instantiate_precedes s.supply).within hlimit
    have hrecorded := reached.recorded hbefore
    obtain ⟨copies, start, hcopied⟩ :=
      s.tree.instantiate_copied hrecorded.root hrecorded.fresh hlimit
    exact hQ.copies (ih hbefore) hcopied
  | @step s _ op reached isAllowed ih =>
    have hbefore := (s.step_effect op).precedes.within hlimit
    obtain ⟨hregistry, hsound⟩ := (reached.mono hallowed).sound hkinds hbefore
    exact hQ.effect (s.step_effect op) isAllowed hregistry hsound.keyed (ih hbefore)

end BehaviourTree
