import BehaviourTree.Proofs.Reload

/-!
A template that a tree was built of is what is written of the tree again, in normal form.
-/

namespace BehaviourTree

variable {H : Host} {registry : Registry H}

namespace TreeTemplate

/-- A template with no name that is a kind's anyway, and with a root: where it lists none, `root`
comes last, without children. -/
def normal (a : TreeTemplate) (root : NodeId) : TreeTemplate :=
  ⟨a.nodes.map (·.normal) ++ if a.nodes.any (·.isRoot) then [] else
    [⟨root, NodeType.root.name, none, false, .zero, []⟩]⟩

theorem any_isRoot_iff {a : TreeTemplate} : a.nodes.any (·.isRoot) ↔ a.rootGuids ≠ [] := by
  rw [List.any_eq_true]
  constructor
  · rintro ⟨r, hr, hisRoot⟩
    exact List.ne_nil_of_mem (mem_rootGuids.mpr ⟨r, hr, hisRoot, rfl⟩)
  · intro hroots
    obtain ⟨guid, hguid⟩ := List.exists_mem_of_ne_nil _ hroots
    obtain ⟨r, hr, hisRoot, -⟩ := mem_rootGuids.mp hguid
    exact ⟨r, hr, hisRoot⟩

theorem Builds.written {a : TreeTemplate} {board : BlackboardId} {added : List (Node H)}
    {t : Tree H} (h : a.Builds registry board added t) (hfree : registry.LinkFree)
    (hrootless : registry.Rootless) (hpresent : ∀ x ∈ a.nodes, ∀ c ∈ x.children, c ∈ a.guids) :
    t.toTemplate = a.normal t.root := by
  obtain ⟨listed, hnodes, hlisted⟩ := h.nodes
  have hids : t.ids = a.guids ++ added.map (·.id) := by
    calc t.ids
      _ = listed.map (·.id) ++ added.map (·.id) := by rw [Tree.ids, hnodes, List.map_append]
      _ = a.guids ++ added.map (·.id) := by rw [map_eq_of_forall₂ hlisted fun _ _ hn => hn.id]; rfl
  -- Every listed child is a node of the tree, so none is left out.
  have hlive : ∀ x ∈ a.nodes, ∀ c ∈ x.children, t.guid? c = some c := fun x hx c hc =>
    Tree.guid?_of_builds h (hids ▸ List.mem_append_left _ (hpresent x hx c hc))
  have hwritten : listed.map t.authorNode = a.nodes.map (·.normal) := by
    apply map_eq_of_forall₂ (forall₂_mem hlisted)
    rintro x n ⟨hx, -, hdescribes⟩
    exact Tree.authorNode_of_describes hfree hrootless hdescribes (hlive x hx)
  rw [Tree.toTemplate, hnodes, List.map_append, hwritten, normal]
  rcases h.root with ⟨hroots, rfl⟩ | ⟨hroots, -, rfl⟩
  · rw [if_pos (any_isRoot_iff.mpr (hroots ▸ List.cons_ne_nil _ _)), List.map_nil]
  · rw [if_neg fun hany => any_isRoot_iff.mp hany hroots]
    rfl

end TreeTemplate

/-- Whatever template a tree was built of, with a registry that leaves roots to the trees and links
to the authors it is written as that template in normal form. A root that was not listed is new. -/
theorem written_as_described (hfree : registry.LinkFree) (hrootless : registry.Rootless)
    {visit : List NodeId → List NodeId} (hvisit : ∀ ids, (visit ids).Perm ids) {a : TreeTemplate}
    {supply : IdSupply} {limit : Nat} {t : Tree H}
    (built : (Tree.ofTemplateVia visit registry a supply).1 = .ok t)
    (hfresh : a.rootGuids = [] → supply.Fresh limit fun u => ∃ guid ∈ a.guids, guid.uuid = u)
    (hlimit : a.rootGuids = [] → (Tree.ofTemplateVia visit registry a supply).2.drawn ≤ limit) :
    t.toTemplate = a.normal t.root ∧ (a.rootGuids = [] → t.root ∉ a.guids) := by
  have hrun : Tree.ofTemplateVia visit registry a supply =
      (.ok t, (Tree.ofTemplateVia visit registry a supply).2) := Prod.ext built rfl
  obtain ⟨board, added, hbuilds⟩ := Tree.ofTemplateVia_builds hvisit hfresh hrun hlimit
  have hwellFormed : a.WellFormed registry :=
    (TreeTemplate.check_isOk_iff hvisit a).mp (Tree.ofTemplateVia_isOk_iff.mp ⟨t, built⟩)
  refine ⟨hbuilds.written hfree hrootless hwellFormed.present, fun hnone => ?_⟩
  rcases hbuilds.root with ⟨hroots, -⟩ | ⟨-, hnew, -⟩
  · exact absurd (hroots.symm.trans hnone) (List.cons_ne_nil _ _)
  · exact hnew

/-- The sketch with the name of each node spelled out. -/
def Demo.labelled : TreeTemplate :=
  ⟨sketch.nodes.map fun x => { x with name := some (x.name.getD x.kind) }⟩

def Demo.built : Except TreeError (Tree Demo.smallHost) × IdSupply :=
  Tree.ofTemplateVia List.reverse .builtin Demo.labelled (Demo.counted.skip 10)

theorem written_as_described_labelled : ∃ t, Demo.built.1 = .ok t ∧
    t.toTemplate = ⟨Demo.sketch.nodes ++ [⟨t.root, "Root", none, false, .zero, []⟩]⟩ := by
  have hfresh : (Demo.counted.skip 10).Fresh (2^128)
      fun u => ∃ guid ∈ Demo.labelled.guids, guid.uuid = u := by
    apply Demo.counted_unused
    rintro u ⟨guid, hguid, rfl⟩
    have hguids : ∀ guid ∈ Demo.labelled.guids, ∃ k < 10, guid.uuid = .ofNat k := by decide
    exact hguids guid hguid
  have hlimit : Demo.built.2.drawn ≤ 2^128 := by decide +kernel
  have hok : Demo.built.1.toBool = true := by decide +kernel
  cases hbuilt : Demo.built.1 with
  | error e => simp [hbuilt, Except.toBool] at hok
  | ok t =>
    have hwritten := written_as_described Registry.builtin_linkFree
      Registry.builtin_tidy.rootless List.reverse_perm hbuilt (fun _ => hfresh) fun _ => hlimit
    exact ⟨t, rfl, hwritten.1⟩

end BehaviourTree
