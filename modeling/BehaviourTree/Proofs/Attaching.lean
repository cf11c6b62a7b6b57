import BehaviourTree.Proofs.Structure

/-!
What attaching a child looks at to keep links from leading in circles. It climbs from the parent by
one node at a time, the first that links to the last, and so it misses other ways up.
-/

namespace BehaviourTree

open Relation

variable {H : Host}

namespace Tree

variable {t t' : Tree H} {parent child : NodeId}

/-- A link of the node that is found is a link of a node. -/
theorem Links.linked {p c : NodeId} (h : t.Links p c) : Linked t.profiles p c := by
  obtain ⟨n, hn, hc⟩ := h.exists_node
  obtain ⟨hmem, rfl⟩ := node?_some hn
  exact linked_profiles.mpr ⟨n, hmem, rfl, hc⟩

/-- Where a single node links to each, links lead up by first parents. -/
theorem climb_of_reaches {id : NodeId}
    (honly : ∀ c, t.Reaches c id → ∀ n ∈ t.nodes, ∀ m ∈ t.nodes, c ∈ n.links → c ∈ m.links →
      n.id = m.id)
    (h : t.Reaches child id) : ReflTransGen t.FirstParent child id := by
  induction h with
  | refl => exact .refl
  | @tail p c hp hlink ih =>
    have hfirst : t.FirstParent p c := by
      obtain ⟨n, hn, hc⟩ := hlink.exists_node
      obtain ⟨hmem, rfl⟩ := node?_some hn
      refine parentOf?_of_only hlink.linked fun m hm hc' => ?_
      exact honly c .refl m hm n hmem hc' hc
    refine (ih fun d hd => ?_).tail hfirst
    exact honly d (hd.tail hlink)

end Tree

/-- A child that is attached has been linked by no node, and climbing from its parent, each time to
the first node that links to the last, never comes to it. Where that is the only way up, because no
two nodes link to the parent or to anything above it, no links lead from the child to its parent:
the new link closes no circle. -/
theorem attach_climbs_clear {t t' : Tree H} {parent child : NodeId}
    (h : t.attach parent child = .ok t') :
    (∀ n ∈ t.nodes, child ∉ n.links) ∧ ¬ ReflTransGen t.FirstParent child parent ∧
      ((∀ id, t.Reaches id parent → ∀ n ∈ t.nodes, ∀ m ∈ t.nodes, id ∈ n.links → id ∈ m.links →
        n.id = m.id) → ¬ t.Reaches child parent) := by
  obtain ⟨-, -, hne, -, -, hparent, hancestor, -⟩ := Tree.attach_ok h
  have hclimb : ¬ ReflTransGen t.FirstParent child parent := by
    intro hup
    rcases ReflTransGen.cases_head hup with heq | ⟨c, hc, hrest⟩
    · exact hne heq.symm
    · exact hancestor (Tree.climbMeets_of_climb _ (.head' hc hrest))
  refine ⟨fun n hn hc => ?_, hclimb, fun honly hreaches => ?_⟩
  · have hfree := Tree.parentOf?_eq_none hparent
    rw [Tree.linksOf_profiles] at hfree
    exact hfree (List.mem_flatMap.mpr ⟨n, hn, hc⟩)
  · exact hclimb (Tree.climb_of_reaches honly hreaches)

/-- A leaf goes below a sequence that hangs below the root. -/
theorem attach_climbs_clear_sapling :
    let t := (Demo.sapling.run [.add (.sequence (.idle [])), .attach (.ofNat 2) (.ofNat 3),
      .add (.action Demo.Action.succeed)]).1.tree
    (∃ t', t.attach (.ofNat 3) (.ofNat 4) = .ok t') ∧ ¬ t.Reaches (.ofNat 4) (.ofNat 3) := by
  intro t
  obtain ⟨t', ht'⟩ : ∃ t', t.attach (.ofNat 3) (.ofNat 4) = .ok t' := ⟨_, rfl⟩
  refine ⟨⟨t', ht'⟩, (attach_climbs_clear ht').2.2 fun id _ n hn m hm hc hc' => ?_⟩
  have hall : ∀ n ∈ t.nodes, ∀ m ∈ t.nodes, ∀ id ∈ n.links, id ∈ m.links → n.id = m.id := by
    decide +kernel
  exact hall n hn m hm id hc hc'

/-- A sequence hangs below the root, and another one is made with a link to it. -/
def Demo.knotting : List (Operation Demo.smallHost) :=
  [.add (.sequence (.idle [])), .attach (.ofNat 2) (.ofNat 3),
    .add (.sequence (.idle [.ofNat 3]))]

/-- A child can be attached below a node that it leads to, if that node was attached elsewhere
before the child came to link to it: climbing goes by the older parent. -/
theorem attach_closes_circle :
    ¬ ∀ (s : Session Demo.smallHost) (τ : Trace Demo.smallHost),
      Reached .builtin (fun _ => True) (2^128) s τ → ∀ parent child t',
        s.tree.attach parent child = .ok t' → ¬ s.tree.Reaches child parent := by
  intro hclaim
  have hnew : Reached .builtin (fun _ => True) (2^128) Demo.sapling [] :=
    Reached.new (H := Demo.smallHost) Demo.counted_fresh _ _
  have hops : ∀ op ∈ Demo.knotting, True := fun _ _ => trivial
  have hreached := hnew.run hops
  let t := (Demo.sapling.run Demo.knotting).1.tree
  obtain ⟨t', ht'⟩ : ∃ t', t.attach (.ofNat 3) (.ofNat 4) = .ok t' := ⟨_, rfl⟩
  have hlink : t.Links (.ofNat 4) (.ofNat 3) := by
    change NodeId.ofNat 3 ∈ t.children (.ofNat 4)
    decide +kernel
  exact hclaim _ _ hreached _ _ t' ht' (.single hlink)

end BehaviourTree
