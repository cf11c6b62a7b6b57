import BehaviourTree.Tree.Basic
import Mathlib.Data.List.Nodup
import Mathlib.Data.List.Pairwise
import Mathlib.Logic.Relation

/-!
The links of a tree as a graph, and when they form a tree below its root.
-/

namespace BehaviourTree.Tree

open Relation

variable {H : Host} {t : Tree H} {p q c d id : NodeId}

/-- One node links to another. -/
def Links (t : Tree H) (p c : NodeId) : Prop := c ∈ t.children p

/-- One node leads to another by links. -/
def Reaches (t : Tree H) : NodeId → NodeId → Prop := ReflTransGen t.Links

/-- Nothing that the root leads to is missing, linked twice or linked in a circle. In particular
nothing there links to the root. -/
structure LinksFormTree (t : Tree H) : Prop where
  live : ∀ id, t.Reaches t.root id → t.contains id
  once : ∀ p, t.Reaches t.root p → (t.children p).Nodup
  parent : ∀ p q c, t.Reaches t.root p → t.Reaches t.root q → t.Links p c → t.Links q c → p = q
  acyclic : ∀ id, t.Reaches t.root id → ¬ TransGen t.Links id id

theorem node?_some {n : Node H} (h : t.node? id = some n) : n ∈ t.nodes ∧ n.id = id := by
  have hmem := List.mem_of_find?_eq_some h
  have hid := List.find?_some h
  exact ⟨hmem, by simpa using hid⟩

theorem node?_of_mem (hkeys : t.ids.Nodup) {n : Node H} (hn : n ∈ t.nodes) :
    t.node? n.id = some n := by
  have hlive : (t.node? n.id).isSome := List.find?_isSome.mpr ⟨n, hn, by simp⟩
  obtain ⟨m, hm⟩ := Option.isSome_iff_exists.mp hlive
  obtain ⟨hmem, hid⟩ := node?_some hm
  rw [hm, List.inj_on_of_nodup_map hkeys hmem hn hid]

/-- A change that keeps identifiers changes the node that is found, and not which one it is. -/
theorem node?_map {t' : Tree H} {f : Node H → Node H} (hf : ∀ n, (f n).id = n.id)
    (hnodes : t'.nodes = t.nodes.map f) (id : NodeId) : t'.node? id = (t.node? id).map f := by
  have hkeys : ((fun m : Node H => decide (m.id = id)) ∘ f) = fun m => decide (m.id = id) := by
    funext m
    simp [hf m]
  rw [node?, hnodes, List.find?_map, hkeys, node?]

theorem ids_map {t' : Tree H} {f : Node H → Node H} (hf : ∀ n, (f n).id = n.id)
    (hnodes : t'.nodes = t.nodes.map f) : t'.ids = t.ids := by
  rw [ids, ids, hnodes, List.map_map]
  exact List.map_congr_left fun n _ => hf n

theorem contains_iff : t.contains id ↔ id ∈ t.ids := by
  unfold contains ids
  rw [node?, List.find?_isSome, List.mem_map]
  constructor
  · rintro ⟨n, hn, hid⟩
    exact ⟨n, hn, by simpa using hid⟩
  · rintro ⟨n, hn, rfl⟩
    exact ⟨n, hn, by simp⟩

theorem node?_eq_none (h : id ∉ t.ids) : t.node? id = none := by
  rw [← Option.not_isSome_iff_eq_none]
  exact fun hsome => h (contains_iff.mp hsome)

theorem children_of_node? {n : Node H} (h : t.node? id = some n) : t.children id = n.links := by
  simp [children, h]

theorem Links.of_node? {n : Node H} (h : t.node? p = some n) (hc : c ∈ n.links) :
    t.Links p c := by
  unfold Links
  rwa [children_of_node? h]

/-- Only a live node links to anything. -/
theorem Links.exists_node (h : t.Links p c) : ∃ n, t.node? p = some n ∧ c ∈ n.links := by
  unfold Links children at h
  cases hn : t.node? p with
  | none => simp [hn] at h
  | some n => exact ⟨n, rfl, by simpa [hn] using h⟩

/-- Where nothing is linked twice, a link belongs to one node. -/
theorem eq_of_shared_link (honce : (t.nodes.flatMap (·.links)).Nodup) {n m : Node H}
    (hn : n ∈ t.nodes) (hm : m ∈ t.nodes) (hc : c ∈ n.links) (hc' : c ∈ m.links) : n = m := by
  by_contra hne
  have hapart := (List.nodup_flatMap.mp honce).2
  have hsymm : Std.Symm (Function.onFun List.Disjoint fun n : Node H => n.links) :=
    ⟨fun _ _ h _ hc hc' => h hc' hc⟩
  exact hapart.forall hn hm hne hc hc'

namespace LinksFormTree

variable (h : t.LinksFormTree)

include h

/-- Of two nodes that lead to a third, one leads to the other. -/
theorem reaches_total (hp : t.Reaches t.root p) (hq : t.Reaches t.root q) (hpc : t.Reaches p c)
    (hqc : t.Reaches q c) : t.Reaches p q ∨ t.Reaches q p := by
  induction hpc with
  | refl => exact Or.inr hqc
  | @tail x c hpx hxc ih =>
    rcases ReflTransGen.cases_tail hqc with rfl | ⟨y, hqy, hyc⟩
    · exact Or.inl (hpx.tail hxc)
    -- Both ways end with the same link, because the last node has one parent.
    · have hsame : x = y := h.parent x y c (hp.trans hpx) (hq.trans hqy) hxc hyc
      exact ih (hsame ▸ hqy)

/-- A child that is led to from its sibling would be its own sibling's descendant: there is none. -/
theorem not_reaches_sibling (hp : t.Reaches t.root p) (hc : t.Links p c) (hd : t.Links p d)
    (hne : c ≠ d) : ¬ t.Reaches c d := by
  intro hcd
  rcases ReflTransGen.cases_tail hcd with rfl | ⟨y, hcy, hyd⟩
  · exact hne rfl
  · have hy : t.Reaches t.root y := (hp.tail hc).trans hcy
    -- The last step into the sibling is from the common parent, which closes a circle.
    obtain rfl : y = p := h.parent y p d hy hp hyd hd
    exact h.acyclic y hp (TransGen.head' hc hcy)

/-- What one child leads to, its siblings do not. -/
theorem siblings_apart (hp : t.Reaches t.root p) (hc : t.Links p c) (hd : t.Links p d)
    (hne : c ≠ d) (hid : t.Reaches c id) : ¬ t.Reaches d id := by
  intro hid'
  rcases h.reaches_total (hp.tail hc) (hp.tail hd) hid hid' with hcd | hdc
  · exact h.not_reaches_sibling hp hc hd hne hcd
  · exact h.not_reaches_sibling hp hd hc (Ne.symm hne) hdc

end LinksFormTree

/-- It is enough that nothing is linked twice or in a circle, and that every link leads to a live
node. -/
theorem LinksFormTree.of_forest (hroot : t.contains t.root)
    (honce : (t.nodes.flatMap (·.links)).Nodup)
    (hlinks : ∀ n ∈ t.nodes, ∀ c ∈ n.links, t.contains c)
    (hacyclic : ∀ id, ¬ TransGen t.Links id id) : t.LinksFormTree := by
  have heach := (List.nodup_flatMap.mp honce).1
  refine ⟨?_, ?_, ?_, fun id _ => hacyclic id⟩
  · intro id hid
    rcases ReflTransGen.cases_tail hid with rfl | ⟨p, -, hp⟩
    · exact hroot
    · obtain ⟨n, hn, hc⟩ := hp.exists_node
      exact hlinks n (node?_some hn).1 id hc
  · intro p _
    cases hn : t.node? p with
    | none => simp [children, hn]
    | some n => exact children_of_node? hn ▸ heach n (node?_some hn).1
  · intro p q c _ _ hp hq
    obtain ⟨n, hn, hc⟩ := hp.exists_node
    obtain ⟨m, hm, hc'⟩ := hq.exists_node
    obtain ⟨hmem, rfl⟩ := node?_some hn
    obtain ⟨hmem', rfl⟩ := node?_some hm
    rw [eq_of_shared_link honce hmem hmem' hc hc']

/-- It is enough that no node is linked twice by any node, and that every link leads to a live node
further on in some order. -/
theorem LinksFormTree.of_rank (rank : NodeId → Nat) (hroot : t.contains t.root)
    (honce : (t.nodes.flatMap (·.links)).Nodup)
    (hlinks : ∀ n ∈ t.nodes, ∀ c ∈ n.links, t.contains c ∧ rank n.id < rank c) :
    t.LinksFormTree := by
  refine .of_forest hroot honce (fun n hn c hc => (hlinks n hn c hc).1) fun id hcycle => ?_
  have hstep {p c : NodeId} (h : t.Links p c) : rank p < rank c := by
    obtain ⟨n, hn, hc⟩ := h.exists_node
    obtain ⟨hmem, rfl⟩ := node?_some hn
    exact (hlinks n hmem c hc).2
  -- Along a circle the rank would rise and come back to where it was.
  have hlt : ∀ x, TransGen t.Links id x → rank id < rank x := by
    intro x hx
    induction hx with
    | single h => exact hstep h
    | tail _ h ih => exact Nat.lt_trans ih (hstep h)
  exact Nat.lt_irrefl _ (hlt id hcycle)

end BehaviourTree.Tree
