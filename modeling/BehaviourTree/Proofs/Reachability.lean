import BehaviourTree.Proofs.Links
import Mathlib.Data.List.Flatten

/-!
The nodes that a depth-first walk meets are those that can be reached from the root by links.
-/

namespace BehaviourTree.Tree

open Relation

variable {H : Host} {t : Tree H} {id : NodeId}

theorem walk_nil (t : Tree H) (steps : Nat) (seen : List NodeId) :
    t.walk steps [] seen = seen.reverse := by
  cases steps <;> rfl

theorem walk_gone (hgone : id ∉ t.ids) (steps : Nat) (stack seen : List NodeId) :
    t.walk (steps+1) (id :: stack) seen = t.walk steps stack seen := by
  rw [walk, node?_eq_none hgone]

/-- A walk keeps what it has met, and adds live nodes that it has not. -/
theorem walk_spec (t : Tree H) (steps : Nat) (stack seen : List NodeId) :
    (∀ id ∈ seen, id ∈ t.walk steps stack seen) ∧
      (seen.Nodup → (t.walk steps stack seen).Nodup) ∧
      ((∀ id ∈ seen, id ∈ t.ids) → ∀ id ∈ t.walk steps stack seen, id ∈ t.ids) := by
  have hdone (seen : List NodeId) : (∀ id ∈ seen, id ∈ seen.reverse) ∧
      (seen.Nodup → seen.reverse.Nodup) ∧
      ((∀ id ∈ seen, id ∈ t.ids) → ∀ id ∈ seen.reverse, id ∈ t.ids) := by
    refine ⟨fun id hid => List.mem_reverse.mpr hid, List.nodup_reverse.mpr, ?_⟩
    exact fun hlive id hid => hlive id (List.mem_reverse.mp hid)
  induction steps generalizing stack seen with
  | zero => exact hdone seen
  | succ steps ih =>
    cases stack with
    | nil => exact hdone seen
    | cons next stack =>
      unfold walk
      split
      · exact ih stack seen
      · next n hn =>
        split
        · exact ih stack seen
        · next hnew =>
          obtain ⟨hkeep, hnodup, hlive⟩ := ih (n.links ++ stack) (next :: seen)
          refine ⟨fun id hid => hkeep id (List.mem_cons_of_mem next hid),
            fun h => hnodup (List.nodup_cons.mpr ⟨hnew, h⟩), fun h => hlive ?_⟩
          intro id hid
          rcases List.mem_cons.mp hid with rfl | hid
          · obtain ⟨hmem, rfl⟩ := node?_some hn
            exact List.mem_map_of_mem hmem
          · exact h id hid

theorem reachable_nodup (t : Tree H) : t.reachable.Nodup :=
  (t.walk_spec _ [t.root] []).2.1 List.nodup_nil

theorem live_of_reachable (h : id ∈ t.reachable) : id ∈ t.ids :=
  (t.walk_spec _ [t.root] []).2.2 (by simp) id h

theorem root_reachable (h : t.contains t.root) : t.root ∈ t.reachable := by
  obtain ⟨n, hn⟩ := Option.isSome_iff_exists.mp h
  unfold reachable walk
  rw [hn]
  dsimp only
  rw [if_neg List.not_mem_nil]
  exact (t.walk_spec _ _ [t.root]).1 t.root List.mem_cons_self

theorem traverse_ids (t : Tree H) : t.traverse.map (·.id) = t.reachable := by
  have hall (l : List NodeId) (hl : ∀ id ∈ l, id ∈ t.ids) :
      (l.filterMap t.node?).map (·.id) = l := by
    induction l with
    | nil => rfl
    | cons id l ih =>
      have hlive := contains_iff.mpr (hl id List.mem_cons_self)
      obtain ⟨n, hn⟩ := Option.isSome_iff_exists.mp hlive
      rw [List.filterMap_cons_some hn, List.map_cons, (node?_some hn).2,
        ih fun d hd => hl d (List.mem_cons_of_mem id hd)]
  exact hall t.reachable fun id hid => live_of_reachable hid

theorem node?_of_traverse {n : Node H} (h : n ∈ t.traverse) : t.node? n.id = some n := by
  obtain ⟨id, -, hn⟩ := List.mem_filterMap.mp h
  rw [(node?_some hn).2, hn]

theorem mem_of_traverse {n : Node H} (h : n ∈ t.traverse) : n ∈ t.nodes :=
  (node?_some (node?_of_traverse h)).1

/-! ### Nothing is left out -/

/-- The links of the nodes that a walk has not met yet, counted. -/
def unmet (t : Tree H) (seen : List NodeId) : Nat :=
  ((t.nodes.filter (·.id ∉ seen)).flatMap (·.links)).length

theorem unmet_nil (t : Tree H) : t.unmet [] = t.linkCount := by
  simp [unmet, linkCount]

/-- Where more has been met fewer links are counted. -/
theorem unmet_length_le {seen seen' : List NodeId} (h : seen ⊆ seen') (l : List (Node H)) :
    ((l.filter (·.id ∉ seen')).flatMap (·.links)).length ≤
      ((l.filter (·.id ∉ seen)).flatMap (·.links)).length := by
  have hsub : List.Sublist (l.filter (·.id ∉ seen')) (l.filter (·.id ∉ seen)) := by
    refine List.monotone_filter_right l fun m hm => ?_
    simp only [decide_eq_true_eq] at hm ⊢
    exact fun hold => hm (h hold)
  exact (hsub.flatMap _).length_le

theorem unmet_le {seen seen' : List NodeId} (h : seen ⊆ seen') : t.unmet seen' ≤ t.unmet seen :=
  unmet_length_le h t.nodes

/-- A node that is met now takes its links out of the count. -/
theorem unmet_cons {n : Node H} {seen : List NodeId} (hn : t.node? id = some n)
    (hnew : id ∉ seen) : n.links.length+t.unmet (id :: seen) ≤ t.unmet seen := by
  obtain ⟨hmem, rfl⟩ := node?_some hn
  -- Of the nodes before it and behind it no more are counted than before.
  obtain ⟨before, behind, hsplit⟩ := List.append_of_mem hmem
  have hbefore := unmet_length_le (List.subset_cons_self n.id seen) before
  have hbehind := unmet_length_le (List.subset_cons_self n.id seen) behind
  have hgone : (n :: behind).filter (·.id ∉ n.id :: seen) =
      behind.filter (·.id ∉ n.id :: seen) := List.filter_cons_of_neg (by simp)
  have hkept : (n :: behind).filter (·.id ∉ seen) = n :: behind.filter (·.id ∉ seen) :=
    List.filter_cons_of_pos (by simpa using hnew)
  simp only [unmet, hsplit, List.filter_append, hgone, hkept, List.flatMap_append,
    List.flatMap_cons, List.length_append]
  omega

/-- What is linked to from what has been met has been met too, or is still to be followed. -/
def Followed (t : Tree H) (stack seen : List NodeId) : Prop :=
  ∀ p ∈ seen, ∀ c, t.Links p c → t.contains c → c ∈ seen ∨ c ∈ stack

/-- With a step for every link that is still to be followed, a walk meets every live node that it
is to follow and every one that is linked to from there. -/
theorem walk_complete (t : Tree H) {steps : Nat} {stack seen : List NodeId}
    (hsteps : stack.length+t.unmet seen ≤ steps) (hseen : t.Followed stack seen) :
    (∀ id ∈ stack, t.contains id → id ∈ t.walk steps stack seen) ∧
      t.Followed [] (t.walk steps stack seen) := by
  have hdone {seen : List NodeId} (hseen : t.Followed [] seen) :
      (∀ id ∈ [], t.contains id → id ∈ seen.reverse) ∧ t.Followed [] seen.reverse := by
    refine ⟨by simp, ?_⟩
    intro p hp c hlink hc
    have hmem := hseen p (List.mem_reverse.mp hp) c hlink hc
    exact hmem.imp_left List.mem_reverse.mpr
  induction steps generalizing stack seen with
  | zero =>
    obtain rfl : stack = [] := List.eq_nil_of_length_eq_zero (by omega)
    exact hdone hseen
  | succ steps ih =>
    cases stack with
    | nil => exact hdone hseen
    | cons next stack =>
      rw [List.length_cons] at hsteps
      -- If there is nothing new to be met behind the next link, the rest of the stack is enough.
      have hskip (hold : t.contains next → next ∈ seen) :
          (∀ id ∈ next :: stack, t.contains id → id ∈ t.walk steps stack seen) ∧
            t.Followed [] (t.walk steps stack seen) := by
        have hseen' : t.Followed stack seen := by
          intro p hp c hlink hc
          rcases hseen p hp c hlink hc with hmem | hmem
          · exact Or.inl hmem
          · rcases List.mem_cons.mp hmem with rfl | hmem
            · exact Or.inl (hold hc)
            · exact Or.inr hmem
        obtain ⟨hstack, hclosed⟩ := ih (by omega) hseen'
        refine ⟨?_, hclosed⟩
        intro id hid hlive
        rcases List.mem_cons.mp hid with rfl | hid
        · exact (t.walk_spec steps stack seen).1 id (hold hlive)
        · exact hstack id hid hlive
      unfold walk
      split
      · next hgone => exact hskip fun hlive => by simp [contains, hgone] at hlive
      · next n hn =>
        split
        · next hold => exact hskip fun _ => hold
        · next hnew =>
          have hlinks : t.children next = n.links := children_of_node? hn
          have hcount := unmet_cons hn hnew
          have hseen' : t.Followed (n.links ++ stack) (next :: seen) := by
            intro p hp c hlink hc
            rcases List.mem_cons.mp hp with rfl | hp
            · have hmem : c ∈ n.links := hlinks ▸ hlink
              exact Or.inr (List.mem_append_left stack hmem)
            · rcases hseen p hp c hlink hc with hmem | hmem
              · exact Or.inl (List.mem_cons_of_mem next hmem)
              · rcases List.mem_cons.mp hmem with rfl | hmem
                · exact Or.inl List.mem_cons_self
                · exact Or.inr (List.mem_append_right n.links hmem)
          have hsteps' : (n.links ++ stack).length+t.unmet (next :: seen) ≤ steps := by
            rw [List.length_append]
            omega
          obtain ⟨hstack, hclosed⟩ := ih hsteps' hseen'
          refine ⟨?_, hclosed⟩
          intro id hid hlive
          rcases List.mem_cons.mp hid with rfl | hid
          · exact (t.walk_spec steps _ (id :: seen)).1 id List.mem_cons_self
          · exact hstack id (List.mem_append_right n.links hid) hlive

/-- A live node that a reachable one links to is reachable. -/
theorem reachable_closed {p c : NodeId} (hp : p ∈ t.reachable) (hlink : t.Links p c)
    (hlive : t.contains c) : c ∈ t.reachable := by
  have hsteps : [t.root].length+t.unmet [] ≤ t.linkCount+1 := by
    rw [unmet_nil, List.length_singleton]
    omega
  have hstart : t.Followed [t.root] [] := by
    intro p hp
    simp at hp
  obtain ⟨-, hclosed⟩ := t.walk_complete hsteps hstart
  exact (hclosed p hp c hlink hlive).resolve_right List.not_mem_nil

/-- A walk meets nothing but what the root leads to. -/
theorem walk_reaches (t : Tree H) (steps : Nat) {stack seen : List NodeId}
    (hstack : ∀ id ∈ stack, t.Reaches t.root id) (hseen : ∀ id ∈ seen, t.Reaches t.root id) :
    ∀ id ∈ t.walk steps stack seen, t.Reaches t.root id := by
  have hdone {seen : List NodeId} (hseen : ∀ id ∈ seen, t.Reaches t.root id) :
      ∀ id ∈ seen.reverse, t.Reaches t.root id :=
    fun id hid => hseen id (List.mem_reverse.mp hid)
  induction steps generalizing stack seen with
  | zero => exact hdone hseen
  | succ steps ih =>
    cases stack with
    | nil => exact hdone hseen
    | cons next stack =>
      have hrest : ∀ id ∈ stack, t.Reaches t.root id :=
        fun id hid => hstack id (List.mem_cons_of_mem next hid)
      have hnext : t.Reaches t.root next := hstack next List.mem_cons_self
      unfold walk
      split
      · exact ih hrest hseen
      · next n hn =>
        split
        · exact ih hrest hseen
        · apply ih
          · intro id hid
            rcases List.mem_append.mp hid with hid | hid
            · have hlink : t.Links next id := .of_node? hn hid
              exact hnext.tail hlink
            · exact hrest id hid
          · intro id hid
            rcases List.mem_cons.mp hid with rfl | hid
            · exact hnext
            · exact hseen id hid

/-- The walk from the root meets exactly the live nodes that the root leads to. -/
theorem mem_reachable_iff : id ∈ t.reachable ↔ t.Reaches t.root id ∧ t.contains id := by
  constructor
  · intro hid
    refine ⟨t.walk_reaches _ ?_ (by simp) id hid, contains_iff.mpr (live_of_reachable hid)⟩
    intro c hc
    obtain rfl := List.mem_singleton.mp hc
    exact .refl
  · rintro ⟨hreaches, hlive⟩
    induction hreaches with
    | refl => exact root_reachable hlive
    | tail _ hlink ih =>
      -- Only a live node links to anything.
      obtain ⟨n, hn, -⟩ := hlink.exists_node
      exact reachable_closed (ih (by simp [contains, hn])) hlink hlive

/-- What is reachable depends on nothing but the nodes and the root. -/
theorem walk_congr {t' : Tree H} (hnodes : t'.nodes = t.nodes) (steps : Nat)
    (stack seen : List NodeId) : t'.walk steps stack seen = t.walk steps stack seen := by
  induction steps generalizing stack seen with
  | zero => rfl
  | succ steps ih =>
    cases stack with
    | nil => rfl
    | cons id stack =>
      have hnode : t'.node? id = t.node? id := by rw [node?, node?, hnodes]
      unfold walk
      rw [hnode]
      cases t.node? id with
      | none => exact ih stack seen
      | some n => simp only [ih]

theorem reachable_congr {t' : Tree H} (hnodes : t'.nodes = t.nodes) (hroot : t'.root = t.root) :
    t'.reachable = t.reachable := by
  unfold reachable linkCount
  rw [hnodes, hroot, walk_congr hnodes]

end BehaviourTree.Tree
