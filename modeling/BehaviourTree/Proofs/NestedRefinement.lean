import BehaviourTree.Proofs.Links
import BehaviourTree.Proofs.NestedTick
import BehaviourTree.Proofs.TickSafety

/-!
A tree whose links form a tree is the flat form of a nested one, and its ticks are the ticks of
that.
-/

namespace BehaviourTree

open Relation Ticking

variable {H : Host} {levels : Nat} {t : Tree H}

namespace Tree

/-- What the root leads to is the flat form of a nested tree. -/
structure Unfolds (t : Tree H) (N : Nested H levels) : Prop where
  root : N.id = t.root
  nodup : N.ids.Nodup
  holds : ∀ n ∈ N.nodes, t.node? n.id = some n

/-- No node has been updated yet. -/
def NeverTicked (t : Tree H) : Prop := ∀ n ∈ t.nodes, n.running = false ∧ n.kind.authored = n.kind

end Tree

/-! ### Unfolding -/

/-- A kind that has not been entered is the flat form of one with any trees under its links. -/
theorem NodeKind.exists_nested {k : NodeKind H} (hk : k.authored = k)
    {cs : List (Nested H levels)} (hcs : cs.map Nested.id = k.links) :
    ∃ k' : NestedKind H (Nested H levels), k'.flat Nested.id = k ∧ k'.children = cs := by
  -- A slot for one child has the head of the trees, which are none or one.
  have hone (child : Option NodeId) (hchild : cs.map Nested.id = child.toList) :
      cs.head?.map Nested.id = child ∧ cs.head?.toList = cs := by
    cases child with
    | none =>
      obtain rfl := List.map_eq_nil_iff.mp hchild
      exact ⟨rfl, rfl⟩
    | some c =>
      obtain ⟨d, rfl, rfl⟩ := List.map_eq_singleton_iff.mp hchild
      exact ⟨rfl, rfl⟩
  cases k with
  | root child =>
    obtain ⟨hid, hchildren⟩ := hone child hcs
    exact ⟨.root cs.head?, congrArg NodeKind.root hid, hchildren⟩
  | repeater child =>
    obtain ⟨hid, hchildren⟩ := hone child hcs
    exact ⟨.repeater cs.head?, congrArg NodeKind.repeater hid, hchildren⟩
  | action a =>
    obtain rfl := List.map_eq_nil_iff.mp hcs
    exact ⟨.action a, rfl, rfl⟩
  | condition c =>
    obtain rfl := List.map_eq_nil_iff.mp hcs
    exact ⟨.condition c, rfl, rfl⟩
  | sequence s =>
    refine ⟨.sequence ⟨cs, [], 0⟩, ?_, rfl⟩
    rw [← hk]
    exact congrArg (fun ids => NodeKind.sequence (.idle ids)) hcs
  | selector s =>
    refine ⟨.selector ⟨cs, [], 0⟩, ?_, rfl⟩
    rw [← hk]
    exact congrArg (fun ids => NodeKind.selector (.idle ids)) hcs
  | parallel ids => exact ⟨.parallel cs, congrArg NodeKind.parallel hcs, rfl⟩
  | randomChoice ids selected =>
    refine ⟨.randomChoice cs none, ?_, rfl⟩
    rw [← hk]
    exact congrArg (NodeKind.randomChoice · none) hcs

/-- A nested tree below a live node. -/
structure Tree.UnfoldsAt (t : Tree H) (id : NodeId) (N : Nested H levels) : Prop where
  id_eq : N.id = id
  nodup : N.ids.Nodup
  holds : ∀ n ∈ N.nodes, t.node? n.id = some n
  reached : ∀ x ∈ N.ids, t.Reaches id x

/-- A node is the top of a nested tree as soon as all its links are. -/
theorem Tree.LinksFormTree.unfoldsAt (h : t.LinksFormTree) {n : Node H}
    (hn : t.node? n.id = some n) (hreach : t.Reaches t.root n.id) (hidle : n.kind.authored = n.kind)
    (hlinks : ∀ c ∈ n.links, ∃ N : Nested H levels, t.UnfoldsAt c N) :
    ∃ N : Nested H (levels+1), t.UnfoldsAt n.id N := by
  have hstep {c : NodeId} (hc : c ∈ n.links) : t.Links n.id c := .of_node? hn hc
  -- The links unfold one by one, in their order.
  have hforest (ids : List NodeId) (hids : ∀ c ∈ ids, c ∈ n.links) :
      ∃ cs : List (Nested H levels), cs.map Nested.id = ids ∧ ∀ c ∈ cs, t.UnfoldsAt c.id c := by
    induction ids with
    | nil => exact ⟨[], rfl, by simp⟩
    | cons id ids ih =>
      obtain ⟨c, hc⟩ := hlinks id (hids id List.mem_cons_self)
      obtain ⟨cs, hcs, hall⟩ := ih fun c hc => hids c (List.mem_cons_of_mem id hc)
      refine ⟨c :: cs, by simp [hc.id_eq, hcs], ?_⟩
      intro d hd
      rcases List.mem_cons.mp hd with rfl | hd
      · exact hc.id_eq ▸ hc
      · exact hall d hd
  obtain ⟨cs, hcs, hall⟩ := hforest n.links fun _ hc => hc
  obtain ⟨kind, hflat, hchildren⟩ := NodeKind.exists_nested hidle hcs
  have hlink {c : Nested H levels} (hc : c ∈ cs) : t.Links n.id c.id :=
    hstep (hcs ▸ List.mem_map_of_mem hc)
  let top : NestedNode H (Nested H levels) := ⟨n.id, n.guid, n.typeName, n.name, kind,
    n.alwaysCheck, n.position, n.owner, n.blackboard, n.running, n.observers⟩
  let N : Nested H (levels+1) := top
  have htop : top.flat Nested.id = n := by
    unfold top NestedNode.flat
    rw [hflat]
  have hids : N.ids = n.id :: cs.flatMap Nested.ids := by
    rw [← hchildren]
    exact N.ids_succ
  refine ⟨N, rfl, ?_, ?_, ?_⟩
  · rw [hids, List.nodup_cons, List.nodup_flatMap]
    refine ⟨?_, fun c hc => (hall c hc).nodup, ?_⟩
    · -- A subtree that holds the node itself would close a circle.
      intro hmem
      obtain ⟨c, hc, hmem⟩ := List.mem_flatMap.mp hmem
      exact h.acyclic n.id hreach (TransGen.head' (hlink hc) ((hall c hc).reached n.id hmem))
    -- Different children lead to different nodes, so their subtrees share no identifier.
    · have honce : cs.Pairwise fun c d => c.id ≠ d.id := by
        have hnodup := h.once n.id hreach
        rw [Tree.children_of_node? hn, ← hcs] at hnodup
        exact List.pairwise_map.mp hnodup
      refine honce.imp_of_mem fun {c d} hc hd hne => ?_
      intro x hx hx'
      exact h.siblings_apart hreach (hlink hc) (hlink hd) hne ((hall c hc).reached x hx)
        ((hall d hd).reached x hx')
  · intro m hm
    rw [N.nodes_succ] at hm
    rcases List.mem_cons.mp hm with rfl | hm
    · change t.node? (top.flat Nested.id).id = some (top.flat Nested.id)
      rwa [htop]
    · obtain ⟨c, hc, hm⟩ := List.mem_flatMap.mp hm
      rw [← hchildren] at hall
      exact (hall c hc).holds m hm
  · intro x hx
    rw [hids] at hx
    rcases List.mem_cons.mp hx with rfl | hx
    · exact ReflTransGen.refl
    · obtain ⟨c, hc, hx⟩ := List.mem_flatMap.mp hx
      exact ReflTransGen.head (hlink hc) ((hall c hc).reached x hx)

/-- Below a node with some ancestors there are at most as many levels as there are other nodes. -/
theorem Tree.LinksFormTree.exists_unfoldsAt (h : t.LinksFormTree) (hnever : t.NeverTicked)
    {ancestors : List NodeId} {id : NodeId} (hreach : t.Reaches t.root id)
    (hnodup : ancestors.Nodup) (habove : ∀ a ∈ ancestors, t.contains a ∧ TransGen t.Links a id)
    (hsize : t.size ≤ ancestors.length+levels) : ∃ N : Nested H levels, t.UnfoldsAt id N := by
  have hfresh : id ∉ ancestors := fun hid => h.acyclic id hreach (habove id hid).2
  induction levels generalizing ancestors id with
  | zero =>
    -- All nodes are ancestors already, and here is one more.
    have hsub : ∀ x ∈ id :: ancestors, x ∈ t.ids := by
      intro x hx
      rcases List.mem_cons.mp hx with rfl | hx
      · exact Tree.contains_iff.mp (h.live x hreach)
      · exact Tree.contains_iff.mp (habove x hx).1
    have hle := (List.subperm_of_subset (List.nodup_cons.mpr ⟨hfresh, hnodup⟩) hsub).length_le
    simp only [List.length_cons, Tree.ids, List.length_map, Tree.size] at hle hsize
    omega
  | succ levels ih =>
    obtain ⟨n, hn⟩ := Option.isSome_iff_exists.mp (h.live id hreach)
    obtain ⟨hmem, rfl⟩ := Tree.node?_some hn
    refine h.unfoldsAt hn hreach (hnever n hmem).2 fun c hc => ?_
    have hlink : t.Links n.id c := .of_node? hn hc
    -- The node itself is one more ancestor of each of its children.
    have habove' : ∀ a ∈ n.id :: ancestors, t.contains a ∧ TransGen t.Links a c := by
      intro a ha
      rcases List.mem_cons.mp ha with rfl | ha
      · exact ⟨h.live n.id hreach, TransGen.single hlink⟩
      · exact ⟨(habove a ha).1, (habove a ha).2.tail hlink⟩
    refine ih (hreach.tail hlink) (List.nodup_cons.mpr ⟨hfresh, hnodup⟩) habove' ?_ ?_
    · simp only [List.length_cons]
      omega
    · intro hc
      exact h.acyclic c (hreach.tail hlink) (habove' c hc).2

/-- A tree that has never been ticked unfolds. -/
theorem Tree.LinksFormTree.exists_unfolds (h : t.LinksFormTree) (hnever : t.NeverTicked) :
    ∃ N : Nested H t.size, t.Unfolds N := by
  have hsize : t.size ≤ ([] : List NodeId).length+t.size := by simp
  obtain ⟨N, hN⟩ := h.exists_unfoldsAt hnever ReflTransGen.refl List.nodup_nil (by simp) hsize
  exact ⟨N, hN.id_eq, hN.nodup, hN.holds⟩

/-! ### Ticks -/

theorem Tree.Unfolds.fits {N : Nested H levels} (h : t.Unfolds N) (world : H.World)
    (audience : H.Audience) : Fits [] (t.stage world audience) [N] := by
  refine ⟨?_, ?_, by simp⟩
  · intro M hM
    obtain rfl := List.mem_singleton.mp hM
    exact h.holds
  · rw [List.flatMap_singleton]
    exact h.nodup

/-- What ticks of a tree and ticks of a nested one have in common: the answers, everything that
happens in them, which never is a link that leads nowhere, what the leaves and the observers share,
and the nodes after them. Nodes that the root does not lead to stay as they are. -/
structure Tree.TicksAs (t : Tree H) (N : Nested H levels) (ticked : Ticked H × List Status)
    (nested : Play H (List Status × Nested H levels)) : Prop where
  statuses : ticked.2 = nested.answer.1
  trace : ticked.1.trace = nested.trace
  shared : (ticked.1.tree.stage ticked.1.world ticked.1.audience).bare = nested.stage
  unfolds : ticked.1.tree.Unfolds nested.answer.2
  rest : ∀ id, id ∉ N.ids → ticked.1.tree.node? id = t.node? id
  resolved : ∀ c, TraceItem.warning (.unresolved c) ∉ ticked.1.trace

/-- One tick. -/
theorem Tree.Unfolds.tick {N : Nested H levels} (h : t.Unfolds N) (hlevels : levels ≤ t.size)
    (frame : TickContext) (world : H.World) (audience : H.Audience) :
    Matches [N] (fun b => [b.2]) (fun a b => a = b.1) (t.stage world audience)
      (updateNode frame t.size [] t.root (t.stage world audience))
      (N.update frame none (t.stage world audience).bare) := by
  have hmirrors := updateNode_mirrors frame hlevels [] N
  rw [h.root] at hmirrors
  exact hmirrors (t.stage world audience) (h.fits world audience)

theorem Tree.tick_size (t : Tree H) (frame : TickContext) (world : H.World)
    (audience : H.Audience) : (t.tick frame world audience).tree.size = t.size := by
  have hids := (updateNode_guarded frame t.size [] t.root (t.stage world audience)).1
  have hlength := congrArg List.length hids
  simpa [Stage.ids, Tree.size, Tree.tick, Tree.stage] using hlength

theorem Tree.Unfolds.run {N : Nested H levels} (h : t.Unfolds N) (hlevels : levels ≤ t.size)
    (world : H.World) (audience : H.Audience) (frames : List TickContext) :
    t.TicksAs N (t.run world audience frames) (N.run frames (t.stage world audience).bare) := by
  induction frames generalizing t N world audience with
  | nil => exact ⟨rfl, rfl, rfl, h, fun _ _ => rfl, by simp [Tree.run]⟩
  | cons frame frames ih =>
    have hfirst := h.tick hlevels frame world audience
    obtain ⟨hids, hholds, hrest⟩ := hfirst.moves
    have hids : (N.update frame none (t.stage world audience).bare).answer.2.ids = N.ids := by
      simpa using hids
    -- The tree after the first tick unfolds to the nested tree after it.
    have hunfolds : (t.tick frame world audience).tree.Unfolds
        (N.update frame none (t.stage world audience).bare).answer.2 := by
      refine ⟨?_, hids ▸ h.nodup, hholds _ List.mem_cons_self⟩
      have hname := map_id_eq hfirst.moves.ids
      rw [List.map_singleton, List.map_singleton, List.singleton_inj] at hname
      exact hname.trans h.root
    have hlevels' : levels ≤ (t.tick frame world audience).tree.size := by
      rwa [t.tick_size]
    have hnext := ih hunfolds hlevels' (t.tick frame world audience).world
      (t.tick frame world audience).audience
    have hstage : ((t.tick frame world audience).tree.stage (t.tick frame world audience).world
        (t.tick frame world audience).audience).bare =
        (N.update frame none (t.stage world audience).bare).stage := hfirst.bare
    rw [hstage] at hnext
    refine ⟨?_, ?_, hnext.shared, hnext.unfolds, ?_, ?_⟩
    · exact congrArg₂ List.cons hfirst.answer hnext.statuses
    · have htick : (t.tick frame world audience).trace = _ := hfirst.trace
      have htrace := congrArg₂ (· ++ ·) htick hnext.trace
      simpa [Tree.run, Nested.run] using htrace
    · intro id hid
      have hid' : id ∉ [N].flatMap Nested.ids := by simpa using hid
      exact (hnext.rest id (hids ▸ hid)).trans (hrest id hid')
    · intro c hc
      rcases List.mem_append.mp hc with hc | hc
      · exact hfirst.resolved c hc
      · exact hnext.resolved c hc

/-- A tree that has never been ticked and whose links form a tree unfolds to a nested one, and
however often it is ticked it does what that does: the same statuses, the same calls of leaves,
events and warnings in the same order, the same blackboard, random stream and outside world, and
the same nodes. No link is ever found to lead nowhere. -/
theorem tick_refines_nested (t : Tree H) (hlinks : t.LinksFormTree) (hnever : t.NeverTicked) :
    ∃ N : Nested H t.size, t.Unfolds N ∧ ∀ world audience frames,
      t.TicksAs N (t.run world audience frames) (N.run frames (t.stage world audience).bare) := by
  obtain ⟨N, hN⟩ := hlinks.exists_unfolds hnever
  exact ⟨N, hN, fun world audience frames => hN.run (Nat.le_refl _) world audience frames⟩

/-- A sequence with a guard, and a choice that is not attached. -/
def Demo.watch : Tree Demo.smallHost where
  root := .ofNat 1
  nodes := [.make (.ofNat 1) "Root" (.root (some (.ofNat 2))),
    .make (.ofNat 2) "Sequence" (.sequence (.idle [.ofNat 3, .ofNat 4])),
    { Node.make (.ofNat 3) "Toggle" (.condition Demo.Condition.toggle) with alwaysCheck := true },
    .make (.ofNat 4) "Wait" (.action (Demo.Action.wait 3 3)),
    .make (.ofNat 5) "RandomChoice" (.randomChoice [.ofNat 6] none),
    .make (.ofNat 6) "Fail" (.action Demo.Action.fail)]
  blackboard := .empty default
  owner := none
  registry := .builtin
  seed := 0
  rng := ⟨0⟩
  status := .running
  observers := []

theorem tick_refines_nested_watch : Demo.watch.LinksFormTree ∧ Demo.watch.NeverTicked ∧
    ∃ N : Nested Demo.smallHost Demo.watch.size, Demo.watch.Unfolds N ∧ ∀ world audience frames,
      Demo.watch.TicksAs N (Demo.watch.run world audience frames)
        (N.run frames (Demo.watch.stage world audience).bare) := by
  have hlinks : Demo.watch.LinksFormTree :=
    .of_rank (fun id => id.uuid.bits.toNat) (by decide) (by decide) (by decide)
  have hnever : Demo.watch.NeverTicked := by
    intro n hn
    simp only [Demo.watch, List.mem_cons, List.not_mem_nil, or_false] at hn
    rcases hn with rfl | rfl | rfl | rfl | rfl | rfl <;> exact ⟨rfl, rfl⟩
  exact ⟨hlinks, hnever, tick_refines_nested Demo.watch hlinks hnever⟩

end BehaviourTree
