import BehaviourTree.Proofs.NestedRefinement
import BehaviourTree.Proofs.ParallelScans
import BehaviourTree.Proofs.SeriesTurns

/-!
How often one tick can update a node: every guard on the way up to the root may double it, and
nothing else can.
-/

namespace BehaviourTree

open Ticking

variable {H : Host} {id c p : NodeId}

/-! ### What one update asks -/

theorem repliesOf_length (c : NodeId) (answers : List (NodeId × Status)) :
    (repliesOf c answers).length = (answers.map (·.1)).count c := by
  induction answers with
  | nil => rfl
  | cons a answers ih =>
    by_cases ha : a.1 = c
    · have hfirst : repliesOf c (a :: answers) = a.2 :: repliesOf c answers := by
        simp [repliesOf, ha]
      rw [hfirst, List.length_cons, ih, List.map_cons, ha, List.count_cons_self]
    · have hfirst : repliesOf c (a :: answers) = repliesOf c answers := by simp [repliesOf, ha]
      rw [hfirst, ih, List.map_cons, List.count_cons_of_ne ha]

/-- A series asks guards, each in its place, and then one child at most. -/
theorem Series.Turn.asked {pass status : Status} {s after : Series}
    {answers : List (NodeId × Status)} (h : s.Turn pass answers status after) :
    ∃ last, last.length ≤ 1 ∧ (answers.map (·.1)).Sublist (s.guards ++ last) := by
  have hguards (guards : List NodeId) :
      (guards.map fun g => (g, Status.success)).map (·.1) = guards := by simp [Function.comp_def]
  cases h with
  | empty _ => exact ⟨[], Nat.zero_le 1, List.nil_sublist _⟩
  | @stopped held later g answer _ guards _ =>
    refine ⟨[], Nat.zero_le 1, ?_⟩
    rw [List.map_append, hguards, guards, List.append_nil]
    exact (List.Sublist.refl held).append (List.cons_sublist_cons.mpr (List.nil_sublist later))
  | beyond _ _ => exact ⟨[], Nat.zero_le 1, by rw [hguards, List.append_nil]⟩
  | @keeps c _ _ _ | @passes c _ =>
    refine ⟨[c], Nat.le_refl 1, ?_⟩
    rw [List.map_append, hguards]
    exact .refl _

/-- An update asks a child once, and once more if it is a guard. -/
theorem NodeKind.update_asked {ask : NodeId → Ticking H Status}
    (hask : ∀ c s, (ask c s).trace.answersTo id = [(c, (ask c s).answer)]) {k : NodeKind H}
    (honce : k.links.Nodup) (context : LeafContext) (s : Stage H) (c : NodeId) :
    (((k.update context ask s).trace.answersTo id).map (·.1)).count c ≤ k.guards.count c+1 := by
  have hturn {pass status : Status} {series after : Series} {answers : List (NodeId × Status)}
      (h : series.Turn pass answers status after) :
      (answers.map (·.1)).count c ≤ series.guards.count c+1 := by
    obtain ⟨last, hlast, hasked⟩ := h.asked
    calc (answers.map (·.1)).count c
      _ ≤ (series.guards ++ last).count c := hasked.count_le c
      _ = series.guards.count c+last.count c := List.count_append
      _ ≤ series.guards.count c+1 := Nat.add_le_add_left (List.count_le_length.trans hlast) _
  have hsingle {τ : Trace H} (d : NodeId) (hτ : τ = (ask d s).trace ++ []) :
      ((τ.answersTo id).map (·.1)).count c ≤ 1 := by
    rw [hτ, List.append_nil, hask]
    exact List.count_le_length
  have hnone {τ : Trace H} (hτ : ∀ i ∈ τ, ∀ caller node status, i ≠ .answered caller node status) :
      ((τ.answersTo id).map (·.1)).count c ≤ 1 := by
    rw [Trace.answersTo_unanswered hτ]
    exact Nat.zero_le 1
  cases k with
  | sequence series =>
    have hrun : ((NodeKind.sequence series).update context ask s).trace =
        (series.update ask .success .sequenceWithoutChildren s).trace ++ [] := rfl
    rw [hrun, List.append_nil]
    exact hturn (series.update_turns hask _ _ s)
  | selector series =>
    have hrun : ((NodeKind.selector series).update context ask s).trace =
        (series.update ask .fail .selectorWithoutChildren s).trace ++ [] := rfl
    rw [hrun, List.append_nil]
    exact hturn (series.update_turns hask _ _ s)
  | parallel cs =>
    have hrun : ((NodeKind.parallel cs).update context ask s).trace =
        (updateAll ask cs .success s).trace ++ [] := rfl
    have hasked := (updateAll_scans hask cs .success s).asked.sublist
    rw [hrun, List.append_nil]
    exact List.nodup_iff_count_le_one.mp (honce.sublist hasked) c
  | root child =>
    cases child with
    | none => exact hnone (by simp [NodeKind.update])
    | some d => exact hsingle d rfl
  | repeater child =>
    cases child with
    | none => exact hnone (by simp [NodeKind.update])
    | some d => exact hsingle d rfl
  | randomChoice cs selected =>
    cases selected with
    | none => exact hnone (by simp [NodeKind.update])
    | some d => exact hsingle d rfl
  | action a => exact hnone (by simp [NodeKind.update, leaf])
  | condition d => exact hnone (by simp [NodeKind.update, leaf])

theorem Visit.replies_le {v : Visit H} (honce : v.node.links.Nodup) (c : NodeId) :
    (repliesOf c v.answers).length ≤ v.left.kind.guards.count c+1 := by
  have hlinks : v.opening.answer.links = v.node.links := (v.node.begin_alike v.context _ v.stage).2
  rw [repliesOf_length, v.answers_eq, v.left_gathered.1]
  exact NodeKind.update_asked v.ask_answers (hlinks ▸ honce) v.context v.opening.stage c

/-! ### Guards are never forgotten -/

theorem subset_collectGuards (flagged : NodeId → Bool) (children guards : List NodeId) :
    guards ⊆ collectGuards flagged children guards := by
  induction children generalizing guards with
  | nil => exact List.Subset.refl guards
  | cons c children ih =>
    refine List.Subset.trans ?_ (ih _)
    dsimp only
    split
    · exact List.subset_append_left guards [c]
    · exact List.Subset.refl guards

theorem Visit.guards_subset (v : Visit H) : v.node.kind.guards ⊆ v.left.kind.guards := by
  rw [v.left_gathered.1]
  cases hrunning : v.node.running with
  | true =>
    rw [opening_of_running hrunning]
    exact List.Subset.refl _
  | false =>
    rw [opening_of_idle hrunning]
    cases v.node.kind with
    | sequence series | selector series =>
      exact subset_collectGuards _ series.children series.guards
    | root _ | action _ | condition _ | repeater _ | parallel _ | randomChoice _ _ =>
      exact List.nil_subset _

/-- The guards that a node has collected, if it is there. -/
def collected (n : Option (Node H)) : List NodeId := (n.map (·.kind.guards)).getD []

theorem Handed.collected_subset {n n' : Option (Node H)} {vs : List (Visit H)}
    (h : Handed n vs n') : collected n ⊆ collected n' ∧
      ∀ v ∈ vs, v.left.kind.guards ⊆ collected n' := by
  induction vs generalizing n with
  | nil =>
    obtain rfl : n' = n := h
    exact ⟨List.Subset.refl _, by simp⟩
  | cons v vs ih =>
    obtain ⟨rfl, hrest⟩ := h
    obtain ⟨hleft, hall⟩ := ih hrest
    exact ⟨List.Subset.trans v.guards_subset hleft, List.forall_mem_cons.mpr ⟨hleft, hall⟩⟩

/-! ### From a node to its children -/

/-- A node has each of its children once, and what it remembers of them fits. -/
structure Node.Orderly (n : Node H) : Prop where
  once : n.links.Nodup
  fits : n.Fits

theorem Visit.left_orderly {v : Visit H} (h : v.node.Orderly) : v.left.Orderly := by
  refine ⟨?_, v.node.update_fits v.frame _ v.ask h.fits v.stage⟩
  have hlinks : v.left.links = v.node.links := congrArg Profile.links v.left_profile
  exact hlinks ▸ h.once

/-- In the updates of a node a child is asked once each time, or twice if it ends up as a guard. -/
theorem Visited.replies_le {s s' : Stage H} {τ : Trace H} {vs : List (Visit H)}
    (h : Visited p s τ s' vs) (horderly : ∀ m, s.node? p = some m → m.Orderly) (c : NodeId) :
    (repliesOf c (τ.answersTo p)).length ≤
      (τ.statusesOf p).length*(if c ∈ collected (s'.node? p) then 2 else 1) := by
  have hall : ∀ v ∈ vs, v.node.Orderly := h.handed.keeps (fun _ => Visit.left_orderly) horderly
  obtain ⟨-, hkept⟩ := h.handed.collected_subset
  rw [h.answers, ← h.statuses, List.length_map]
  generalize hmost : (if c ∈ collected (s'.node? p) then 2 else 1) = most
  have heach : ∀ v ∈ vs, (repliesOf c v.answers).length ≤ most := by
    intro v hv
    have hcount : v.left.kind.guards.count c+1 ≤ most := by
      rw [← hmost]
      split
      · have honce := (Visit.left_orderly (hall v hv)).fits.kind.distinct
        exact Nat.succ_le_succ (List.nodup_iff_count_le_one.mp honce c)
      · next hnot =>
        rw [List.count_eq_zero_of_not_mem fun hc => hnot (hkept v hv hc)]
    exact (v.replies_le (hall v hv).once c).trans hcount
  clear h hall hkept
  induction vs with
  | nil => exact Nat.zero_le _
  | cons v vs ih =>
    obtain ⟨hv, hvs⟩ := List.forall_mem_cons.mp heach
    rw [List.flatMap_cons, repliesOf_append, List.length_append, List.length_cons, Nat.succ_mul,
      Nat.add_comm]
    exact Nat.add_le_add (ih hvs) hv

namespace Tree

variable {t : Tree H}

/-- How many nodes on a way up are guards of the next one. -/
def guardsAbove (t : Tree H) : List NodeId → Nat
  | c :: p :: path => t.guardsAbove (p :: path)+if c ∈ collected (t.node? p) then 1 else 0
  | _ => 0

theorem guardsAbove_eq_zero {way : List NodeId}
    (h : ∀ c p, [c, p] <:+: way → c ∉ collected (t.node? p)) : t.guardsAbove way = 0 := by
  induction way with
  | nil => rfl
  | cons c path ih =>
    cases path with
    | nil => rfl
    | cons p path =>
      have hrest := ih fun d q hdq => h d q (hdq.trans (List.suffix_cons c _).isInfix)
      rw [guardsAbove, hrest, if_neg (h c p ⟨[], path, rfl⟩)]

/-- In a tick of a tidy tree each guard on the way up to the root doubles the updates of a node at
most. -/
theorem Tidy.updates_le (h : t.Tidy) (hfits : ∀ n ∈ t.nodes, n.Fits) (frame : TickContext)
    (world : H.World) (audience : H.Audience) {path : List NodeId} (way : t.Way (id :: path)) :
    let r := t.tick frame world audience
    (r.trace.statusesOf id).length ≤ 2^r.tree.guardsAbove (id :: path) := by
  intro r
  induction path generalizing id with
  | nil =>
    obtain rfl := way.eq_root
    have hroot : r.trace.statusesOf t.root = [r.tree.status] :=
      tick_root (h.links.live t.root .refl) frame world audience
    rw [hroot]
    exact Nat.one_le_two_pow
  | cons p path ih =>
    obtain ⟨hlink, hway⟩ := way.parent
    obtain ⟨hreach, -⟩ := hway.leads
    obtain ⟨-, -, hanswers⟩ := h.tick frame world audience
    -- All updates of the node are asked by its parent, in the parent's own updates.
    have hcaller : ([] : List NodeId).head? ≠ some p := nofun
    obtain ⟨vs, hvisited, -⟩ :=
      updateNode_visited p frame t.size hcaller t.root (t.stage world audience)
    have horderly (m : Node H) (hm : (t.stage world audience).node? p = some m) : m.Orderly :=
      ⟨children_of_node? hm ▸ h.links.once p hreach, hfits m (node?_some hm).1⟩
    have hdouble : (if id ∈ collected (r.tree.node? p) then 2 else 1) =
        2^if id ∈ collected (r.tree.node? p) then 1 else 0 := by
      split <;> rfl
    calc (r.trace.statusesOf id).length
      _ = (repliesOf id (r.trace.answersTo p)).length :=
        congrArg List.length (hanswers p id (h.links.soleParent hreach hlink))
      _ ≤ (r.trace.statusesOf p).length*(if id ∈ collected (r.tree.node? p) then 2 else 1) :=
        hvisited.replies_le horderly id
      _ ≤ 2^r.tree.guardsAbove (p :: path)*(if id ∈ collected (r.tree.node? p) then 2 else 1) :=
        Nat.mul_le_mul_right _ (ih hway)
      _ = 2^r.tree.guardsAbove (id :: p :: path) := by rw [hdouble, ← Nat.pow_add, guardsAbove]

theorem NeverTicked.fits (h : t.NeverTicked) : ∀ n ∈ t.nodes, n.Fits := by
  intro n hn
  obtain ⟨hidle, hauthored⟩ := h n hn
  refine Node.Unentered.fits ⟨?_, hidle⟩
  have hmemory := n.kind.memory_authored n.kind.links
  rwa [hauthored, n.kind.setLinks_self] at hmemory

theorem LinkedAs.way_iff {t' : Tree H} (h : t.LinkedAs t') {way : List NodeId} :
    t'.Way way ↔ t.Way way := by
  constructor
  · rintro ⟨hsteps, htop⟩
    exact ⟨h.links_eq ▸ hsteps, h.root ▸ htop⟩
  · rintro ⟨hsteps, htop⟩
    exact ⟨h.links_eq ▸ hsteps, h.root ▸ htop⟩

end Tree

/-- How often a tick updates a node. A tree whose links form a tree, and that has not been ticked
before, is ticked again and again, and edited in between, but not in its structure. Then a tick
updates a node 2ᵏ times at most, where k is the number of nodes on the way up to the root, the node
among them, that are guards of their parents after the tick. So one with no guard on its way is
updated once at most, the root is updated once, and what is updated has such a way. -/
theorem updates_bounded {first : Session H} (hlinks : first.tree.LinksFormTree)
    (hnever : first.tree.NeverTicked) {ops : List (Operation H)}
    (hops : ∀ op ∈ ops, ¬ op.Structural) (frame : TickContext) :
    let ticked := (first.run ops).1.step (.tick frame)
    (∀ id path, ticked.1.tree.Way (id :: path) →
      (ticked.2.statusesOf id).length ≤ 2^ticked.1.tree.guardsAbove (id :: path) ∧
      ((∀ c p, [c, p] <:+: id :: path → c ∉ collected (ticked.1.tree.node? p)) →
        (ticked.2.statusesOf id).length ≤ 1)) ∧
    (ticked.2.statusesOf ticked.1.tree.root).length = 1 ∧
    ∀ id, ticked.2.statusesOf id ≠ [] → ∃ path, ticked.1.tree.Way (id :: path) := by
  intro ticked
  let s := (first.run ops).1
  have hall := Session.run_maintained hnever.fits hops
  have htree : s.tree.LinksFormTree := hall.linked.linksFormTree hlinks
  have htidy : s.tree.Tidy := htree.tidy hall.fits
  obtain ⟨-, hlinked, -⟩ := Tree.tick_within hall.fits frame s.world s.audience
  refine ⟨fun id path hway => ?_, ?_, fun id hstatuses => ?_⟩
  · have hbound := htidy.updates_le hall.fits frame s.world s.audience (hlinked.way_iff.mp hway)
    refine ⟨hbound, fun hnone => ?_⟩
    have hzero : ticked.1.tree.guardsAbove (id :: path) = 0 := Tree.guardsAbove_eq_zero hnone
    exact hbound.trans (hzero ▸ Nat.le_refl _)
  · have hroot := Tree.tick_root (htree.live s.tree.root .refl) frame s.world s.audience
    exact congrArg List.length hroot
  · obtain ⟨status, hstatus⟩ := List.exists_mem_of_ne_nil _ hstatuses
    obtain ⟨path, hway⟩ :=
      Tree.exists_way (htidy.reaches_of_status frame s.world s.audience hstatus)
    exact ⟨path, hlinked.way_iff.mpr hway⟩

/-- A sequence of a sequence of an action that succeeds, the inner one a guard. -/
def Demo.nesting : Session Demo.smallHost where
  tree := { tangle with
    nodes := [.make (.ofNat 1) "Root" (.root (some (.ofNat 2))),
      .make (.ofNat 2) "Sequence" (.sequence (.idle [.ofNat 3])),
      { Node.make (.ofNat 3) "Sequence" (.sequence (.idle [.ofNat 4])) with alwaysCheck := true },
      .make (.ofNat 4) "Succeed" (.action Demo.Action.succeed)] }
  supply := counted
  world := (⟨∅⟩ : TeamBoards)
  audience := (⟨∅⟩ : Recordings)

/-- Once the action is a guard as well it is updated four times in a tick: as guard and as child, in
an update of the inner sequence as guard and in one as child. -/
theorem updates_bounded_nesting :
    let ticked := (Demo.nesting.run [.tick ⟨0, 0, 0⟩, .setAlwaysCheck (.ofNat 4) true]).1.step
      (.tick ⟨1, 0, 0⟩)
    ticked.1.tree.guardsAbove [.ofNat 4, .ofNat 3, .ofNat 2, .ofNat 1] = 2 ∧
      (ticked.2.statusesOf (.ofNat 4)).length = 2^2 ∧
      (ticked.2.statusesOf (.ofNat 4)).length ≤
        2^ticked.1.tree.guardsAbove [.ofNat 4, .ofNat 3, .ofNat 2, .ofNat 1] ∧
      (ticked.2.statusesOf ticked.1.tree.root).length = 1 := by
  intro ticked
  have hlinks : Demo.nesting.tree.LinksFormTree := by
    refine Tree.LinksFormTree.of_rank (·.uuid.bits.toNat) ?_ ?_ ?_ <;> decide +kernel
  have hnever : Demo.nesting.tree.NeverTicked := by
    simp [Tree.NeverTicked, Demo.nesting, Node.make, NodeKind.authored, Series.idle]
  have hops : ∀ op ∈ [.tick ⟨0, 0, 0⟩, .setAlwaysCheck (.ofNat 4) true],
      ¬ (op : Operation Demo.smallHost).Structural := by
    simp [Operation.Structural]
  obtain ⟨hbound, hroot, -⟩ := updates_bounded hlinks hnever hops ⟨1, 0, 0⟩
  have hway : ticked.1.tree.Way [.ofNat 4, .ofNat 3, .ofNat 2, .ofNat 1] := by
    refine ⟨.cons_cons ?_ (.cons_cons ?_ (.cons_cons ?_ (.singleton _))), by decide +kernel⟩
    all_goals
      unfold Tree.Links
      decide +kernel
  refine ⟨by decide +kernel, by decide +kernel, (hbound _ _ hway).1, hroot⟩

end BehaviourTree
