import BehaviourTree.Proofs.NestedKinds

/-!
Updating a node of a stage does to the tree below it there what updating the nested tree does.
-/

namespace BehaviourTree

open Ticking

variable {H : Host} {levels : Nat} {path : List NodeId}

/-! ### Nodes -/

section Node

variable {ask : NodeId → Ticking H Status}
  {ask' : Nested H levels → Ticking H (Status × Nested H levels)}

/-- Among trees that fit a stage, the roots to be polled as guards are those that are flagged. -/
theorem Fits.isGuard {s : Stage H} {cs : List (Nested H levels)} (hs : Fits path s cs)
    {c : Nested H levels} (hc : c ∈ cs) : s.isGuard path c.id = c.alwaysCheck := by
  cases levels with
  | zero => exact Empty.elim c
  | succ levels =>
    have hmem : NestedNode.flat Nested.id c ∈ c.nodes := List.mem_cons_self
    have hid : c.id ∈ cs.flatMap Nested.ids :=
      List.mem_flatMap.mpr ⟨c, hc, List.mem_map_of_mem hmem⟩
    have hfound := hs.holds c hc _ hmem
    unfold Stage.isGuard
    rw [Stage.find?_eq_node? (hs.idle _ hid)]
    change ((s.node? (NestedNode.flat Nested.id c).id).any (·.alwaysCheck)) = _
    rw [hfound]
    rfl

theorem Fits.nodup_id {s : Stage H} {cs : List (Nested H levels)} (hs : Fits path s cs) :
    (cs.map Nested.id).Nodup := by
  cases levels with
  | zero =>
    cases cs with
    | nil => exact List.nodup_nil
    | cons c _ => exact Empty.elim c
  | succ levels =>
    have hsub : (cs.map Nested.id).Sublist (cs.flatMap Nested.ids) := by
      induction cs with
      | nil => exact List.Sublist.slnil
      | cons c cs ih =>
        have hrest := ih ⟨fun d hd => hs.holds d (List.mem_cons_of_mem c hd),
          (List.nodup_append.mp hs.nodup).2.1,
          fun id hid => hs.idle id (List.mem_append_right _ hid)⟩
        exact (hrest.trans (List.sublist_append_right _ _)).cons_cons (NestedNode.id c)
    exact hs.nodup.sublist hsub

theorem NestedNode.begin_mirrors (frame : TickContext) (n : NestedNode H (Nested H levels)) :
    Mirrors path n.kind.children NestedKind.children (fun a b => a = b.flat Nested.id)
      ((n.flat Nested.id).begin ⟨frame, n.id, n.owner⟩ fun s c => s.isGuard path c)
      (n.begin ⟨frame, n.id, n.owner⟩ Nested.alwaysCheck) := by
  have hrunning : (n.flat Nested.id).running = n.running := rfl
  unfold Node.begin NestedNode.begin
  rw [hrunning]
  split
  · exact mirrors_pure rfl rfl
  · have hemit : Own n.id (emit (.entered n.id) : Ticking H Unit) := own_emit rfl
    refine (mirrors_own hemit (blind_emit _)).bind ?_
    -- The flags are read off the stage as it is when the run begins.
    intro _ _ _ _ s hs
    exact n.kind.enter_mirrors ⟨frame, n.id, n.owner⟩ hs.nodup_id (fun c hc => hs.isGuard hc) s hs

/-- A node that has been found is updated as the nested node is. -/
theorem NestedNode.update_mirrors (hask : AsksFor path ask ask') (frame : TickContext)
    (n : NestedNode H (Nested H levels)) :
    Mirrors path n.kind.children (·.2.kind.children)
      (fun a b => a = (b.1, b.2.flat Nested.id) ∧ b.2.id = n.id)
      ((n.flat Nested.id).update frame (fun s c => s.isGuard path c) ask)
      (n.update frame Nested.id Nested.alwaysCheck ask') := by
  refine (n.begin_mirrors frame).bind ?_
  rintro _ kind rfl _
  refine (kind.update_mirrors hask ⟨frame, n.id, n.owner⟩).bind ?_
  rintro _ ⟨status, kind⟩ rfl _
  have hannounce : Own n.id (announce ⟨frame.tick, n.id, n.guid, status⟩ n.observers) :=
    own_announce rfl n.observers
  refine (mirrors_own hannounce (blind_announce _ n.observers)).bind ?_
  rintro observers _ rfl _
  refine (kind.settle_mirrors ⟨frame, n.id, n.owner⟩ status).bind ?_
  rintro _ kind rfl _
  exact mirrors_pure rfl ⟨rfl, rfl⟩

end Node

/-! ### Trees -/

/-- The trees below the top of a tree fit the stage while the top is updated. -/
theorem Fits.below {s : Stage H} {N : Nested H (levels+1)} (hs : Fits path s [N]) :
    Fits (N.id :: path) s N.below := by
  obtain ⟨hholds, hnodup, hidle⟩ := hs
  rw [List.flatMap_singleton, Nested.ids_succ] at hnodup hidle
  obtain ⟨hself, hnodup⟩ := List.nodup_cons.mp hnodup
  refine ⟨?_, hnodup, ?_⟩
  · intro c hc n hn
    have hbelow : n ∈ N.nodes := List.mem_cons_of_mem _ (List.mem_flatMap.mpr ⟨c, hc, hn⟩)
    exact hholds N List.mem_cons_self n hbelow
  · intro id hid hpath
    rcases List.mem_cons.mp hpath with rfl | hpath
    · exact hself hid
    · exact hidle id (List.mem_cons_of_mem _ hid) hpath

/-- Putting the top back completes what happened to the trees below it. -/
theorem Moves.restore {s s' : Stage H} {N N' : Nested H (levels+1)} (hs : Fits path s [N])
    (h : Moves s s' N.below N'.below) (hid : N'.id = N.id) :
    Moves s (s'.restore (N'.top.flat Nested.id)) [N] [N'] := by
  have hids : N'.ids = N.ids := by
    rw [Nested.ids_succ, Nested.ids_succ, hid, flatMap_ids_eq h.ids]
  have htop : (N'.top.flat Nested.id).id = N.id := hid
  have hself : N.id ∉ N.below.flatMap Nested.ids := by
    have hnodup := hs.nodup
    rw [List.flatMap_singleton, Nested.ids_succ] at hnodup
    exact (List.nodup_cons.mp hnodup).1
  refine ⟨by simp [hids], ?_, ?_⟩
  · intro M hM n hn
    obtain rfl := List.mem_singleton.mp hM
    rw [Nested.nodes_succ] at hn
    rcases List.mem_cons.mp hn with rfl | hn
    · have hthere : s'.node? N.id = some (N.top.flat Nested.id) := by
        rw [h.rest N.id hself]
        exact hs.holds N List.mem_cons_self _ List.mem_cons_self
      rw [Stage.restore_node?, if_pos rfl, htop, hthere]
      rfl
    · obtain ⟨c, hc, hn⟩ := List.mem_flatMap.mp hn
      have hne : n.id ≠ N.id := by
        intro heq
        have hmem : n.id ∈ N.below.flatMap Nested.ids := by
          rw [← flatMap_ids_eq h.ids]
          exact List.mem_flatMap.mpr ⟨c, hc, List.mem_map_of_mem hn⟩
        exact hself (heq ▸ hmem)
      rw [Stage.restore_node?, htop, if_neg hne]
      exact h.holds c hc n hn
  · intro id hout
    rw [List.flatMap_singleton, Nested.ids_succ, List.mem_cons, not_or] at hout
    rw [Stage.restore_node?, htop, if_neg hout.1]
    exact h.rest id hout.2

/-- The update of the top with the updates of the trees below it. -/
abbrev Nested.topUpdate (frame : TickContext) (N : Nested H (levels+1)) :
    Ticking H (Status × NestedNode H (Nested H levels)) :=
  N.top.update frame id alwaysCheck (update frame (some N.id))

theorem Nested.update_run (frame : TickContext) (caller : Option NodeId) (N : Nested H (levels+1))
    (s : Stage H) : N.update frame caller s =
      ⟨(N.topUpdate frame s).answer, (N.topUpdate frame s).stage,
        .asked caller N.id :: (N.topUpdate frame s).trace ++
          [.answered caller N.id (N.topUpdate frame s).answer.1]⟩ := by
  change Play.mk _ _ (_ ++ (_ ++ (_ ++ _))) = _
  rfl

/-- With as much depth as the tree has levels, asking for the node at its top does to the tree on
the stage what updating the nested tree does. -/
theorem updateNode_mirrors (frame : TickContext) {depth : Nat} (hdepth : levels ≤ depth)
    (path : List NodeId) (N : Nested H levels) :
    Mirrors path [N] (fun b => [b.2]) (fun a b => a = b.1) (updateNode frame depth path N.id)
      (N.update frame path.head?) := by
  induction levels generalizing depth path with
  | zero => exact Empty.elim N
  | succ levels ih =>
    obtain ⟨depth, rfl⟩ := Nat.exists_eq_add_one_of_ne_zero (by omega : depth ≠ 0)
    intro s hs
    have htop : N.top.flat Nested.id ∈ N.nodes := List.mem_cons_self
    have hidle : N.id ∉ path := hs.idle N.id (by simp [Nested.ids_succ])
    have hfind : s.find? path N.id = some (N.top.flat Nested.id) := by
      rw [Stage.find?_eq_node? hidle]
      exact hs.holds N List.mem_cons_self _ htop
    have hask : AsksFor (N.id :: path) (updateNode frame depth (N.id :: path))
        (fun c : Nested H levels => c.update frame (some N.id)) :=
      fun c => ih (by omega) (N.id :: path) c
    have h := N.top.update_mirrors hask frame s hs.below
    obtain ⟨hanswer, hid⟩ := h.answer
    rw [updateNode, updateStep_some frame _ hfind, Nested.update_run]
    -- Each side asks, updates the node and answers, and the stage puts the node back.
    refine ⟨?_, h.bare, ?_, ?_, congrArg Prod.fst hanswer⟩
    · have htrace := h.trace
      have hstatus := congrArg Prod.fst hanswer
      simp only [stepUpdate, Nested.topUpdate]
      exact congrArg₂ (fun τ status => _ :: τ ++ [.answered path.head? N.id status]) htrace hstatus
    · intro c hc
      rcases List.mem_append.mp hc with hc | hc
      · rcases List.mem_cons.mp hc with hc | hc
        · simp at hc
        · exact h.resolved c hc
      · simp at hc
    · have hflat := congrArg Prod.snd hanswer
      have hmoves : Moves s _ [N]
          ([(N.topUpdate frame s.bare).answer.2] : List (Nested H (levels+1))) := h.moves.restore hs hid
      exact hflat ▸ hmoves

end BehaviourTree
