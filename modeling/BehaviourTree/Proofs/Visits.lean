import BehaviourTree.Proofs.GuardHistory

/-!
The visits of a node: the updates that find it, wherever in a tick they take place, and what becomes
of the node from one to the next.
-/

namespace BehaviourTree

open Ticking

variable {H : Host} {id : NodeId} {path : List NodeId}

/-! ### One visit -/

/-- An update that is asked of a node. -/
structure Visit (H : Host) where
  frame : TickContext
  /-- How deep the updates below it may go. -/
  depth : Nat
  /-- The nodes whose updates are in progress, the innermost first. -/
  path : List NodeId
  stage : Stage H
  node : Node H

namespace Visit

/-- The node is there, and its update is not in progress. -/
def Found (v : Visit H) : Prop := v.stage.find? v.path v.node.id = some v.node

/-- Updates a child. -/
def ask (v : Visit H) : NodeId → Ticking H Status :=
  updateNode v.frame v.depth (v.node.id :: v.path)

def play (v : Visit H) : Play H (Status × Node H) := stepUpdate v.frame v.path v.ask v.node v.stage

/-- The same with the question that leads to the node, and with the node put back. -/
def whole (v : Visit H) : Play H Status := updateNode v.frame (v.depth+1) v.path v.node.id v.stage

def status (v : Visit H) : Status := v.play.answer.1

/-- The node as it is put back. -/
def left (v : Visit H) : Node H := v.play.answer.2

/-- The children that the node asks, each with its answer. -/
def answers (v : Visit H) : List (NodeId × Status) := v.play.trace.answersTo v.node.id

variable {v : Visit H}

theorem whole_eq (found : v.Found) : v.whole = ⟨v.status, v.play.stage.restore v.left,
    .asked v.path.head? v.node.id :: v.play.trace ++
      [.answered v.path.head? v.node.id v.status]⟩ := updateStep_some v.frame v.ask found

theorem left_profile (v : Visit H) : v.left.profile = v.node.profile :=
  v.node.update_profile v.frame _ v.ask v.stage

theorem left_id (v : Visit H) : v.left.id = v.node.id := congrArg Profile.id v.left_profile

theorem left_running (v : Visit H) : v.left.running = v.status.isRunning := rfl

theorem not_in_progress (found : v.Found) : v.node.id ∉ v.path := (find?_some found).2.2

theorem node?_eq (found : v.Found) : v.stage.node? v.node.id = some v.node := by
  rw [← Stage.find?_eq_node? (not_in_progress found)]
  exact found

end Visit

/-! ### Between visits -/

/-- What a node puts into a trace: what its own update begins with, asks, hears, calls and tells.
Notes and warnings do not say whose they are. -/
def TraceItem.By (id : NodeId) : TraceItem H → Prop
  | .asked caller _ | .answered caller _ _ => caller = some id
  | .entered node | .called node _ => node = id
  | .event e => e.node = id
  | .note _ | .warning _ => False

theorem TraceItem.OwnTo.not_by {i : TraceItem H} {other : NodeId} (h : i.OwnTo other)
    (hne : other ≠ id) : ¬ i.By id := by
  cases i with
  | asked _ _ | answered _ _ _ => exact h.elim
  | entered _ | called _ _ | event _ => exact fun hby => hne (h.symm.trans hby)
  | note _ | warning _ => exact not_false

theorem Trace.answersTo_append (id : NodeId) (τ τ' : Trace H) :
    answersTo id (τ ++ τ') = answersTo id τ ++ answersTo id τ' := List.filterMap_append

theorem Trace.answersTo_eq_nil {τ : Trace H} (h : ∀ i ∈ τ, ¬ i.By id) : τ.answersTo id = [] := by
  refine List.filterMap_eq_nil_iff.mpr fun i hi => ?_
  cases i with
  | answered caller node status =>
    cases caller with
    | none => rfl
    | some c => exact if_neg fun hc => h _ hi (congrArg some hc)
  | asked _ _ | entered _ | called _ _ | note _ | event _ | warning _ => rfl

theorem Trace.statusesOf_eq_nil {τ : Trace H} (h : ∀ i ∈ τ, ¬ i.By id) : τ.statusesOf id = [] := by
  refine List.filterMap_eq_nil_iff.mpr fun i hi => ?_
  cases i with
  | event e => exact if_neg (h _ hi)
  | asked _ _ | answered _ _ _ | entered _ | called _ _ | note _ | warning _ => rfl

/-- The node does nothing on the way, and nothing is done to it. -/
structure Unvisited (id : NodeId) (s : Stage H) (τ : Trace H) (s' : Stage H) : Prop where
  silent : ∀ i ∈ τ, ¬ i.By id
  same : s'.node? id = s.node? id

theorem Unvisited.append {s s' s'' : Stage H} {τ τ' : Trace H} (h : Unvisited id s τ s')
    (h' : Unvisited id s' τ' s'') : Unvisited id s (τ ++ τ') s'' :=
  ⟨List.forall_mem_append.mpr ⟨h.silent, h'.silent⟩, h'.same.trans h.same⟩

/-- The visits of the node on the way, in the order in which they begin and end. -/
inductive Visited (id : NodeId) : Stage H → Trace H → Stage H → List (Visit H) → Prop where
  | unvisited {s s' : Stage H} {τ : Trace H} (h : Unvisited id s τ s') : Visited id s τ s' []
  | visit (v : Visit H) (node : v.node.id = id) (found : v.Found) :
    Visited id v.stage v.whole.trace v.whole.stage [v]
  | append {s s' s'' : Stage H} {τ τ' : Trace H} {vs vs' : List (Visit H)}
    (h : Visited id s τ s' vs) (h' : Visited id s' τ' s'' vs') :
    Visited id s (τ ++ τ') s'' (vs ++ vs')

/-- There are such visits, and none while one is in progress. -/
def VisitedWithin (id : NodeId) (path : List NodeId) (s : Stage H) (τ : Trace H) (s' : Stage H) :
    Prop :=
  ∃ vs, Visited id s τ s' vs ∧ (id ∈ path → vs = [])

section Within

variable {s s' s'' : Stage H} {τ τ' : Trace H} {vs : List (Visit H)}

theorem Visited.unvisited_of_nil (h : Visited id s τ s' vs) (hnil : vs = []) :
    Unvisited id s τ s' := by
  induction h with
  | unvisited h => exact h
  | visit _ _ _ => exact absurd hnil (List.cons_ne_nil _ _)
  | append _ _ ih ih' =>
    obtain ⟨hvs, hvs'⟩ := List.append_eq_nil_iff.mp hnil
    exact (ih hvs).append (ih' hvs')

theorem Unvisited.within (h : Unvisited id s τ s') : VisitedWithin id path s τ s' :=
  ⟨[], .unvisited h, fun _ => rfl⟩

theorem VisitedWithin.append (h : VisitedWithin id path s τ s')
    (h' : VisitedWithin id path s' τ' s'') : VisitedWithin id path s (τ ++ τ') s'' := by
  obtain ⟨vs, hvisited, hnone⟩ := h
  obtain ⟨vs', hvisited', hnone'⟩ := h'
  refine ⟨vs ++ vs', hvisited.append hvisited', fun hpath => ?_⟩
  rw [hnone hpath, hnone' hpath, List.append_nil]

theorem VisitedWithin.unvisited (h : VisitedWithin id path s τ s') (hpath : id ∈ path) :
    Unvisited id s τ s' := by
  obtain ⟨vs, hvisited, hnone⟩ := h
  exact hvisited.unvisited_of_nil (hnone hpath)

theorem visitedWithin_steady {caller : NodeId} (hne : caller ≠ id) :
    Steady caller (VisitedWithin (H := H) id path) := by
  refine ⟨VisitedWithin.append, fun hnodes hown => ?_⟩
  exact Unvisited.within ⟨fun i hi => (hown i hi).not_by hne, Stage.node?_of_nodes hnodes id⟩

theorem unvisited_refusal {node : NodeId} (hcaller : path.head? ≠ some id) :
    Unvisited id s (refusal path node) s := by
  refine ⟨fun i hi => ?_, rfl⟩
  simp only [refusal, List.mem_cons, List.not_mem_nil, or_false] at hi
  rcases hi with rfl | rfl | rfl
  · exact hcaller
  · exact not_false
  · exact hcaller

end Within

/-- Whatever is updated but for the children of a node, the node is visited now and then. -/
theorem updateNode_visited (id : NodeId) (frame : TickContext) (depth : Nat) {path : List NodeId}
    (hcaller : path.head? ≠ some id) (node : NodeId) :
    Keeps (VisitedWithin id path) (updateNode (H := H) frame depth path node) := by
  induction depth generalizing path node with
  | zero =>
    intro s
    exact (unvisited_refusal hcaller).within
  | succ depth ih =>
    intro s
    cases hfind : s.find? path node with
    | none =>
      have hrun : updateNode frame (depth+1) path node s = _ := updateStep_none frame _ hfind
      rw [hrun]
      exact (unvisited_refusal hcaller).within
    | some n =>
      obtain ⟨-, rfl, hpath⟩ := find?_some hfind
      by_cases hid : n.id = id
      · subst hid
        let v : Visit H := ⟨frame, depth, path, s, n⟩
        exact ⟨[v], .visit v rfl hfind, fun hin => absurd hin hpath⟩
      · -- The visits are those below the update of another node.
        have hne : (n.id :: path).head? ≠ some id := fun heq => hid (Option.some.inj heq)
        obtain ⟨vs, hvisited, hnone⟩ := n.update_keeps frame
          (fun s c => s.isGuard (n.id :: path) c) (visitedWithin_steady hid) (ih hne) s
        let v : Visit H := ⟨frame, depth, path, s, n⟩
        have hsame : (v.play.stage.restore v.left).node? id = v.play.stage.node? id := by
          rw [Stage.restore_node?, v.left_id, if_neg (Ne.symm hid)]
        have hasked : Unvisited id s [.asked path.head? n.id] s :=
          ⟨fun i hi => (List.mem_singleton.mp hi) ▸ hcaller, rfl⟩
        have hanswered : Unvisited id v.play.stage [.answered path.head? n.id v.status]
            (v.play.stage.restore v.left) :=
          ⟨fun i hi => (List.mem_singleton.mp hi) ▸ hcaller, hsame⟩
        have hrun : updateNode frame (depth+1) path n.id s = _ := v.whole_eq hfind
        rw [hrun]
        refine ⟨vs, ?_, fun hin => hnone (List.mem_cons_of_mem n.id hin)⟩
        have hall := (Visited.unvisited hasked).append
          (hvisited.append (Visited.unvisited hanswered))
        rwa [List.append_nil] at hall

/-! ### Within a visit -/

/-- A node is asked once, and between question and answer nothing is done by the one that asks. -/
theorem updateNode_asked (frame : TickContext) (depth : Nat) (caller : NodeId) (path : List NodeId)
    (c : NodeId) (s : Stage H) :
    let p := updateNode frame depth (caller :: path) c s
    ∃ τ, p.trace = .asked (some caller) c :: (τ ++ [.answered (some caller) c p.answer]) ∧
      ∀ i ∈ τ, ¬ i.By caller := by
  intro p
  have hrefused (hrun : p = ⟨.fail, s, refusal (caller :: path) c⟩) :
      ∃ τ, p.trace = .asked (some caller) c :: (τ ++ [.answered (some caller) c p.answer]) ∧
        ∀ i ∈ τ, ¬ i.By caller := by
    rw [hrun]
    exact ⟨[.warning (.unresolved c)], rfl, fun i hi => (List.mem_singleton.mp hi) ▸ not_false⟩
  cases depth with
  | zero => exact hrefused rfl
  | succ depth =>
    cases hfind : s.find? (caller :: path) c with
    | none => exact hrefused (updateStep_none frame _ hfind)
    | some n =>
      obtain ⟨-, rfl, hpath⟩ := find?_some hfind
      let below : Visit H := ⟨frame, depth, caller :: path, s, n⟩
      have hne : n.id ≠ caller := fun heq => hpath (heq ▸ List.mem_cons_self)
      have hhead : (n.id :: caller :: path).head? ≠ some caller :=
        fun heq => hne (Option.some.inj heq)
      have hkeeps : Keeps (VisitedWithin caller (n.id :: caller :: path))
          (stepUpdate frame (caller :: path) below.ask n) :=
        n.update_keeps frame _ (visitedWithin_steady hne)
          (updateNode_visited caller frame depth hhead)
      have hbusy : caller ∈ n.id :: caller :: path := List.mem_cons_of_mem n.id List.mem_cons_self
      have hrun : p = _ := below.whole_eq hfind
      rw [hrun]
      exact ⟨below.play.trace, rfl, ((hkeeps s).unvisited hbusy).silent⟩

theorem updateNode_answersTo (frame : TickContext) (depth : Nat) (caller : NodeId)
    (path : List NodeId) (c : NodeId) (s : Stage H) :
    let p := updateNode frame depth (caller :: path) c s
    p.trace.answersTo caller = [(c, p.answer)] := by
  intro p
  obtain ⟨τ, htrace, hsilent⟩ := updateNode_asked frame depth caller path c s
  have hown : Trace.answersTo caller (H := H) [.answered (some caller) c p.answer] =
      [(c, p.answer)] := by
    simp [Trace.answersTo]
  calc p.trace.answersTo caller
    _ = Trace.answersTo caller (τ ++ [.answered (some caller) c p.answer]) := by
      rw [htrace]
      rfl
    _ = [(c, p.answer)] := by
      rw [Trace.answersTo_append, Trace.answersTo_eq_nil hsilent, List.nil_append, hown]

namespace Visit

variable {v : Visit H}

theorem ask_answers (v : Visit H) (c : NodeId) (s : Stage H) :
    (v.ask c s).trace.answersTo v.node.id = [(c, (v.ask c s).answer)] :=
  updateNode_answersTo v.frame v.depth v.node.id v.path c s

theorem ask_not_entered (v : Visit H) (c : NodeId) :
    Keeps (fun _ τ _ => .entered v.node.id ∉ τ) (v.ask c) := by
  intro s
  obtain ⟨τ, htrace, hsilent⟩ := updateNode_asked v.frame v.depth v.node.id v.path c s
  change (v.ask c s).trace = _ at htrace
  rw [htrace]
  intro hmem
  rcases List.mem_cons.mp hmem with heq | hmem
  · cases heq
  · rcases List.mem_append.mp hmem with hmem | hmem
    · exact hsilent _ hmem rfl
    · cases List.mem_singleton.mp hmem

/-- The answer is told in the one event of the node, and the node is back in its place. -/
theorem told (found : v.Found) : v.whole.trace.statusesOf v.node.id = [v.status] ∧
    v.whole.stage.node? v.node.id = some v.left := by
  have hbelow (c : NodeId) : Keeps (Untouched v.node.id) (v.ask c) := by
    intro s
    exact (updateNode_lived v.node.id v.frame v.depth _ c s).2 List.mem_cons_self
  obtain ⟨-, hstatuses, hlife, -⟩ := v.node.update_trace v.frame
    (fun s c => s.isGuard (v.node.id :: v.path) c) hbelow v.stage
  change v.play.trace.statusesOf v.node.id = [v.status] at hstatuses
  change lifeIn v.play.stage.nodes v.node.id = lifeIn v.stage.nodes v.node.id at hlife
  rw [whole_eq found]
  refine ⟨?_, ?_⟩
  · change Trace.statusesOf v.node.id (v.play.trace ++ _) = _
    rw [Trace.statusesOf_append, hstatuses]
    rfl
  · -- There is a place to put it: nothing is deleted in a tick.
    rw [lifeIn_of_find? found] at hlife
    obtain ⟨m, hm, -⟩ := Option.map_eq_some_iff.mp hlife
    change v.play.stage.node? v.node.id = some m at hm
    rw [Stage.restore_node?, v.left_id, if_pos rfl, hm]
    rfl

end Visit

/-! ### From visit to visit -/

/-- Each visit finds the node as the one before left it. -/
def Handed : Option (Node H) → List (Visit H) → Option (Node H) → Prop
  | n, [], n' => n' = n
  | n, v :: vs, n' => n = some v.node ∧ Handed (some v.left) vs n'

theorem Handed.append {n n' n'' : Option (Node H)} {vs vs' : List (Visit H)} (h : Handed n vs n')
    (h' : Handed n' vs' n'') : Handed n (vs ++ vs') n'' := by
  induction vs generalizing n with
  | nil => exact h ▸ h'
  | cons v vs ih => exact ⟨h.1, ih h.2⟩

namespace Visited

variable {s s' : Stage H} {τ : Trace H} {vs : List (Visit H)}

theorem found (h : Visited id s τ s' vs) : ∀ v ∈ vs, v.node.id = id ∧ v.Found := by
  induction h with
  | unvisited _ => exact fun _ hv => absurd hv List.not_mem_nil
  | visit v node found => exact fun w hw => (List.mem_singleton.mp hw) ▸ ⟨node, found⟩
  | append _ _ ih ih' => exact List.forall_mem_append.mpr ⟨ih, ih'⟩

theorem handed (h : Visited id s τ s' vs) : Handed (s.node? id) vs (s'.node? id) := by
  induction h with
  | unvisited h => exact h.same
  | visit v node found =>
    subst node
    exact ⟨Visit.node?_eq found, (Visit.told found).2⟩
  | append _ _ ih ih' => exact ih.append ih'

/-- The events of the node tell of its visits. -/
theorem statuses (h : Visited id s τ s' vs) : vs.map Visit.status = τ.statusesOf id := by
  induction h with
  | unvisited h => exact (Trace.statusesOf_eq_nil h.silent).symm
  | visit v node found =>
    subst node
    exact (Visit.told found).1.symm
  | append _ _ ih ih' => rw [List.map_append, ih, ih', Trace.statusesOf_append]

/-- What the node hears in a tick it hears in its visits. -/
theorem answers (h : Visited id s τ s' vs) : τ.answersTo id = vs.flatMap Visit.answers := by
  induction h with
  | unvisited h => exact Trace.answersTo_eq_nil h.silent
  | visit v node found =>
    subst node
    have hnot : v.path.head? ≠ some v.node.id :=
      fun heq => Visit.not_in_progress found (List.mem_of_mem_head? heq)
    have hlast : Trace.answersTo v.node.id (H := H)
        [.answered v.path.head? v.node.id v.status] = [] :=
      Trace.answersTo_eq_nil fun i hi => (List.mem_singleton.mp hi) ▸ hnot
    rw [Visit.whole_eq found, List.flatMap_singleton]
    change Trace.answersTo v.node.id (v.play.trace ++ _) = v.answers
    rw [Trace.answersTo_append, hlast, List.append_nil]
    rfl
  | append _ _ ih ih' => rw [Trace.answersTo_append, ih, ih', List.flatMap_append]

/-- A single event tells of a single visit. -/
theorem single (h : Visited id s τ s' vs) {status : Status} (hstatus : τ.statusesOf id = [status]) :
    ∃ v, vs = [v] ∧ v.status = status ∧ v.answers = τ.answersTo id ∧ s.node? id = some v.node ∧
      s'.node? id = some v.left := by
  have hstatuses := h.statuses
  rw [hstatus] at hstatuses
  obtain ⟨v, rfl, hv⟩ := List.map_eq_singleton_iff.mp hstatuses
  obtain ⟨hbefore, hafter⟩ := h.handed
  exact ⟨v, rfl, hv, by rw [h.answers, List.flatMap_singleton], hbefore, hafter⟩

end Visited

/-! ### Histories -/

namespace Session

/-- The visits of the node while things are done to its tree. -/
inductive Followed (id : NodeId) : Session H → List (Operation H) → List (Visit H) → Prop where
  | nil (s : Session H) : Followed id s [] []
  | tick {s : Session H} {frame : TickContext} {ops : List (Operation H)} {vs vs' : List (Visit H)}
    (visited : Visited id (s.tree.stage s.world s.audience) (s.step (.tick frame)).2
      (updateNode frame s.tree.size [] s.tree.root (s.tree.stage s.world s.audience)).stage vs)
    (rest : Followed id (s.step (.tick frame)).1 ops vs') :
    Followed id s (.tick frame :: ops) (vs ++ vs')
  | edit {s : Session H} {op : Operation H} {ops : List (Operation H)} {vs : List (Visit H)}
    (silent : (s.step op).2 = []) (rest : Followed id (s.step op).1 ops vs) :
    Followed id s (op :: ops) vs

/-- Every node can be followed, whatever is done to its tree. -/
theorem exists_followed (id : NodeId) (s : Session H) (ops : List (Operation H)) :
    ∃ vs, s.Followed id ops vs := by
  induction ops generalizing s with
  | nil => exact ⟨[], .nil s⟩
  | cons op ops ih =>
    obtain ⟨vs', hrest⟩ := ih (s.step op).1
    cases op with
    | tick frame =>
      have hcaller : ([] : List NodeId).head? ≠ some id := by simp
      -- A tick is asked for by nobody, so the first question is not put by the node.
      obtain ⟨vs, hvisited, -⟩ := updateNode_visited id frame s.tree.size hcaller s.tree.root
        (s.tree.stage s.world s.audience)
      exact ⟨vs ++ vs', .tick hvisited hrest⟩
    | create _ | add _ | delete _ | attach _ _ | detach _ _ | rename _ _ | move _ _
    | setAlwaysCheck _ _ | sortChildren _ | subscribe _ _ | subscribeAll _ | setOwner _
    | setSeed _ | editBlackboard _ | elsewhere _ _ _ => exact ⟨vs', .edit rfl hrest⟩

end Session

theorem Node.Edited.trans {n n' n'' : Node H} (h : n.Edited n') (h' : n'.Edited n'') :
    n.Edited n'' := by
  obtain ⟨cs, hcs⟩ := h.kind
  obtain ⟨ds, hds⟩ := h'.kind
  refine ⟨h'.id.trans h.id, h'.typeName.trans h.typeName, ⟨ds, ?_⟩, h'.running.trans h.running⟩
  rw [hds, hcs, NodeKind.setLinks_setLinks]

/-- What is there after an edit was there before it and has been edited at most, or it has just been
made, and its identifier drawn. -/
theorem Session.Effect.found_or_made {s s' : Session H} {op : Operation H} (he : s.Effect op s' [])
    {n : Node H} (hn : s'.tree.node? id = some n) :
    (∃ m, s.tree.node? id = some m ∧ m.Edited n) ∨
      n.running = false ∧ id = ⟨s.supply.draw.1⟩ ∧ s'.supply = s.supply.draw.2 := by
  have hinsert (m : Node H) {t : Tree H} (hm : (t.insert m).node? id = some n) :
      t.node? id = some n ∨ n = m ∧ id = m.id := by
    rw [Tree.insert_node?] at hm
    split at hm
    · next hid => exact Or.inr ⟨(Option.some.inj hm).symm, hid⟩
    · exact Or.inl hm
  generalize hτ : ([] : Trace H) = τ at he
  cases he with
  | tick frame => exact absurd hτ.symm (updateNode_trace_ne_nil frame _ _ _ _)
  | touch touches _ =>
    obtain ⟨f, hnodes, hf⟩ := touches.nodes
    have hfound : s'.tree.node? id = (s.tree.node? id).map f :=
      Tree.node?_map (fun m => (hf m).id) hnodes id
    obtain ⟨m, hm, rfl⟩ := Option.map_eq_some_iff.mp (hfound.symm.trans hn)
    exact Or.inl ⟨m, hm, hf m⟩
  | insert m hid idle _ tree supply =>
    rcases hinsert m (tree ▸ hn) with hold | ⟨rfl, heq⟩
    · exact Or.inl ⟨n, hold, .refl n⟩
    · exact Or.inr ⟨idle, heq.trans hid, supply⟩
  | delete gone tree supply =>
    have hrest : (s.tree.without gone).node? id = some n ∨
        n.running = false ∧ id = ⟨s.supply.draw.1⟩ ∧ s'.supply = s.supply.draw.2 := by
      rw [tree] at hn
      rcases (s.tree.without gone).ensureRoot_spec s.supply with
        ⟨-, hrun⟩ | ⟨root, hid, -, -, -, hidle, hrun⟩
      · rw [hrun] at hn
        exact Or.inl hn
      · rw [hrun] at hn
        rcases hinsert root hn with hold | ⟨rfl, heq⟩
        · exact Or.inl hold
        · exact Or.inr ⟨hidle, heq.trans hid, by rw [supply, hrun]⟩
    refine hrest.imp_left fun hleft => ?_
    have hfound := find?_without s.tree.nodes gone id
    by_cases hid : id = gone
    · rw [if_pos hid] at hfound
      cases hfound.symm.trans hleft
    · rw [if_neg hid] at hfound
      exact ⟨n, hfound.symm.trans hleft, .refl n⟩

/-- A node that runs was there before an edit. -/
theorem Session.Effect.found {s s' : Session H} {op : Operation H} (he : s.Effect op s' [])
    {n : Node H} (hn : s'.tree.node? id = some n) (hrunning : n.running) :
    ∃ m, s.tree.node? id = some m ∧ m.Edited n := by
  refine (he.found_or_made hn).resolve_right fun hmade => ?_
  rw [hmade.1] at hrunning
  cases hrunning

/-- So was one whose identifier is not drawn again. -/
theorem Session.Effect.found_of_fresh {s s' : Session H} {op : Operation H} {limit : Nat}
    (he : s.Effect op s' []) (hfresh : s.supply.Fresh limit (· = id.uuid))
    (hlimit : s'.supply.drawn ≤ limit) {n : Node H} (hn : s'.tree.node? id = some n) :
    ∃ m, s.tree.node? id = some m ∧ m.Edited n := by
  refine (he.found_or_made hn).resolve_right ?_
  rintro ⟨-, hid, hdraw⟩
  rw [hdraw] at hlimit
  exact hfresh.draw_unused hlimit (congrArg NodeId.uuid hid).symm

/-- What the last of some visits leaves, or what is there if there are none. -/
def leftBy (n : Option (Node H)) (vs : List (Visit H)) : Option (Node H) :=
  vs.foldl (fun _ v => some v.left) n

theorem leftBy_append (n : Option (Node H)) (vs vs' : List (Visit H)) :
    leftBy n (vs ++ vs') = leftBy (leftBy n vs) vs' := List.foldl_append

theorem Handed.leftBy_eq {n n' : Option (Node H)} {vs : List (Visit H)} (h : Handed n vs n') :
    leftBy n vs = n' := by
  induction vs generalizing n with
  | nil => exact h.symm
  | cons v vs ih => exact ih h.2

/-- What a step keeps that is a visit is kept along visits in a row. -/
theorem Handed.keeps {P : Node H → Prop} (hstep : ∀ v : Visit H, P v.node → P v.left)
    {n n' : Option (Node H)} {vs : List (Visit H)} (h : Handed n vs n')
    (hn : ∀ m, n = some m → P m) : ∀ v ∈ vs, P v.node := by
  induction vs generalizing n with
  | nil => exact fun _ hv => absurd hv List.not_mem_nil
  | cons v vs ih =>
    have hv : P v.node := hn v.node h.1
    refine List.forall_mem_cons.mpr ⟨hv, ih h.2 fun m hm => ?_⟩
    exact Option.some.inj hm ▸ hstep v hv

/-- A visit that finds the node running finds it as the one before left it, up to edits. -/
def Visit.Continues (v v' : Visit H) : Prop := v'.node.running → v.left.Edited v'.node

theorem Handed.continues {n n' : Option (Node H)} {vs : List (Visit H)} (h : Handed n vs n') :
    vs.IsChain (fun v v' => v.left.Edited v'.node) ∧ (∀ v ∈ vs.head?, n = some v.node) ∧
      (∀ v ∈ vs.getLast?, n' = some v.left) := by
  induction vs generalizing n with
  | nil => exact ⟨.nil, by simp, by simp⟩
  | cons v vs ih =>
    obtain ⟨hnode, hrest⟩ := h
    obtain ⟨hchain, hhead, hlast⟩ := ih hrest
    refine ⟨?_, fun w hw => Option.some.inj hw ▸ hnode, fun w hw => ?_⟩
    · refine List.isChain_cons.mpr ⟨fun w hw => ?_, hchain⟩
      rw [← Option.some.inj (hhead w hw)]
      exact .refl v.left
    · cases vs with
      | nil => exact (Option.some.inj hw) ▸ hrest
      | cons w' vs => exact hlast w (by simpa using hw)

namespace Session.Followed

variable {s : Session H} {ops : List (Operation H)} {vs : List (Visit H)}

theorem found (h : s.Followed id ops vs) : ∀ v ∈ vs, v.node.id = id ∧ v.Found := by
  induction h with
  | nil _ => exact fun _ hv => absurd hv List.not_mem_nil
  | tick visited _ ih => exact List.forall_mem_append.mpr ⟨visited.found, ih⟩
  | edit _ _ ih => exact ih

/-- What the node answers and hears is what it answers and hears in its visits. -/
theorem told (h : s.Followed id ops vs) : (s.run ops).2.statusesOf id = vs.map Visit.status ∧
    (s.run ops).2.answersTo id = vs.flatMap Visit.answers := by
  induction h with
  | nil _ => exact ⟨rfl, rfl⟩
  | @tick s frame ops vs vs' visited _ ih =>
    obtain ⟨hstatuses, hanswers⟩ := ih
    have hrun : (s.run (.tick frame :: ops)).2 = (s.step (.tick frame)).2 ++
        ((s.step (.tick frame)).1.run ops).2 := rfl
    rw [hrun, Trace.statusesOf_append, Trace.answersTo_append, hstatuses, hanswers,
      ← visited.statuses, visited.answers, List.map_append, List.flatMap_append]
    exact ⟨rfl, rfl⟩
  | @edit s op ops vs silent _ ih =>
    have hrun : (s.run (op :: ops)).2 = (s.step op).2 ++ ((s.step op).1.run ops).2 := rfl
    rw [hrun, silent, List.nil_append]
    exact ih

/-- Between two visits of a node that runs there are edits at most. -/
theorem continues (h : s.Followed id ops vs) : vs.IsChain Visit.Continues ∧
    ∀ v ∈ vs.head?, v.node.running → ∃ m, s.tree.node? id = some m ∧ m.Edited v.node := by
  induction h with
  | nil _ => exact ⟨.nil, by simp⟩
  | @tick s frame ops vs vs' visited _ ih =>
    obtain ⟨hchain, hhead⟩ := ih
    obtain ⟨hwithin, hfirst, hlast⟩ := visited.handed.continues
    refine ⟨List.isChain_append.mpr ⟨hwithin.imp fun _ _ hedited _ => hedited, hchain,
      fun v hv v' hv' hrunning => ?_⟩, fun v hv hrunning => ?_⟩
    -- What the last visit of the tick has left is edited up to the first one after it.
    · obtain ⟨m, hm, hedited⟩ := hhead v' hv' hrunning
      rwa [Option.some.inj (hm.symm.trans (hlast v hv))] at hedited
    · cases vs with
      | nil =>
        obtain ⟨m, hm, hedited⟩ := hhead v hv hrunning
        exact ⟨m, visited.handed.symm.trans hm, hedited⟩
      | cons w vs => exact ⟨v.node, hfirst v hv, .refl v.node⟩
  | @edit s op ops vs silent _ ih =>
    refine ⟨ih.1, fun v hv hrunning => ?_⟩
    obtain ⟨m, hm, hedited⟩ := ih.2 v hv hrunning
    have he := s.step_effect op
    rw [silent] at he
    obtain ⟨k, hk, hbefore⟩ := he.found hm (hedited.running ▸ hrunning)
    exact ⟨k, hk, hbefore.trans hedited⟩

/-- The same of a node that may also be idle, as long as its identifier is not drawn again. -/
theorem persists (h : s.Followed id ops vs) {limit : Nat}
    (hfresh : s.supply.Fresh limit (· = id.uuid)) (hlimit : (s.run ops).1.supply.drawn ≤ limit) :
    vs.IsChain (fun v v' => v.left.Edited v'.node) ∧
    (∀ v ∈ vs.head?, ∃ m, s.tree.node? id = some m ∧ m.Edited v.node) ∧
    ∀ n, (s.run ops).1.tree.node? id = some n →
      ∃ m, leftBy (s.tree.node? id) vs = some m ∧ m.Edited n := by
  induction h with
  | nil s => exact ⟨.nil, by simp, fun n hn => ⟨n, hn, .refl n⟩⟩
  | @tick s frame ops vs vs' visited _ ih =>
    obtain ⟨hchain, hhead, hleft⟩ := ih hfresh hlimit
    obtain ⟨hwithin, hfirst, hlast⟩ := visited.handed.continues
    refine ⟨List.isChain_append.mpr ⟨hwithin, hchain, fun v hv v' hv' => ?_⟩, fun v hv => ?_,
      fun n hn => ?_⟩
    · obtain ⟨m, hm, hedited⟩ := hhead v' hv'
      rwa [Option.some.inj (hm.symm.trans (hlast v hv))] at hedited
    · cases vs with
      | nil =>
        obtain ⟨m, hm, hedited⟩ := hhead v hv
        exact ⟨m, visited.handed.symm.trans hm, hedited⟩
      | cons w vs => exact ⟨v.node, hfirst v hv, .refl v.node⟩
    · obtain ⟨m, hm, hedited⟩ := hleft n hn
      refine ⟨m, ?_, hedited⟩
      have hbetween : leftBy (s.tree.node? id) vs = (s.step (.tick frame)).1.tree.node? id :=
        visited.handed.leftBy_eq
      rwa [leftBy_append, hbetween]
  | @edit s op ops vs silent _ ih =>
    have he := s.step_effect op
    rw [silent] at he
    have hrest : (s.step op).1.supply.Precedes (s.run (op :: ops)).1.supply :=
      (s.step op).1.run_precedes ops
    obtain ⟨hchain, hhead, hleft⟩ := ih (hfresh.later he.precedes) hlimit
    have hbefore {m : Node H} (hm : (s.step op).1.tree.node? id = some m) :
        ∃ k, s.tree.node? id = some k ∧ k.Edited m :=
      he.found_of_fresh hfresh (hrest.within hlimit) hm
    refine ⟨hchain, fun v hv => ?_, fun n hn => ?_⟩
    · obtain ⟨m, hm, hedited⟩ := hhead v hv
      obtain ⟨k, hk, hfirst⟩ := hbefore hm
      exact ⟨k, hk, hfirst.trans hedited⟩
    · obtain ⟨m, hm, hedited⟩ := hleft n hn
      cases vs with
      | nil =>
        obtain ⟨k, hk, hfirst⟩ := hbefore hm
        exact ⟨k, hk, hfirst.trans hedited⟩
      | cons v vs => exact ⟨m, hm, hedited⟩

theorem of_tick {frame : TickContext} (h : s.Followed id (.tick frame :: ops) vs) :
    ∃ vs₁ vs₂, vs = vs₁ ++ vs₂ ∧
      Visited id (s.tree.stage s.world s.audience) (s.step (.tick frame)).2
        (updateNode frame s.tree.size [] s.tree.root (s.tree.stage s.world s.audience)).stage vs₁ ∧
      (s.step (.tick frame)).1.Followed id ops vs₂ := by
  cases h with
  | tick visited rest => exact ⟨_, _, rfl, visited, rest⟩
  | edit silent _ => exact absurd silent (updateNode_trace_ne_nil frame _ _ _ _)

/-- After a run has ended the node is found idle. -/
theorem idle {before after : List (Visit H)} {v v' : Visit H}
    (h : s.Followed id ops (before ++ v :: v' :: after)) (hstatus : v.status.isTerminal) :
    v'.node.running = false := by
  obtain ⟨-, hchain, -⟩ := List.isChain_append.mp h.continues.1
  obtain ⟨hnext, -⟩ := List.isChain_cons_cons.mp hchain
  by_contra hrunning
  have hsame : v'.node.running = v.status.isRunning :=
    (hnext (Bool.not_eq_false _ ▸ hrunning)).running
  rw [hsame] at hrunning
  exact hrunning (by simpa [Status.isTerminal] using hstatus)

end Session.Followed

end BehaviourTree
