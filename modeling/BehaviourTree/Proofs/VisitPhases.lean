import BehaviourTree.Proofs.Visits

/-!
A visit phase by phase: a node that is found idle begins a run, then it asks and comes to its
answer, and what follows changes nothing but a leaf.
-/

namespace BehaviourTree

open Ticking

variable {H : Host}

/-- Observers have no say in what the leaves share. -/
theorem announce_shared (e : StatusEvent) (own : List H.Observer) (s : Stage H) :
    (announce e own s).stage.shared = s.shared := by
  let told := tellAll e own s
  obtain ⟨-, hown, -⟩ := tellAll_hear e own s
  obtain ⟨-, hall, -⟩ := tellAll_hear e told.stage.observers told.stage
  have hrun : (announce e own s).stage.shared =
      (tellAll e told.stage.observers told.stage).stage.shared := by
    simp [announce, told]
  rw [hrun, hall]
  change told.stage.shared = s.shared
  rw [hown]

/-- To hear an answer takes an answer. -/
theorem Trace.answersTo_unanswered {τ : Trace H}
    (h : ∀ i ∈ τ, ∀ caller node status, i ≠ .answered caller node status) (id : NodeId) :
    τ.answersTo id = [] := by
  refine List.filterMap_eq_nil_iff.mpr fun i hi => ?_
  cases i with
  | answered caller node status => exact absurd rfl (h _ hi caller node status)
  | asked _ _ | entered _ | called _ _ | note _ | event _ | warning _ => rfl

namespace Visit

def context (v : Visit H) : LeafContext := ⟨v.frame, v.node.id, v.node.owner⟩

/-- A node that is found idle begins a run. -/
def opening (v : Visit H) : Play H (NodeKind H) :=
  v.node.begin v.context (fun s c => s.isGuard (v.node.id :: v.path) c) v.stage

/-- The node asks and comes to its answer. -/
def deciding (v : Visit H) : Play H (Status × NodeKind H) :=
  v.opening.answer.update v.context v.ask v.opening.stage

theorem status_eq (v : Visit H) : v.status = v.deciding.answer.1 := rfl

theorem opening_of_running {v : Visit H} (h : v.node.running) :
    v.opening = ⟨v.node.kind, v.stage, []⟩ := by
  simp [opening, Node.begin, h]

theorem opening_of_idle {v : Visit H} (h : v.node.running = false) :
    let p := v.node.kind.enter v.context (v.stage.isGuard (v.node.id :: v.path)) v.stage
    v.opening = ⟨p.answer, p.stage, .entered v.node.id :: p.trace⟩ := by
  simp [opening, Node.begin, h]

/-- The event of the visit comes after the questions, and little after the event. -/
theorem play_trace (v : Visit H) : ∃ e behind, v.play.trace =
      v.opening.trace ++ (v.deciding.trace ++ .event e :: behind) ∧
    ∀ i ∈ behind, i.Behind v.node.id := by
  let e : StatusEvent := ⟨v.frame.tick, v.node.id, v.node.guid, v.status⟩
  let announced := announce e v.node.observers v.deciding.stage
  let settled := v.deciding.answer.2.settle v.context v.status announced.stage
  obtain ⟨-, -, behind, hannounced, hbehind⟩ :=
    announce_hear e v.node.observers v.deciding.stage
  obtain ⟨-, -, -, hsettled⟩ := v.deciding.answer.2.settle_writes v.context v.status announced.stage
  refine ⟨e, behind ++ settled.trace, ?_, List.forall_mem_append.mpr ⟨hbehind, hsettled⟩⟩
  calc v.play.trace
    _ = v.opening.trace ++ (v.deciding.trace ++ (announced.trace ++ (settled.trace ++ []))) := rfl
    _ = _ := by rw [show announced.trace = .event e :: behind from hannounced, List.append_nil,
      List.cons_append]

/-- It is the second phase that asks. -/
theorem answers_eq (v : Visit H) : v.answers = v.deciding.trace.answersTo v.node.id := by
  have hcontext : v.context.node = v.node.id := rfl
  obtain ⟨-, -, -, hahead⟩ := v.node.begin_writes hcontext
    (fun s c => s.isGuard (v.node.id :: v.path) c) v.stage
  obtain ⟨e, behind, htrace, hbehind⟩ := v.play_trace
  have hopening : v.opening.trace.answersTo v.node.id = [] := by
    refine Trace.answersTo_unanswered ?_ _
    rintro _ hi caller node status rfl
    exact hahead _ hi
  have hend : Trace.answersTo v.node.id (.event e :: behind) = [] := by
    refine Trace.answersTo_unanswered ?_ _
    rintro _ hi caller node status rfl
    exact hbehind _ ((List.mem_cons.mp hi).resolve_left nofun)
  rw [answers, htrace, Trace.answersTo_append, Trace.answersTo_append, hopening, hend,
    List.nil_append, List.append_nil]

/-- A visit enters the node if it finds it idle. -/
theorem entered_iff {v : Visit H} (found : v.Found) :
    .entered v.node.id ∈ v.whole.trace ↔ ¬ v.node.running := by
  obtain ⟨e, behind, htrace, hbehind⟩ := v.play_trace
  have hdeciding : .entered v.node.id ∉ v.deciding.trace :=
    NodeKind.update_entered v.ask_not_entered _ _
  have hend : .entered v.node.id ∉ behind := fun hmem => hbehind _ hmem
  rw [whole_eq found, htrace]
  cases hrunning : v.node.running with
  | true => simp [opening_of_running hrunning, hdeciding, hend]
  | false => simp [opening_of_idle hrunning]

/-- What is collected or drawn when a run begins is kept for the run. -/
theorem left_gathered (v : Visit H) : v.left.kind.guards = v.opening.answer.guards ∧
    v.left.kind.pinned? = v.opening.answer.pinned? := by
  let announced := announce ⟨v.frame.tick, v.node.id, v.node.guid, v.status⟩ v.node.observers
    v.deciding.stage
  obtain ⟨hguards, hpinned⟩ := v.opening.answer.update_gathered v.context v.ask v.opening.stage
  have hleft : v.left.kind =
      (v.deciding.answer.2.settle v.context v.status announced.stage).answer := rfl
  rw [← hguards, ← hpinned, hleft]
  rcases v.deciding.answer.2.settle_cases v.context v.status announced.stage with
    hsame | ⟨a, a', haction, haction'⟩
  · rw [hsame]
    exact ⟨rfl, rfl⟩
  · change _ = v.deciding.answer.2.guards ∧ _ = v.deciding.answer.2.pinned?
    rw [haction', haction]
    exact ⟨rfl, rfl⟩

/-- A node that is not a leaf is put back as it came to its answer, and so is what leaves share. -/
theorem left_of_control {v : Visit H} (h : v.node.kind.shape ≠ .noChildren) :
    v.left.kind = v.deciding.answer.2 ∧ v.play.stage.shared = v.deciding.stage.shared := by
  let announced := announce ⟨v.frame.tick, v.node.id, v.node.guid, v.status⟩ v.node.observers
    v.deciding.stage
  have htype : v.deciding.answer.2.nodeType = v.node.nodeType :=
    ((v.node.begin_alike v.context _ v.stage).trans
      (v.opening.answer.update_alike v.context v.ask v.opening.stage)).1
  have hsettle : v.deciding.answer.2.settle v.context v.status announced.stage =
      ⟨v.deciding.answer.2, announced.stage, []⟩ := by
    unfold NodeKind.settle
    split
    · generalize v.deciding.answer.2 = k at htype
      cases k with
      | action a => exact absurd (congrArg NodeType.shape htype.symm) h
      | root _ | condition _ | repeater _ | sequence _ | selector _ | parallel _
      | randomChoice _ _ => rfl
    · rfl
  have hplay : v.play.stage.shared =
      (v.deciding.answer.2.settle v.context v.status announced.stage).stage.shared := rfl
  refine ⟨congrArg Play.answer hsettle, ?_⟩
  rw [hplay, hsettle]
  exact announce_shared _ _ _

end Visit

end BehaviourTree
