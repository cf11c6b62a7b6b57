import BehaviourTree.Proofs.VisitPhases

/-!
Sequences and selectors: what one update of them asks, and what it makes of the answers.
-/

namespace BehaviourTree

open Ticking

variable {H : Host} {id : NodeId} {pass : Status}

/-- The kind takes the children of the series in turn: a sequence passes on when one succeeds, and a
selector when one fails. -/
inductive NodeKind.Turns : NodeKind H → Status → Series → Prop where
  | sequence (s : Series) : Turns (.sequence s) .success s
  | selector (s : Series) : Turns (.selector s) .fail s

/-- One update of a series: what it asks with the answers that it gets, what it answers, and the
series that it leaves. -/
inductive Series.Turn (pass : Status) (s : Series) :
    List (NodeId × Status) → Status → Series → Prop where
  | empty (none : s.children = []) : Turn pass s [] .fail s
  /-- A guard does not hold, and nothing is asked from there on. -/
  | stopped {held later : List NodeId} {g : NodeId} {answer : Status} (some : s.children ≠ [])
    (guards : s.guards = held ++ g :: later) (stops : answer ≠ .success) :
    Turn pass s (held.map (·, .success) ++ [(g, answer)]) .fail s
  | beyond (some : s.children ≠ []) (none : s.children[s.current]? = none) :
    Turn pass s (s.guards.map (·, .success)) .fail s
  | keeps {c : NodeId} {answer : Status} (child : s.children[s.current]? = some c)
    (own : answer ≠ pass) : Turn pass s (s.guards.map (·, .success) ++ [(c, answer)]) answer s
  | passes {c : NodeId} (child : s.children[s.current]? = some c) :
    Turn pass s (s.guards.map (·, .success) ++ [(c, pass)])
      (if s.current+1 < s.children.length then .running else pass)
      { s with current := s.current+1 }

theorem Series.Turn.guards {s after : Series} {answers : List (NodeId × Status)} {status : Status}
    (h : s.Turn pass answers status after) : after.guards = s.guards := by
  cases h <;> rfl

/-! ### One update -/

section Update

variable {ask : NodeId → Ticking H Status}

/-- Guards are polled in turn, up to the first that does not succeed. -/
theorem pollGuards_polls
    (hask : ∀ c s, (ask c s).trace.answersTo id = [(c, (ask c s).answer)])
    (guards : List NodeId) (s : Stage H) :
    let p := pollGuards ask guards s
    (p.answer = true ∧ p.trace.answersTo id = guards.map (·, .success)) ∨
      (p.answer = false ∧ ∃ held g later answer, guards = held ++ g :: later ∧
        answer ≠ .success ∧ p.trace.answersTo id = held.map (·, .success) ++ [(g, answer)]) := by
  induction guards generalizing s with
  | nil => exact Or.inl ⟨rfl, rfl⟩
  | cons g guards ih =>
    intro p
    have hfirst := hask g s
    cases hanswer : (ask g s).answer with
    | success =>
      let q := pollGuards ask guards (ask g s).stage
      have hrun : p = ⟨q.answer, q.stage, (ask g s).trace ++ q.trace⟩ := by
        simp [p, q, pollGuards, hanswer]
      have htrace : p.trace.answersTo id = (g, .success) :: q.trace.answersTo id := by
        rw [hrun, Trace.answersTo_append, hfirst, hanswer, List.singleton_append]
      rcases ih (ask g s).stage with ⟨htrue, hall⟩ |
        ⟨hfalse, held, g', later, answer, rfl, hstops, hpolled⟩
      · exact Or.inl ⟨hrun ▸ htrue, htrace.trans (congrArg _ hall)⟩
      · exact Or.inr ⟨hrun ▸ hfalse, g :: held, g', later, answer, rfl, hstops,
          htrace.trans (congrArg _ hpolled)⟩
    | fail =>
      have hrun : p = ⟨false, (ask g s).stage, (ask g s).trace ++ []⟩ := by
        simp [p, pollGuards, hanswer]
      refine Or.inr ⟨hrun ▸ rfl, [], g, guards, .fail, rfl, nofun, ?_⟩
      rw [hrun, List.append_nil, hfirst, hanswer]
      rfl
    | running =>
      have hrun : p = ⟨false, (ask g s).stage,
          (ask g s).trace ++ ([.warning (.guardRunning g)] ++ [])⟩ := by
        simp [p, pollGuards, hanswer]
      refine Or.inr ⟨hrun ▸ rfl, [], g, guards, .running, rfl, nofun, ?_⟩
      rw [hrun, Trace.answersTo_append, hfirst, hanswer]
      rfl

/-- After guards that have held it is the turn of the current child. -/
theorem Series.advance_turns
    (hask : ∀ c s, (ask c s).trace.answersTo id = [(c, (ask c s).answer)]) (pass : Status)
    {series : Series} (hsome : series.children ≠ []) (s : Stage H) :
    let p := series.advance ask pass s
    series.Turn pass (series.guards.map (·, .success) ++ p.trace.answersTo id)
      p.answer.1 p.answer.2 := by
  intro p
  cases hchild : series.children[series.current]? with
  | none =>
    have hrun : p = ⟨(.fail, series), s, []⟩ := by
      simp [p, Series.advance, hchild]
    have hnil : Trace.answersTo id ([] : Trace H) = [] := rfl
    rw [hrun, hnil, List.append_nil]
    exact .beyond hsome hchild
  | some c =>
    by_cases hpass : (ask c s).answer = pass
    · have hrun : p = ⟨(if series.current+1 < series.children.length then .running else pass,
          { series with current := series.current+1 }), (ask c s).stage,
          (ask c s).trace ++ []⟩ := by
        simp [p, Series.advance, hchild, hpass]
      rw [hrun, List.append_nil, hask, hpass]
      exact .passes hchild
    · have hrun : p = ⟨((ask c s).answer, series), (ask c s).stage, (ask c s).trace ++ []⟩ := by
        simp [p, Series.advance, hchild, hpass]
      rw [hrun, List.append_nil, hask]
      exact .keeps hchild hpass

theorem Series.update_turns
    (hask : ∀ c s, (ask c s).trace.answersTo id = [(c, (ask c s).answer)]) (pass : Status)
    (empty : Warning) (series : Series) (s : Stage H) :
    let p := series.update ask pass empty s
    series.Turn pass (p.trace.answersTo id) p.answer.1 p.answer.2 := by
  intro p
  by_cases hnone : series.children = []
  · have hrun : p = ⟨(.fail, series), s, [.warning empty]⟩ := by
      simp [p, Series.update, hnone]
    rw [hrun]
    exact .empty hnone
  · have hsome : series.children.isEmpty = false := by simpa using hnone
    let polled := pollGuards ask series.guards s
    rcases pollGuards_polls hask series.guards s with ⟨htrue, hall⟩ |
      ⟨hfalse, held, g, later, answer, hguards, hstops, hpolled⟩
    · let advanced := series.advance ask pass polled.stage
      have hrun : p = ⟨advanced.answer, advanced.stage, polled.trace ++ advanced.trace⟩ := by
        simp [p, advanced, polled, Series.update, hsome, htrue]
      rw [hrun, Trace.answersTo_append, hall]
      exact Series.advance_turns hask pass hnone polled.stage
    · have hrun : p = ⟨(.fail, series), polled.stage, polled.trace ++ []⟩ := by
        simp [p, polled, Series.update, hsome, hfalse]
      rw [hrun, List.append_nil, hpolled]
      exact .stopped hnone hguards hstops

end Update

namespace NodeKind

variable {k : NodeKind H} {series : Series}

theorem exists_sequence (h : k.nodeType = .sequence) : ∃ series, k = sequence series := by
  cases k with
  | sequence series => exact ⟨series, rfl⟩
  | root _ | action _ | condition _ | repeater _ | selector _ | parallel _ | randomChoice _ _ =>
    cases h

theorem Turns.eq_sequence (h : k.Turns .success series) : k = .sequence series := by
  cases h
  rfl

theorem Turns.children (h : k.Turns pass series) : k.links = series.children := by
  cases h <;> rfl

theorem Turns.guards (h : k.Turns pass series) : k.guards = series.guards := by
  cases h <;> rfl

theorem Turns.update {ask : NodeId → Ticking H Status} (h : k.Turns pass series)
    (hask : ∀ c s, (ask c s).trace.answersTo id = [(c, (ask c s).answer)])
    (context : LeafContext) (s : Stage H) :
    let p := k.update context ask s
    ∃ after, p.answer.2.Turns pass after ∧
      series.Turn pass (p.trace.answersTo id) p.answer.1 after := by
  intro p
  cases h with
  | sequence series =>
    let q := series.update ask .success .sequenceWithoutChildren s
    have hrun : p = ⟨(q.answer.1, NodeKind.sequence q.answer.2), q.stage, q.trace ++ []⟩ := rfl
    rw [hrun, List.append_nil]
    exact ⟨q.answer.2, .sequence _, series.update_turns hask _ _ s⟩
  | selector series =>
    let q := series.update ask .fail .selectorWithoutChildren s
    have hrun : p = ⟨(q.answer.1, NodeKind.selector q.answer.2), q.stage, q.trace ++ []⟩ := rfl
    rw [hrun, List.append_nil]
    exact ⟨q.answer.2, .selector _, series.update_turns hask _ _ s⟩

theorem Turns.settle (h : k.Turns pass series) (context : LeafContext) (status : Status)
    (s : Stage H) : (k.settle context status s).answer = k := by
  rcases k.settle_cases context status s with hsame | ⟨a, _, rfl, -⟩
  · exact hsame
  · cases h

end NodeKind

/-- The series that a visit works on: it is entered if the node is found idle. -/
def Visit.begun (v : Visit H) (series : Series) : Series :=
  if v.node.running then series else series.enter (v.stage.isGuard (v.node.id :: v.path))

theorem Visit.opening_turns {v : Visit H} {series : Series} (h : v.node.kind.Turns pass series) :
    v.opening.answer.Turns pass (v.begun series) := by
  cases hrunning : v.node.running with
  | true =>
    rw [Visit.begun, if_pos hrunning, Visit.opening_of_running hrunning]
    exact h
  | false =>
    rw [Visit.begun, hrunning, if_neg Bool.false_ne_true, Visit.opening_of_idle hrunning]
    generalize v.node.kind = k at h
    cases h with
    | sequence series => exact .sequence _
    | selector series => exact .selector _

/-- A visit of a sequence or selector is one turn of its series. -/
theorem Visit.turn {v : Visit H} {series : Series} (h : v.node.kind.Turns pass series) :
    ∃ after, v.left.kind.Turns pass after ∧
      (v.begun series).Turn pass v.answers v.status after := by
  obtain ⟨after, hafter, hturn⟩ :=
    (Visit.opening_turns h).update v.ask_answers v.context v.opening.stage
  refine ⟨after, ?_, ?_⟩
  · have hleft : v.left.kind = v.deciding.answer.2 := hafter.settle v.context v.status _
    rw [hleft]
    exact hafter
  · rw [v.answers_eq]
    exact hturn

/-! ### Guards come first -/

/-- A child that is not there, or whose update is in progress, answers `fail`. -/
theorem Visit.refused (v : Visit H) {c : NodeId} {answer : Status} (hc : (c, answer) ∈ v.answers)
    (hgone : c ∈ v.node.id :: v.path ∨ c ∉ v.stage.ids) : answer = .fail := by
  let R (s : Stage H) (τ : Trace H) (s' : Stage H) : Prop := s'.ids = s.ids ∧
    ∀ c answer, (c, answer) ∈ τ.answersTo v.node.id →
      c ∈ v.node.id :: v.path ∨ c ∉ s.ids → answer = .fail
  have hsteady : Steady v.node.id R := by
    refine ⟨fun ⟨hids, hfail⟩ ⟨hids', hfail'⟩ => ⟨hids'.trans hids, ?_⟩, fun hnodes hown => ?_⟩
    · intro c answer hc hgone
      rw [Trace.answersTo_append] at hc
      rcases List.mem_append.mp hc with hc | hc
      · exact hfail c answer hc hgone
      · exact hfail' c answer hc (hids ▸ hgone)
    · refine ⟨Stage.ids_eq_of_nodes hnodes, fun c answer hc => ?_⟩
      obtain ⟨i, hi, hmatch⟩ := List.mem_filterMap.mp hc
      cases i with
      | answered _ _ _ => exact (hown _ hi).elim
      | asked _ _ | entered _ | called _ _ | note _ | event _ | warning _ => cases hmatch
  have hask (c : NodeId) : Keeps R (v.ask c) := by
    intro s
    refine ⟨(updateNode_guarded v.frame v.depth _ c s).1, fun c' answer hc hgone => ?_⟩
    rw [v.ask_answers] at hc
    obtain ⟨rfl, rfl⟩ := Prod.mk.inj (List.mem_singleton.mp hc)
    exact congrArg Play.answer (updateNode_refused hgone v.frame v.depth)
  exact (v.node.update_keeps v.frame _ hsteady hask v.stage).2 c answer hc hgone

theorem Visit.begun_children (v : Visit H) (series : Series) :
    (v.begun series).children = series.children := by
  unfold Visit.begun
  split <;> rfl

/-- Guards come first. Whatever the links of a tree are and whatever has become of its nodes, an
update of a sequence or selector, which is entered if it was idle, polls the guards in their order
up to the first that does not succeed, and one that cannot be found does not. If there is one, the
answer is `fail` and nobody else is asked; if there is none, the current child is asked and nobody
else, or nobody if the turn is past the end. Without children not even guards are polled. A node
that is not updated on the way, above all a child that runs, stays as it was. After a `fail` the
node is idle, and its next update begins with the first child. -/
theorem guards_preempt {v : Visit H} {series : Series} (found : v.Found)
    (kind : v.node.kind.Turns pass series) :
    (.entered v.node.id ∈ v.whole.trace ↔ ¬ v.node.running) ∧
    (v.node.links = [] → v.answers = [] ∧ v.status = .fail) ∧
    (v.node.links ≠ [] →
      (∃ held g later answer, (v.begun series).guards = held ++ g :: later ∧ answer ≠ .success ∧
        v.answers = held.map (·, .success) ++ [(g, answer)] ∧ v.status = .fail) ∨
      ∃ asked, v.answers = (v.begun series).guards.map (·, .success) ++ asked ∧
        match v.node.links[(v.begun series).current]? with
        | none => asked = [] ∧ v.status = .fail
        | some c => ∃ answer, asked = [(c, answer)] ∧ v.status =
          if answer = pass ∧ (v.begun series).current+1 < v.node.links.length then .running
          else answer) ∧
    (∀ c answer, (c, answer) ∈ v.answers → c ∈ v.node.id :: v.path ∨ c ∉ v.stage.ids →
      answer = .fail) ∧
    v.whole.answer = v.status ∧ v.whole.stage.node? v.node.id = some v.left ∧
    v.left.running = v.status.isRunning ∧
    (∀ other, (∀ e ∈ v.whole.trace.events, e.node ≠ other) →
      v.whole.stage.node? other = v.stage.node? other) ∧
    (v.status = .fail → ∀ (s : Session H) ops before v' after,
      s.Followed v.node.id ops (before ++ v :: v' :: after) → v'.node.running = false ∧
        ∀ pass' series', v'.node.kind.Turns pass' series' →
          .entered v.node.id ∈ v'.whole.trace ∧ (v'.begun series').current = 0) := by
  obtain ⟨after, -, hturn⟩ := Visit.turn kind
  have hlinks : v.node.links = (v.begun series).children :=
    kind.children.trans (v.begun_children series).symm
  rw [hlinks]
  refine ⟨Visit.entered_iff found, fun hnone => ?_, fun hsome => ?_,
    fun c answer hc => v.refused hc, congrArg Play.answer (Visit.whole_eq found),
    (Visit.told found).2, v.left_running, fun other hother => ?_, fun hfail => ?_⟩
  · generalize v.answers = answers, v.status = status at hturn
    cases hturn with
    | empty _ => exact ⟨rfl, rfl⟩
    | stopped hsome _ _ | beyond hsome _ => exact absurd hnone hsome
    | keeps hchild _ | passes hchild => simp [hnone] at hchild
  · generalize v.answers = answers, v.status = status at hturn
    cases hturn with
    | empty hnone => exact absurd hnone hsome
    | stopped _ hguards hstops => exact Or.inl ⟨_, _, _, _, hguards, hstops, rfl, rfl⟩
    | beyond _ hnone =>
      refine Or.inr ⟨[], (List.append_nil _).symm, ?_⟩
      rw [hnone]
      exact ⟨rfl, rfl⟩
    | @keeps c answer hchild hown =>
      refine Or.inr ⟨[(c, status)], rfl, ?_⟩
      rw [hchild]
      exact ⟨status, rfl, (if_neg fun h => hown h.1).symm⟩
    | @passes c hchild =>
      refine Or.inr ⟨[(c, pass)], rfl, ?_⟩
      rw [hchild]
      exact ⟨pass, rfl, by simp⟩
  · exact (updateNode_tells v.frame (v.depth+1) v.path v.node.id v.stage).others other hother
  · intro s ops before v' after' hfollowed
    have hidle : v'.node.running = false := hfollowed.idle (hfail ▸ rfl)
    refine ⟨hidle, fun pass' series' kind' => ?_⟩
    obtain ⟨hid, hfound⟩ := hfollowed.found v' (by simp)
    rw [← hid, Visit.entered_iff hfound, Visit.begun, hidle]
    exact ⟨Bool.false_ne_true, rfl⟩

/-- A sequence of a wait, with a guard behind it that holds on every other poll. -/
def Demo.sentry : Session Demo.smallHost where
  tree := { tangle with
    nodes := [.make (.ofNat 1) "Root" (.root (some (.ofNat 2))),
      .make (.ofNat 2) "Sequence" (.sequence (.idle [.ofNat 3, .ofNat 4])),
      .make (.ofNat 3) "Wait" (.action (Demo.Action.wait 3 3)),
      { Node.make (.ofNat 4) "Toggle" (.condition Demo.Condition.toggle) with
        alwaysCheck := true }] }
  supply := counted
  world := (⟨∅⟩ : TeamBoards)
  audience := (⟨∅⟩ : Recordings)

/-- On the second tick the guard does not hold, and on the third one the sequence starts over. -/
theorem guards_preempt_sentry : ∃ (v v' : Visit Demo.smallHost) (series : Series), v.Found ∧
    v.node.kind.Turns .success series ∧ v.node.running ∧ v.answers = [(.ofNat 4, .fail)] ∧
    v.status = .fail ∧ v.left.running = false ∧ .entered (.ofNat 2) ∈ v'.whole.trace ∧
    v'.answers = [(.ofNat 4, .success), (.ofNat 3, .running)] := by
  let ticks : List (Operation Demo.smallHost) := [.tick ⟨0, 0, 0⟩, .tick ⟨1, 0, 0⟩, .tick ⟨2, 0, 0⟩]
  obtain ⟨vs, hall⟩ := Demo.sentry.exists_followed (.ofNat 2) ticks
  obtain ⟨vs₁, rest, rfl, hfirst, hrest⟩ := hall.of_tick
  obtain ⟨vs₂, rest, rfl, hsecond, hrest⟩ := hrest.of_tick
  obtain ⟨vs₃, rest, rfl, hthird, -⟩ := hrest.of_tick
  obtain ⟨u, rfl, -⟩ := hfirst.single (show _ = [Status.running] by decide +kernel)
  obtain ⟨v, rfl, hstatus, hanswers, hnode, -⟩ :=
    hsecond.single (show _ = [Status.fail] by decide +kernel)
  obtain ⟨v', rfl, -, hanswers', hnode', -⟩ :=
    hthird.single (show _ = [Status.running] by decide +kernel)
  let n : Node Demo.smallHost :=
    { Node.make (.ofNat 2) "Sequence" (.sequence ⟨[.ofNat 3, .ofNat 4], [.ofNat 4], 0⟩) with
      running := true }
  have hn : v.node = n := Option.some.inj (hnode.symm.trans rfl)
  have htype : some v'.node.nodeType = some .sequence :=
    (congrArg (Option.map Node.nodeType) hnode').symm.trans (by decide +kernel)
  obtain ⟨series, hkind⟩ := NodeKind.exists_sequence (Option.some.inj htype)
  have hfound : v.Found := (hsecond.found v List.mem_cons_self).2
  have hturns : v.node.kind.Turns .success ⟨[.ofNat 3, .ofNat 4], [.ofNat 4], 0⟩ := hn ▸ .sequence _
  obtain ⟨-, -, -, -, -, -, hleft, -, hnext⟩ := guards_preempt hfound hturns
  have hfollowed : Demo.sentry.Followed v.node.id ticks ([u] ++ v :: v' :: rest) := hn ▸ hall
  obtain ⟨-, hagain⟩ := hnext hstatus _ _ _ _ _ hfollowed
  obtain ⟨hentered, -⟩ := hagain .success series (hkind ▸ .sequence series)
  refine ⟨v, v', _, hfound, hturns, hn ▸ rfl, hanswers.trans ?_, hstatus, ?_, ?_,
    hanswers'.trans ?_⟩
  · decide +kernel
  · rw [hleft, hstatus]
    rfl
  · rwa [hn] at hentered
  · decide +kernel

/-- A sequence with a selector and a guard that is not its own master: it updates the selector as
well. -/
def Demo.sharing : Tree Demo.smallHost := { tangle with
  nodes := [.make (.ofNat 1) "Root" (.root (some (.ofNat 2))),
    .make (.ofNat 2) "Sequence" (.sequence (.idle [.ofNat 3, .ofNat 4])),
    .make (.ofNat 3) "Selector" (.selector (.idle [.ofNat 5, .ofNat 6])),
    { Node.make (.ofNat 4) "Parallel" (.parallel [.ofNat 3]) with alwaysCheck := true },
    .make (.ofNat 5) "Toggle" (.condition Demo.Condition.toggle),
    .make (.ofNat 6) "Fail" (.action Demo.Action.fail)] }

/-- A child can come to its end below a guard: the first tick leaves the selector running. On the
second one the sequence asks nobody but its guard, which does not hold, and yet the selector runs no
more, for the guard has updated it. -/
theorem running_child_ends_below_guard :
    let first := Demo.sharing.tick ⟨0, 0, 0⟩ .empty .empty
    let second := first.tree.tick ⟨1, 0, 0⟩ first.world first.audience
    first.tree.children (.ofNat 2) = [.ofNat 3, .ofNat 4] ∧
      first.trace.answersTo (.ofNat 2) = [(.ofNat 4, .success), (.ofNat 3, .running)] ∧
      (first.tree.node? (.ofNat 3)).map (·.running) = some true ∧
      second.trace.answersTo (.ofNat 2) = [(.ofNat 4, .fail)] ∧
      second.trace.statusesOf (.ofNat 2) = [.fail] ∧
      (second.tree.node? (.ofNat 3)).map (·.running) = some false := by
  decide +kernel

end BehaviourTree
