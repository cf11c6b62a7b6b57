import BehaviourTree.Proofs.SeriesTurns

/-!
The runs of a sequence that polls no guards: from its entry to its end it asks one child after the
other until one fails or all have succeeded.
-/

namespace BehaviourTree

variable {H : Host} {id : NodeId} {cs : List NodeId} {status : Status}

/-! ### Runs -/

/-- Visits from some point of a run up to its end, which answers `status`. -/
inductive RunsOn : List (Visit H) → Status → Prop where
  | ends {v : Visit H} (terminal : v.status.isTerminal) : RunsOn [v] v.status
  | goes {v v' : Visit H} {vs : List (Visit H)} {status : Status} (running : v.status = .running)
    (found : v'.node.running) (rest : RunsOn (v' :: vs) status) : RunsOn (v :: v' :: vs) status

/-- A run from its entry to its end. -/
structure WholeRun (run : List (Visit H)) (status : Status) : Prop where
  entered : ∀ v ∈ run.head?, v.node.running = false
  goes : RunsOn run status

theorem RunsOn.last {run : List (Visit H)} (h : RunsOn run status) :
    ∃ earlier last, run = earlier ++ [last] ∧ last.status.isTerminal := by
  induction h with
  | ends terminal => exact ⟨[], _, rfl, terminal⟩
  | goes _ _ _ ih =>
    obtain ⟨earlier, last, hrun, hterminal⟩ := ih
    exact ⟨_ :: earlier, last, congrArg (List.cons _) hrun, hterminal⟩

/-- Children that are asked one after the other for as long as they run, up to one that fails or
through all of them: what they answer, and what becomes of it. -/
inductive Conjunction : List NodeId → List (NodeId × Status) → Status → Prop where
  | waits {c : NodeId} {cs : List NodeId} {answers : List (NodeId × Status)} {status : Status}
    (rest : Conjunction (c :: cs) answers status) :
    Conjunction (c :: cs) ((c, .running) :: answers) status
  | fails {c : NodeId} {cs : List NodeId} : Conjunction (c :: cs) [(c, .fail)] .fail
  | passes {c : NodeId} {cs : List NodeId} {answers : List (NodeId × Status)} {status : Status}
    (rest : Conjunction cs answers status) : Conjunction (c :: cs) ((c, .success) :: answers) status
  | succeeds {c : NodeId} : Conjunction [c] [(c, .success)] .success

/-- To succeed takes one success of each child, in their order. -/
theorem Conjunction.successes {answers : List (NodeId × Status)}
    (h : Conjunction cs answers status) (hstatus : status = .success) :
    answers.filter (·.2 = .success) = cs.map (·, .success) := by
  induction h with
  | waits _ ih => simpa using ih hstatus
  | fails => cases hstatus
  | passes _ ih => simpa using ih hstatus
  | succeeds => rfl

/-- The node is a sequence of these children that polls no guards. -/
structure Visit.Unguarded (v : Visit H) (cs : List NodeId) : Prop where
  type : v.node.nodeType = .sequence
  links : v.node.links = cs
  guards : v.left.kind.guards = []

/-- In the visit it is the turn of the child at a position. -/
def Visit.AtTurn (v : Visit H) (i : Nat) : Prop :=
  ∃ series, v.node.kind = .sequence series ∧ (v.begun series).current = i

/-- A visit leaves it to the child at a position to go on. -/
def Visit.LeavesTurn (v : Visit H) (i : Nat) : Prop :=
  ∃ series, v.left.kind = .sequence series ∧ series.current = i

namespace Visit

variable {v v' : Visit H} {i : Nat}

/-- It can be read off what is there ahead of the visit and behind it. -/
theorem Unguarded.of_nodes {before after : Option (Node H)} (hnode : before = some v.node)
    (hleft : after = some v.left)
    (hbefore : before.map (fun n => (n.nodeType, n.links)) = some (.sequence, cs))
    (hafter : after.map (fun n => n.kind.guards) = some []) : v.Unguarded cs := by
  subst hnode hleft
  obtain ⟨htype, hlinks⟩ := Prod.mk.inj (Option.some.inj hbefore)
  exact ⟨htype, hlinks, Option.some.inj hafter⟩

theorem Unguarded.atTurn (h : v.Unguarded cs) (hidle : v.node.running = false) : v.AtTurn 0 := by
  obtain ⟨series, hkind⟩ := NodeKind.exists_sequence h.type
  refine ⟨series, hkind, ?_⟩
  rw [Visit.begun, hidle]
  rfl

/-- The child whose turn it is is asked and nobody else, and its answer decides how it goes on. -/
theorem Unguarded.step (h : v.Unguarded cs) (hturn : v.AtTurn i) (hi : i < cs.length) :
    (v.answers = [(cs[i], .running)] ∧ v.status = .running ∧ v.LeavesTurn i) ∨
    (v.answers = [(cs[i], .fail)] ∧ v.status = .fail) ∨
    (v.answers = [(cs[i], .success)] ∧ i+1 < cs.length ∧ v.status = .running ∧
      v.LeavesTurn (i+1)) ∨
    (v.answers = [(cs[i], .success)] ∧ i+1 = cs.length ∧ v.status = .success) := by
  obtain ⟨series, hkind, hcurrent⟩ := hturn
  have hturns : v.node.kind.Turns .success series := hkind ▸ .sequence series
  obtain ⟨after, hafter, hstep⟩ := Visit.turn hturns
  have hchildren : (v.begun series).children = cs := by
    rw [v.begun_children, ← h.links, Node.links, hkind]
    rfl
  have hguards : (v.begun series).guards = [] := by
    rw [← hstep.guards, ← hafter.guards, h.guards]
  have hleft : v.left.kind = .sequence after := hafter.eq_sequence
  have hchild : (v.begun series).children[(v.begun series).current]? = some cs[i] := by
    rw [hchildren, hcurrent, List.getElem?_eq_getElem hi]
  generalize v.answers = answers, v.status = status at hstep
  cases hstep with
  | empty hnone => simp [← hchildren, hnone] at hi
  | stopped _ hstopped _ => simp [hguards] at hstopped
  | beyond _ hnone => cases hnone.symm.trans hchild
  | @keeps c answer hasked hown =>
    obtain rfl : c = cs[i] := Option.some.inj (hasked.symm.trans hchild)
    rw [hguards]
    cases status with
    | running => exact Or.inl ⟨rfl, rfl, _, hleft, hcurrent⟩
    | fail => exact Or.inr (Or.inl ⟨rfl, rfl⟩)
    | success => exact absurd rfl hown
  | @passes c hasked =>
    obtain rfl : c = cs[i] := Option.some.inj (hasked.symm.trans hchild)
    rw [hguards, hchildren, hcurrent]
    by_cases hlast : i+1 < cs.length
    · rw [if_pos hlast]
      exact Or.inr (Or.inr (Or.inl ⟨rfl, hlast, rfl, _, hleft, congrArg (·+1) hcurrent⟩))
    · rw [if_neg hlast]
      exact Or.inr (Or.inr (Or.inr ⟨rfl, by omega, rfl⟩))

/-- What a visit has left is what the next one of the run finds. -/
theorem Continues.atTurn (h : v.Continues v') (hrunning : v'.node.running)
    (hleft : v.LeavesTurn i) : v'.AtTurn i := by
  obtain ⟨series, hkind, hcurrent⟩ := hleft
  obtain ⟨cs, hedited⟩ := (h hrunning).kind
  refine ⟨{ series with children := cs }, ?_, ?_⟩
  · rw [hedited, hkind]
    rfl
  · rw [Visit.begun, if_pos hrunning]
    exact hcurrent

end Visit

/-- From a turn on, the visits of a run are a conjunction of the children from that turn on. -/
theorem RunsOn.conjunction {run : List (Visit H)} (h : RunsOn run status)
    (hchain : run.IsChain Visit.Continues) (hall : ∀ v ∈ run, v.Unguarded cs) {i : Nat}
    (hi : i < cs.length) (hturn : ∀ v ∈ run.head?, v.AtTurn i) :
    ∃ answers, run.map Visit.answers = answers.map ([·]) ∧
      Conjunction (cs.drop i) answers status := by
  induction h generalizing i with
  | @ends v hterminal =>
    have hstep := (hall v List.mem_cons_self).step (hturn v rfl) hi
    rw [List.drop_eq_getElem_cons hi]
    rcases hstep with ⟨-, hstatus, -⟩ | ⟨hanswers, hstatus⟩ | ⟨-, -, hstatus, -⟩ |
      ⟨hanswers, hlast, hstatus⟩
    · rw [hstatus] at hterminal
      cases hterminal
    · rw [List.map_singleton, hanswers, hstatus]
      exact ⟨[(cs[i], .fail)], rfl, .fails⟩
    · rw [hstatus] at hterminal
      cases hterminal
    · rw [List.map_singleton, hanswers, hstatus, List.drop_eq_nil_of_le hlast.ge]
      exact ⟨[(cs[i], .success)], rfl, .succeeds⟩
  | @goes v v' vs status hrunning hfound hrest ih =>
    obtain ⟨hnext, hchain'⟩ := List.isChain_cons_cons.mp hchain
    obtain ⟨hv, hall'⟩ := List.forall_mem_cons.mp hall
    have hgo {j : Nat} (hj : j < cs.length) (hleft : v.LeavesTurn j) :=
      ih hchain' hall' hj fun w hw => Option.some.inj hw ▸ hnext.atTurn hfound hleft
    rcases hv.step (hturn v rfl) hi with ⟨hanswers, -, hleft⟩ | ⟨-, hstatus⟩ |
      ⟨hanswers, hlast, -, hleft⟩ | ⟨-, -, hstatus⟩
    · -- The same child goes on.
      obtain ⟨answers, hmap, hconjunction⟩ := hgo hi hleft
      refine ⟨(cs[i], .running) :: answers, ?_, ?_⟩
      · rw [List.map_cons, hanswers, hmap, List.map_cons]
      · rw [List.drop_eq_getElem_cons hi] at hconjunction ⊢
        exact .waits hconjunction
    · cases hrunning.symm.trans hstatus
    · obtain ⟨answers, hmap, hconjunction⟩ := hgo hlast hleft
      refine ⟨(cs[i], .success) :: answers, ?_, ?_⟩
      · rw [List.map_cons, hanswers, hmap, List.map_cons]
      · rw [List.drop_eq_getElem_cons hi]
        exact .passes hconjunction
    · cases hrunning.symm.trans hstatus

/-- A run of a sequence that polls no guards is the conjunction of its children in their order.
Whatever the tree is and whatever is done to it on the way, as long as the sequence keeps its
children: each update asks one child; the first child is asked until it runs no more, then the
second, and so on; the run fails when a child does, and succeeds when the last one has. So a run
that succeeds has one success of each child, and is as many updates long as its children have
answered. The next run starts over with the first child. -/
theorem sequence_runs_conjoin {s : Session H} {ops : List (Operation H)}
    {before run after : List (Visit H)} (followed : s.Followed id ops (before ++ run ++ after))
    (whole : WholeRun run status) (hall : ∀ v ∈ run, v.Unguarded cs) (hsome : cs ≠ []) :
    (s.run ops).2.answersTo id = (before ++ run ++ after).flatMap Visit.answers ∧
    (∃ answers, run.map Visit.answers = answers.map ([·]) ∧ Conjunction cs answers status ∧
      (status = .success → answers.filter (·.2 = .success) = cs.map (·, .success)) ∧
      run.length = answers.length) ∧
    ∀ v ∈ after.head?, v.node.running = false ∧
      ∀ d ds, v.Unguarded (d :: ds) → ∃ answer, v.answers = [(d, answer)] := by
  obtain ⟨hchain, -⟩ := followed.continues
  obtain ⟨hbefore, -, -⟩ := List.isChain_append.mp hchain
  obtain ⟨-, hrun, -⟩ := List.isChain_append.mp hbefore
  refine ⟨followed.told.2, ?_, fun v hv => ?_⟩
  · have hstart (v : Visit H) (hv : v ∈ run.head?) : v.AtTurn 0 :=
      (hall v (List.mem_of_mem_head? hv)).atTurn (whole.entered v hv)
    obtain ⟨answers, hmap, hconjunction⟩ :=
      whole.goes.conjunction hrun hall (List.length_pos_of_ne_nil hsome) hstart
    refine ⟨answers, hmap, hconjunction, hconjunction.successes, ?_⟩
    have hlength := congrArg List.length hmap
    rwa [List.length_map, List.length_map] at hlength
  · obtain ⟨after', rfl⟩ : ∃ after', after = v :: after' := List.head?_eq_some_iff.mp hv
    obtain ⟨earlier, last, rfl, hterminal⟩ := whole.goes.last
    rw [← List.append_assoc before, List.append_assoc (before ++ earlier)] at followed
    have hidle : v.node.running = false := followed.idle hterminal
    refine ⟨hidle, fun d ds hv => ?_⟩
    rcases hv.step (hv.atTurn hidle) (Nat.zero_lt_succ _) with ⟨hanswers, -⟩ | ⟨hanswers, -⟩ |
      ⟨hanswers, -⟩ | ⟨hanswers, -⟩ <;> exact ⟨_, hanswers⟩

/-- A sequence of a wait for one tick and of an action that succeeds. -/
def Demo.errand : Session Demo.smallHost where
  tree := { tangle with
    nodes := [.make (.ofNat 1) "Root" (.root (some (.ofNat 2))),
      .make (.ofNat 2) "Sequence" (.sequence (.idle [.ofNat 3, .ofNat 4])),
      .make (.ofNat 3) "Wait" (.action (Demo.Action.wait 1 1)),
      .make (.ofNat 4) "Succeed" (.action Demo.Action.succeed)] }
  supply := counted
  world := (⟨∅⟩ : TeamBoards)
  audience := (⟨∅⟩ : Recordings)

theorem sequence_runs_conjoin_errand : ∃ (run : List (Visit Demo.smallHost)) (v : Visit _)
    (rest : List (Visit _)) (answers : List (NodeId × Status)),
    Demo.errand.Followed (.ofNat 2)
      [.tick ⟨0, 0, 0⟩, .tick ⟨1, 0, 0⟩, .tick ⟨2, 0, 0⟩, .tick ⟨3, 0, 0⟩] (run ++ v :: rest) ∧
    WholeRun run .success ∧ (∀ w ∈ run, w.Unguarded [.ofNat 3, .ofNat 4]) ∧
    run.map Visit.answers = answers.map ([·]) ∧
    Conjunction [.ofNat 3, .ofNat 4] answers .success ∧
    answers.filter (·.2 = .success) = [(.ofNat 3, .success), (.ofNat 4, .success)] ∧
    v.node.running = false ∧ ∃ answer, v.answers = [(.ofNat 3, answer)] := by
  obtain ⟨vs, hall⟩ := Demo.errand.exists_followed (.ofNat 2)
    [.tick ⟨0, 0, 0⟩, .tick ⟨1, 0, 0⟩, .tick ⟨2, 0, 0⟩, .tick ⟨3, 0, 0⟩]
  obtain ⟨_, rest, rfl, hticked₁, hrest⟩ := hall.of_tick
  obtain ⟨_, rest, rfl, hticked₂, hrest⟩ := hrest.of_tick
  obtain ⟨_, rest, rfl, hticked₃, hrest⟩ := hrest.of_tick
  obtain ⟨_, rest, rfl, hticked₄, -⟩ := hrest.of_tick
  obtain ⟨v₁, rfl, hstatus₁, -, hnode₁, hleft₁⟩ :=
    hticked₁.single (show _ = [Status.running] by decide +kernel)
  obtain ⟨v₂, rfl, hstatus₂, -, hnode₂, hleft₂⟩ :=
    hticked₂.single (show _ = [Status.running] by decide +kernel)
  obtain ⟨v₃, rfl, hstatus₃, -, hnode₃, hleft₃⟩ :=
    hticked₃.single (show _ = [Status.success] by decide +kernel)
  obtain ⟨v₄, rfl, -, -, hnode₄, hleft₄⟩ :=
    hticked₄.single (show _ = [Status.running] by decide +kernel)
  have running {v : Visit Demo.smallHost} {before : Option (Node Demo.smallHost)} {running : Bool}
      (hnode : before = some v.node) (hbefore : before.map (·.running) = some running) :
      v.node.running = running := by
    subst hnode
    exact Option.some.inj hbefore
  have hunguarded : ∀ w ∈ [v₁, v₂, v₃], w.Unguarded [.ofNat 3, .ofNat 4] := by
    simp only [List.forall_mem_cons, List.not_mem_nil, false_imp_iff, implies_true, and_true]
    exact ⟨.of_nodes hnode₁ hleft₁ (by decide +kernel) (by decide +kernel),
      .of_nodes hnode₂ hleft₂ (by decide +kernel) (by decide +kernel),
      .of_nodes hnode₃ hleft₃ (by decide +kernel) (by decide +kernel)⟩
  have hwhole : WholeRun [v₁, v₂, v₃] .success := by
    refine ⟨fun v hv => Option.some.inj hv ▸ running hnode₁ (by decide +kernel), ?_⟩
    refine .goes hstatus₁ (running hnode₂ (by decide +kernel)) ?_
    refine .goes hstatus₂ (running hnode₃ (by decide +kernel)) ?_
    exact hstatus₃ ▸ .ends (hstatus₃ ▸ rfl)
  have hfollowed : Demo.errand.Followed (.ofNat 2)
      [.tick ⟨0, 0, 0⟩, .tick ⟨1, 0, 0⟩, .tick ⟨2, 0, 0⟩, .tick ⟨3, 0, 0⟩]
      ([] ++ [v₁, v₂, v₃] ++ v₄ :: rest) := hall
  obtain ⟨-, ⟨answers, hmap, hconjunction, hsuccesses, -⟩, hnext⟩ :=
    sequence_runs_conjoin hfollowed hwhole hunguarded (List.cons_ne_nil _ _)
  obtain ⟨hidle, hagain⟩ := hnext v₄ rfl
  refine ⟨[v₁, v₂, v₃], v₄, rest, answers, hfollowed, hwhole, hunguarded, hmap, hconjunction,
    hsuccesses rfl, hidle, ?_⟩
  exact hagain (.ofNat 3) [.ofNat 4]
    (.of_nodes hnode₄ hleft₄ (by decide +kernel) (by decide +kernel))

end BehaviourTree
