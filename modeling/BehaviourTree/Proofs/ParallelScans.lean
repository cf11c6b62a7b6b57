import BehaviourTree.Proofs.Ways

/-!
Parallel nodes: each update is a scan of the children up to the first that fails, and children that
such a scan leaves in the midst of their runs go on when a later scan comes to them.
-/

namespace BehaviourTree

open Ticking

variable {H : Host} {id c : NodeId} {cs : List NodeId} {answers : List (NodeId × Status)}
  {result status : Status}

/-! ### One scan -/

/-- Children that are updated in turn up to the first that fails, their answers, and what becomes of
it if it would be `result` were they all to succeed. -/
inductive Scan : List NodeId → Status → List (NodeId × Status) → Status → Prop where
  | done {result : Status} : Scan [] result [] result
  | succeeds {c : NodeId} {cs : List NodeId} {result status : Status}
    {answers : List (NodeId × Status)} (rest : Scan cs result answers status) :
    Scan (c :: cs) result ((c, .success) :: answers) status
  | runs {c : NodeId} {cs : List NodeId} {result status : Status}
    {answers : List (NodeId × Status)} (rest : Scan cs .running answers status) :
    Scan (c :: cs) result ((c, .running) :: answers) status
  | fails {c : NodeId} {cs : List NodeId} {result : Status} :
    Scan (c :: cs) result [(c, .fail)] .fail

theorem updateAll_scans {ask : NodeId → Ticking H Status}
    (hask : ∀ c s, (ask c s).trace.answersTo id = [(c, (ask c s).answer)]) (cs : List NodeId)
    (result : Status) (s : Stage H) :
    let p := updateAll ask cs result s
    Scan cs result (p.trace.answersTo id) p.answer := by
  induction cs generalizing result s with
  | nil => exact .done
  | cons c cs ih =>
    intro p
    have hfirst := hask c s
    cases hanswer : (ask c s).answer with
    | success =>
      let q := updateAll ask cs result (ask c s).stage
      have hrun : p = ⟨q.answer, q.stage, (ask c s).trace ++ q.trace⟩ := by
        simp [p, q, updateAll, hanswer]
      rw [hrun, Trace.answersTo_append, hfirst, hanswer]
      exact .succeeds (ih result (ask c s).stage)
    | running =>
      let q := updateAll ask cs .running (ask c s).stage
      have hrun : p = ⟨q.answer, q.stage, (ask c s).trace ++ q.trace⟩ := by
        simp [p, q, updateAll, hanswer]
      rw [hrun, Trace.answersTo_append, hfirst, hanswer]
      exact .runs (ih .running (ask c s).stage)
    | fail =>
      have hrun : p = ⟨.fail, (ask c s).stage, (ask c s).trace ++ []⟩ := by
        simp [p, updateAll, hanswer]
      rw [hrun, List.append_nil, hfirst, hanswer]
      exact .fails

/-- The same answers, or the same up to a node that has answered differently. -/
def PartAtAnswer (answers answers' : List (NodeId × Status)) : Prop :=
  answers' = answers ∨ ∃ same c a a' rest rest', a ≠ a' ∧ answers = same ++ (c, a) :: rest ∧
    answers' = same ++ (c, a') :: rest'

theorem PartAtAnswer.cons {answers answers' : List (NodeId × Status)}
    (h : PartAtAnswer answers answers') (first : NodeId × Status) :
    PartAtAnswer (first :: answers) (first :: answers') := by
  rcases h with rfl | ⟨same, c, a, a', rest, rest', hne, rfl, rfl⟩
  · exact Or.inl rfl
  · exact Or.inr ⟨first :: same, c, a, a', rest, rest', hne, rfl, rfl⟩

theorem PartAtAnswer.of_ne {a a' : Status} (hne : a ≠ a') (rest rest' : List (NodeId × Status)) :
    PartAtAnswer ((c, a) :: rest) ((c, a') :: rest') :=
  Or.inr ⟨[], c, a, a', rest, rest', hne, rfl, rfl⟩

namespace Scan

/-- Either the last one that is asked fails, or all are asked and none does. -/
theorem cases_fail (h : Scan cs result answers status) :
    (∃ earlier c later, cs = earlier.map (·.1) ++ c :: later ∧ answers = earlier ++ [(c, .fail)] ∧
      (∀ a ∈ earlier, a.2 ≠ .fail) ∧ status = .fail) ∨
    (answers.map (·.1) = cs ∧ (∀ a ∈ answers, a.2 ≠ .fail) ∧
      status = if .running ∈ answers.map (·.2) then .running else result) := by
  induction h with
  | done => exact Or.inr ⟨rfl, by simp, rfl⟩
  | fails => exact Or.inl ⟨[], _, _, rfl, rfl, by simp, rfl⟩
  | @succeeds c cs result status answers _ ih =>
    rcases ih with ⟨earlier, d, later, rfl, rfl, hnone, rfl⟩ | ⟨rfl, hnone, rfl⟩
    · refine Or.inl ⟨(c, .success) :: earlier, d, later, rfl, rfl, ?_, rfl⟩
      exact List.forall_mem_cons.mpr ⟨nofun, hnone⟩
    · refine Or.inr ⟨rfl, List.forall_mem_cons.mpr ⟨nofun, hnone⟩, ?_⟩
      exact if_congr (by simp) rfl rfl
  | @runs c cs result status answers _ ih =>
    rcases ih with ⟨earlier, d, later, rfl, rfl, hnone, rfl⟩ | ⟨rfl, hnone, rfl⟩
    · refine Or.inl ⟨(c, .running) :: earlier, d, later, rfl, rfl, ?_, rfl⟩
      exact List.forall_mem_cons.mpr ⟨nofun, hnone⟩
    · exact Or.inr ⟨rfl, List.forall_mem_cons.mpr ⟨nofun, hnone⟩, by simp⟩

theorem asked (h : Scan cs result answers status) : answers.map (·.1) <+: cs := by
  rcases h.cases_fail with ⟨earlier, c, later, rfl, rfl, -, -⟩ | ⟨hall, -, -⟩
  · exact ⟨later, by simp⟩
  · exact hall ▸ List.prefix_rfl

/-- Two scans of the same children go the same way until a child answers differently. -/
theorem part {result' status' : Status} {answers' : List (NodeId × Status)}
    (h : Scan cs result answers status) (h' : Scan cs result' answers' status') :
    PartAtAnswer answers answers' := by
  induction h generalizing result' answers' with
  | done =>
    cases h'
    exact Or.inl rfl
  | succeeds _ ih =>
    cases h' with
    | succeeds rest => exact (ih rest).cons _
    | runs _ | fails => exact .of_ne (by decide) _ _
  | runs _ ih =>
    cases h' with
    | runs rest => exact (ih rest).cons _
    | succeeds _ | fails => exact .of_ne (by decide) _ _
  | fails =>
    cases h' with
    | fails => exact Or.inl rfl
    | succeeds _ | runs _ => exact .of_ne (by decide) _ _

end Scan

theorem NodeKind.eq_parallel {k : NodeKind H} (h : k.nodeType = .parallel) :
    k = .parallel k.links := by
  cases k with
  | parallel cs => rfl
  | root _ | action _ | condition _ | repeater _ | sequence _ | selector _ | randomChoice _ _ =>
    cases h

theorem Visit.scans {v : Visit H} (kind : v.node.kind = .parallel cs) :
    Scan cs .success v.answers v.status := by
  have hopening : v.opening.answer = .parallel cs ∧ v.deciding.trace =
      (updateAll v.ask cs .success v.opening.stage).trace ++ [] ∧
      v.deciding.answer.1 = (updateAll v.ask cs .success v.opening.stage).answer := by
    have hkind : v.opening.answer = .parallel cs := by
      cases hrunning : v.node.running with
      | true => rw [opening_of_running hrunning, kind]
      | false =>
        rw [opening_of_idle hrunning, kind]
        rfl
    rw [deciding, hkind]
    exact ⟨rfl, rfl, rfl⟩
  obtain ⟨-, htrace, hstatus⟩ := hopening
  rw [v.answers_eq, v.status_eq, htrace, hstatus, List.append_nil]
  exact updateAll_scans v.ask_answers cs .success v.opening.stage

/-- A child that is there once is asked once at most. -/
theorem Visit.reply {v : Visit H} (kind : v.node.kind = .parallel cs) (honce : v.node.links.Nodup)
    (h : (c, status) ∈ v.answers) : repliesOf c v.answers = [status] := by
  have hlinks : v.node.links = cs := congrArg NodeKind.links kind
  have hasked : (v.answers.map (·.1)).Sublist cs := (Visit.scans kind).asked.sublist
  exact repliesOf_eq_singleton ((hlinks ▸ honce).sublist hasked) h

/-! ### From scan to scan -/

namespace Session.Followed

variable {s : Session H} {ops : List (Operation H)} {before later us : List (Visit H)} {v : Visit H}
  {limit : Nat}

/-- A child that has answered `running` in a scan, among all of its visits. -/
theorem exists_scanned (hp : s.Followed id ops (before ++ v :: later)) (hc : s.Followed c ops us)
    (hticks : s.AtTicks (fun t => t.Tidy ∧ t.SoleParent id c) ops)
    (kind : v.node.kind = .parallel cs) (hrunning : (c, .running) ∈ v.answers) :
    ∃ us₁ u us₂, us = us₁ ++ u :: us₂ ∧ u.status = .running ∧
      us₁.map Visit.status = repliesOf c (before.flatMap Visit.answers) ∧
      us₂.map Visit.status = repliesOf c (later.flatMap Visit.answers) := by
  have honce : v.node.links.Nodup := by
    refine hp.links_nodup (hticks.imp fun _ h => h.1) v ?_
    exact List.mem_append_right _ List.mem_cons_self
  have hall : us.map Visit.status =
      repliesOf c (before.flatMap Visit.answers) ++ .running ::
        repliesOf c (later.flatMap Visit.answers) := by
    calc us.map Visit.status
      _ = repliesOf c ((before ++ v :: later).flatMap Visit.answers) := by
        rw [← hc.told.1, run_answers hticks, hp.told.2]
      _ = _ := by
        rw [List.flatMap_append, List.flatMap_cons, repliesOf_append, repliesOf_append,
          Visit.reply kind honce hrunning]
        rfl
  obtain ⟨us₁, us', rfl, hfirst, hrest⟩ := List.map_eq_append_iff.mp hall
  obtain ⟨u, us₂, rfl, hu, hlater⟩ := List.map_eq_cons_iff.mp hrest
  exact ⟨us₁, u, us₂, rfl, hu, hfirst, hlater⟩

/-- Nobody else ends its run. -/
theorem scanned_runs (hp : s.Followed id ops (before ++ v :: later)) (hc : s.Followed c ops us)
    (hticks : s.AtTicks (fun t => t.Tidy ∧ t.SoleParent id c) ops)
    (hfresh : s.supply.Fresh limit (· = c.uuid)) (hlimit : (s.run ops).1.supply.drawn ≤ limit)
    (kind : v.node.kind = .parallel cs) (hrunning : (c, .running) ∈ v.answers)
    (hnone : ∀ w ∈ later, ∀ a, (c, a) ∉ w.answers) {n : Node H}
    (hn : (s.run ops).1.tree.node? c = some n) : n.running := by
  obtain ⟨us₁, u, us₂, rfl, hu, -, hlater⟩ := hp.exists_scanned hc hticks kind hrunning
  have hnil : us₂ = [] := by
    refine List.map_eq_nil_iff.mp (hlater.trans (repliesOf_eq_nil fun a ha => ?_))
    obtain ⟨w, hw, hmem⟩ := List.mem_flatMap.mp ha
    exact hnone w hw a hmem
  subst hnil
  obtain ⟨-, -, hleft⟩ := hc.persists hfresh hlimit
  obtain ⟨m, hm, hedited⟩ := hleft n hn
  rw [leftBy_append] at hm
  obtain rfl : u.left = m := Option.some.inj hm
  rw [hedited.running, u.left_running, hu]
  rfl

/-- The next scan that comes to it finds it running. -/
theorem scanned_continues {between after : List (Visit H)} {v' : Visit H} {cs' : List NodeId}
    (hp : s.Followed id ops (before ++ v :: (between ++ v' :: after))) (hc : s.Followed c ops us)
    (hticks : s.AtTicks (fun t => t.Tidy ∧ t.SoleParent id c) ops)
    (hfresh : s.supply.Fresh limit (· = c.uuid)) (hlimit : (s.run ops).1.supply.drawn ≤ limit)
    (kind : v.node.kind = .parallel cs) (hrunning : (c, .running) ∈ v.answers)
    (hnone : ∀ w ∈ between, ∀ a, (c, a) ∉ w.answers) (kind' : v'.node.kind = .parallel cs')
    (hanswer : (c, status) ∈ v'.answers) :
    ∃ us₁ u u' us₂, us = us₁ ++ u :: u' :: us₂ ∧
      us₁.map Visit.status = repliesOf c (before.flatMap Visit.answers) ∧ u.status = .running ∧
      u'.status = status ∧ u'.node.running ∧ .entered c ∉ u'.whole.trace := by
  obtain ⟨us₁, u, us', rfl, hu, hfirst, hlater⟩ := hp.exists_scanned hc hticks kind hrunning
  have honce : v'.node.links.Nodup :=
    hp.links_nodup (hticks.imp fun _ h => h.1) v' (by simp)
  have hnil : repliesOf c (between.flatMap Visit.answers) = [] := by
    refine repliesOf_eq_nil fun a ha => ?_
    obtain ⟨w, hw, hmem⟩ := List.mem_flatMap.mp ha
    exact hnone w hw a hmem
  rw [List.flatMap_append, List.flatMap_cons, repliesOf_append, repliesOf_append, hnil,
    Visit.reply kind' honce hanswer, List.nil_append, List.singleton_append] at hlater
  obtain ⟨u', us₂, rfl, hu', -⟩ := List.map_eq_cons_iff.mp hlater
  obtain ⟨hchain, -, -⟩ := hc.persists hfresh hlimit
  obtain ⟨-, hnext, -⟩ := List.isChain_append.mp hchain
  obtain ⟨hedited, -⟩ := List.isChain_cons_cons.mp hnext
  have hgoes : u'.node.running := by
    rw [hedited.running, u.left_running, hu]
    rfl
  obtain ⟨hid, hfound⟩ := hc.found u' (by simp)
  refine ⟨us₁, u, u', us₂, rfl, hfirst, hu, hu', hgoes, ?_⟩
  rw [← hid, Visit.entered_iff hfound, not_not]
  exact hgoes

end Session.Followed

/-- One update of a parallel node asks its children in the order of their list, up to the first that
fails, and answers `fail` if there is one. If there is none all have been asked, and the answer is
`running` if one of them runs, and `success` otherwise. Which children are asked depends on nothing
but what they answer: two updates with the same children go the same way until one answers
differently. A child that a scan leaves in the midst of its run, whether it fails or not, still runs
after whatever is done to the tree, if it is there and no later scan has come to it, and the next
scan that does goes on with the run. For that the tree has to be tidy whenever it is ticked, and the
child nobody else's. -/
theorem parallel_scans {v : Visit H} (found : v.Found) (kind : v.node.kind = .parallel cs) :
    v.whole.answer = v.status ∧
    ((∃ earlier c later, cs = earlier.map (·.1) ++ c :: later ∧
        v.answers = earlier ++ [(c, .fail)] ∧ (∀ a ∈ earlier, a.2 ≠ .fail) ∧ v.status = .fail) ∨
      v.answers.map (·.1) = cs ∧ (∀ a ∈ v.answers, a.2 ≠ .fail) ∧
        v.status = if .running ∈ v.answers.map (·.2) then .running else .success) ∧
    (∀ w : Visit H, w.node.kind = .parallel cs → PartAtAnswer v.answers w.answers) ∧
    ∀ (s : Session H) ops before later us c limit,
      s.Followed v.node.id ops (before ++ v :: later) → s.Followed c ops us →
      s.AtTicks (fun t => t.Tidy ∧ t.SoleParent v.node.id c) ops →
      s.supply.Fresh limit (· = c.uuid) → (s.run ops).1.supply.drawn ≤ limit →
      (c, .running) ∈ v.answers →
        ((∀ w ∈ later, ∀ a, (c, a) ∉ w.answers) →
          ∀ n, (s.run ops).1.tree.node? c = some n → n.running) ∧
        ∀ between v' after cs' answer, later = between ++ v' :: after →
          (∀ w ∈ between, ∀ a, (c, a) ∉ w.answers) → v'.node.kind = .parallel cs' →
          (c, answer) ∈ v'.answers →
          ∃ us₁ u u' us₂, us = us₁ ++ u :: u' :: us₂ ∧
            us₁.map Visit.status = repliesOf c (before.flatMap Visit.answers) ∧
            u.status = .running ∧ u'.status = answer ∧ u'.node.running ∧
            .entered c ∉ u'.whole.trace := by
  have hscan := Visit.scans kind
  refine ⟨congrArg Play.answer (Visit.whole_eq found), hscan.cases_fail,
    fun w hw => hscan.part (Visit.scans hw), ?_⟩
  intro s ops before later us c limit hp hc hticks hfresh hlimit hrunning
  refine ⟨fun hnone n hn => hp.scanned_runs hc hticks hfresh hlimit kind hrunning hnone hn, ?_⟩
  rintro between v' after cs' answer rfl hnone kind' hanswer
  exact hp.scanned_continues hc hticks hfresh hlimit kind hrunning hnone kind' hanswer

/-- A parallel node of a wait and a condition that holds on every other check. -/
def Demo.relay : Session Demo.smallHost where
  tree := { tangle with
    nodes := [.make (.ofNat 1) "Root" (.root (some (.ofNat 2))),
      .make (.ofNat 2) "Parallel" (.parallel [.ofNat 3, .ofNat 4]),
      .make (.ofNat 3) "Wait" (.action (Demo.Action.wait 3 3)),
      .make (.ofNat 4) "Toggle" (.condition Demo.Condition.toggle)] }
  supply := counted.skip 10
  world := (⟨∅⟩ : TeamBoards)
  audience := (⟨∅⟩ : Recordings)

/-- The scan of the second tick fails and leaves the wait running, and the third one goes on with
it. -/
theorem parallel_scans_relay : ∃ v v' u' : Visit Demo.smallHost, v.Found ∧
    v.node.kind = .parallel [.ofNat 3, .ofNat 4] ∧
    v.answers = [(.ofNat 3, .running), (.ofNat 4, .fail)] ∧ v.whole.answer = .fail ∧
    v'.answers = [(.ofNat 3, .running), (.ofNat 4, .success)] ∧ u'.status = .running ∧
    u'.node.running ∧ .entered (.ofNat 3) ∉ u'.whole.trace := by
  let ticks : List (Operation Demo.smallHost) := [.tick ⟨0, 0, 0⟩, .tick ⟨1, 0, 0⟩, .tick ⟨2, 0, 0⟩]
  obtain ⟨vs, hp⟩ := Demo.relay.exists_followed (.ofNat 2) ticks
  obtain ⟨us, hc⟩ := Demo.relay.exists_followed (.ofNat 3) ticks
  obtain ⟨vs₁, rest, rfl, hfirst, hrest⟩ := hp.of_tick
  obtain ⟨vs₂, rest, rfl, hsecond, hrest⟩ := hrest.of_tick
  obtain ⟨vs₃, rest, rfl, hthird, -⟩ := hrest.of_tick
  obtain ⟨w, rfl, -⟩ := hfirst.single (show _ = [Status.running] by decide +kernel)
  obtain ⟨v, rfl, hstatus, hanswers, hnode, -⟩ :=
    hsecond.single (show _ = [Status.fail] by decide +kernel)
  obtain ⟨v', rfl, -, hanswers', hnode', -⟩ :=
    hthird.single (show _ = [Status.running] by decide +kernel)
  have parallel {u : Visit Demo.smallHost} {before : Option (Node Demo.smallHost)}
      (hnode : before = some u.node)
      (hbefore : before.map (fun n => (n.nodeType, n.links)) =
        some (.parallel, [.ofNat 3, .ofNat 4])) :
      u.node.kind = .parallel [.ofNat 3, .ofNat 4] := by
    subst hnode
    obtain ⟨htype, hlinks⟩ := Prod.mk.inj (Option.some.inj hbefore)
    exact hlinks ▸ NodeKind.eq_parallel htype
  have hkind := parallel hnode (by decide +kernel)
  have hkind' := parallel hnode' (by decide +kernel)
  obtain ⟨hid, hfound⟩ := hsecond.found v List.mem_cons_self
  have htidy (t : Tree Demo.smallHost) (hlive : t.contains t.root)
      (honce : (t.nodes.flatMap (·.links)).Nodup)
      (hlinks : ∀ n ∈ t.nodes, ∀ c ∈ n.links,
        t.contains c ∧ n.id.uuid.bits.toNat < c.uuid.bits.toNat)
      (hrecalled : ∀ n ∈ t.nodes, ∀ c ∈ n.recalled, c ∈ n.links)
      (hparent : .ofNat 2 ∈ t.children t.root) (hchild : .ofNat 3 ∈ t.children (.ofNat 2)) :
      t.Tidy ∧ t.SoleParent v.node.id (.ofNat 3) := by
    have hlinked := Tree.LinksFormTree.of_rank (·.uuid.bits.toNat) hlive honce hlinks
    refine ⟨⟨hlinked, fun _ n _ hn => hrecalled n (Tree.node?_some hn).1⟩, ?_⟩
    rw [hid]
    exact hlinked.soleParent (.single hparent) hchild
  have hticks : Demo.relay.AtTicks (fun t => t.Tidy ∧ t.SoleParent v.node.id (.ofNat 3)) ticks := by
    refine ⟨fun _ _ => ?_, fun _ _ => ?_, fun _ _ => ?_, trivial⟩
    all_goals apply htidy <;> decide +kernel
  have hfresh : Demo.relay.supply.Fresh (2^128) (· = (NodeId.ofNat 3).uuid) :=
    Demo.counted_unused fun _ hu => ⟨3, by decide, hu⟩
  have hfirst' : v.answers = [(.ofNat 3, .running), (.ofNat 4, .fail)] :=
    hanswers.trans (by decide +kernel)
  have hsecond' : v'.answers = [(.ofNat 3, .running), (.ofNat 4, .success)] :=
    hanswers'.trans (by decide +kernel)
  obtain ⟨hwhole, -, -, hhistory⟩ := parallel_scans hfound hkind
  obtain ⟨-, hnext⟩ := hhistory Demo.relay ticks [w] (v' :: rest) us (.ofNat 3) (2^128)
    (hid ▸ hp) hc hticks hfresh (by decide +kernel) (hfirst' ▸ List.mem_cons_self)
  obtain ⟨-, u, u', -, -, -, -, hu', hgoes, hentered⟩ := hnext [] v' rest _ .running rfl
    (fun _ hw => absurd hw List.not_mem_nil) hkind'
    (hsecond' ▸ List.mem_cons_self)
  exact ⟨v, v', u', hfound, hkind, hfirst', hwhole.trans hstatus, hsecond', hu', hgoes,
    hentered⟩

/-- A wait is a guard of a sequence that runs, and is then attached to a parallel node. The sequence
keeps it among its guards. -/
def Demo.rehoming : List (Operation Demo.smallHost) :=
  [.add (.selector (.idle [])), .add (.parallel []), .add (.sequence (.idle [])),
    .add (.action (Demo.Action.wait 2 2)), .setAlwaysCheck (.ofNat 6) true,
    .add (.action Demo.Action.succeed), .add (.action Demo.Action.fail),
    .attach (.ofNat 5) (.ofNat 6), .attach (.ofNat 5) (.ofNat 7), .attach (.ofNat 2) (.ofNat 5),
    .tick ⟨0, 0, 0⟩, .detach (.ofNat 5) (.ofNat 6), .detach (.ofNat 2) (.ofNat 5),
    .attach (.ofNat 4) (.ofNat 6), .attach (.ofNat 4) (.ofNat 8), .attach (.ofNat 3) (.ofNat 4),
    .attach (.ofNat 3) (.ofNat 5), .attach (.ofNat 2) (.ofNat 3)]

/-- Links that form a tree are not enough: a scan leaves the wait running, the sequence that once
had it for a child polls it to its end, and the next scan begins it anew. -/
theorem scanned_child_ends_as_guard :
    let s := (Demo.sapling.run Demo.rehoming).1
    let first := s.step (.tick ⟨1, 0, 0⟩)
    let second := first.1.step (.tick ⟨2, 0, 0⟩)
    let third := second.1.step (.tick ⟨3, 0, 0⟩)
    s.tree.LinksFormTree ∧ first.1.tree.LinksFormTree ∧ second.1.tree.LinksFormTree ∧
      first.2.answersTo (.ofNat 4) = [(.ofNat 6, .running), (.ofNat 8, .fail)] ∧
      first.2.statusesOf (.ofNat 4) = [.fail] ∧
      (first.1.tree.node? (.ofNat 6)).map (·.running) = some true ∧
      second.2.answersTo (.ofNat 4) = [] ∧
      (second.1.tree.node? (.ofNat 6)).map (·.running) = some false ∧
      third.2.answersTo (.ofNat 4) = [(.ofNat 6, .running), (.ofNat 8, .fail)] ∧
      (.ofNat 6, .enter) ∈ third.2.calls := by
  intro s first second third
  have hranked (t : Tree Demo.smallHost) (hlive : t.contains t.root)
      (honce : (t.nodes.flatMap (·.links)).Nodup)
      (hlinks : ∀ n ∈ t.nodes, ∀ c ∈ n.links,
        t.contains c ∧ n.id.uuid.bits.toNat < c.uuid.bits.toNat) : t.LinksFormTree :=
    .of_rank (·.uuid.bits.toNat) hlive honce hlinks
  refine ⟨hranked _ ?_ ?_ ?_, hranked _ ?_ ?_ ?_, hranked _ ?_ ?_ ?_, ?_, ?_, ?_, ?_, ?_, ?_, ?_⟩
  all_goals decide +kernel

end BehaviourTree
