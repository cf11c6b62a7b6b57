import BehaviourTree.Proofs.Hearing

/-!
Runs that are heard and runs that nobody hears. Observers make no difference to a run, and what they
do about it is what its events alone would make them do.
-/

namespace BehaviourTree

open Ticking

variable {H : Host} {α β : Type}

/-! ### Stages that nobody listens to -/

/-- The node without its observers. -/
def Node.unheard (n : Node H) : Node H := { n with observers := [] }

namespace Stage

/-- The stage without observers. -/
def unheard (nobody : H.Audience) (s : Stage H) : Stage H :=
  ⟨s.nodes.map Node.unheard, s.shared, [], nobody⟩

/-- Who listens on the stage. -/
def ears (s : Stage H) : Ears H where
  seated
    | none => s.observers
    | some id => ((s.node? id).map (·.observers)).getD []
  audience := s.audience

variable {nobody : H.Audience} {path : List NodeId} {s : Stage H}

theorem unheard_find? (id : NodeId) :
    (s.unheard nobody).find? path id = (s.find? path id).map Node.unheard := by
  unfold find?
  split
  · rfl
  · exact List.find?_map ..

theorem unheard_isGuard (id : NodeId) :
    (s.unheard nobody).isGuard path id = s.isGuard path id := by
  simp [isGuard, unheard_find?, Node.unheard, Option.any_map]

theorem unheard_setRng (rng : SplitMix64) :
    (s.unheard nobody).setRng rng = (s.setRng rng).unheard nobody := rfl

theorem setRng_ears (s : Stage H) (rng : SplitMix64) : (s.setRng rng).ears = s.ears := rfl

theorem unheard_restore (n : Node H) :
    (s.unheard nobody).restore n.unheard = (s.restore n).unheard nobody := by
  have hnodes : (s.nodes.map Node.unheard).map (fun m => if m.id = n.id then n.unheard else m) =
      (s.nodes.map fun m => if m.id = n.id then n else m).map Node.unheard := by
    rw [List.map_map, List.map_map]
    refine List.map_congr_left fun m _ => ?_
    by_cases hid : m.id = n.id
    · simp [Node.unheard, hid]
    · simp [Node.unheard, hid]
  exact congrArg (fun nodes => Stage.mk nodes s.shared [] nobody) hnodes

end Stage

/-! ### Plays that are overheard -/

/-- The play `q` is what `p` is without observers: with the same answer, the same stage but for
them, and the trace that they add to. What is overheard tells of nodes off the path, and after it
the observers are what its events have made of them. -/
structure Overhears (path : List NodeId) (nobody : H.Audience) (s : Stage H) (p q : Play H α) :
    Prop where
  answer : q.answer = p.answer
  stage : q.stage = p.stage.unheard nobody
  trace : p.trace = s.ears.voice q.trace
  ears : p.stage.ears = s.ears.after q.trace.events
  away : ∀ e ∈ q.trace.events, e.node ∉ path
  quiet : q.trace.panics = []

/-- The second computation does without observers what the first does with them. -/
def Overheard (path : List NodeId) (nobody : H.Audience) (m m' : Ticking H α) : Prop :=
  ∀ s, Overhears path nobody s (m s) (m' (s.unheard nobody))

section Overheard

variable {path : List NodeId} {nobody : H.Audience} {s : Stage H}
  {ask ask' : NodeId → Ticking H Status}

/-- Nothing is heard of what is no event. -/
theorem Overhears.of_silence {p q : Play H α} (hanswer : q.answer = p.answer)
    (hstage : q.stage = p.stage.unheard nobody) (htrace : p.trace = q.trace)
    (hears : p.stage.ears = s.ears) (hevents : q.trace.events = []) (hquiet : q.trace.panics = []) :
    Overhears path nobody s p q := by
  refine ⟨hanswer, hstage, ?_, ?_, ?_, hquiet⟩
  · rw [htrace, Ears.voice_of_events _ hevents]
  · rw [hears, hevents]
    rfl
  · simp [hevents]

theorem Overhears.append {p q : Play H α} {p' q' : Play H β} (h : Overhears path nobody s p q)
    (h' : Overhears path nobody p.stage p' q') :
    Overhears path nobody s ⟨p'.answer, p'.stage, p.trace ++ p'.trace⟩
      ⟨q'.answer, q'.stage, q.trace ++ q'.trace⟩ := by
  refine ⟨h'.answer, h'.stage, ?_, ?_, ?_, ?_⟩
  · rw [Ears.voice_append, ← h.ears, ← h.trace, ← h'.trace]
  · rw [Trace.events_append, Ears.after_append, ← h.ears]
    exact h'.ears
  · rw [Trace.events_append]
    exact List.forall_mem_append.mpr ⟨h.away, h'.away⟩
  · rw [Trace.panics_append, h.quiet, h'.quiet]
    rfl

theorem Overhears.within {p q : Play H α} {path' : List NodeId}
    (h : Overhears path' nobody s p q) (hpath : ∀ id ∈ path, id ∈ path') :
    Overhears path nobody s p q :=
  ⟨h.answer, h.stage, h.trace, h.ears, fun e he hid => h.away e he (hpath e.node hid), h.quiet⟩

theorem overheard_bind {m m' : Ticking H α} {f f' : α → Ticking H β}
    (hm : Overheard path nobody m m') (hf : ∀ a, Overheard path nobody (f a) (f' a)) :
    Overheard path nobody (m >>= f) (m' >>= f') := by
  intro s
  have h := hm s
  refine h.append ?_
  rw [h.stage, h.answer]
  exact hf (m s).answer (m s).stage

theorem overheard_pure (a : α) : Overheard (H := H) path nobody (pure a) (pure a) :=
  fun _ => .of_silence rfl rfl rfl rfl rfl rfl

theorem overheard_emit {i : TraceItem H} (hevent : Trace.events [i] = [])
    (hquiet : Trace.panics [i] = []) : Overheard path nobody (emit i) (emit i) :=
  fun _ => .of_silence rfl rfl rfl rfl hevent hquiet

theorem overheard_warn {w : Warning} (hw : w.OfControl) :
    Overheard (H := H) path nobody (warn w) (warn w) := by
  refine overheard_emit rfl ?_
  cases w with
  | unresolved _ | observerPanicked _ => exact hw.elim
  | rootWithoutChild | repeatWithoutChild | sequenceWithoutChildren | selectorWithoutChildren
  | choiceWithoutChildren | guardRunning _ => rfl

theorem overheard_draw32 : Overheard (H := H) path nobody draw32 draw32 := by
  intro s
  have hshared : (s.unheard nobody).shared = s.shared := rfl
  rw [draw32_run, draw32_run, hshared]
  exact .of_silence rfl (Stage.unheard_setRng _) rfl (s.setRng_ears _) rfl rfl

theorem overheard_leaf {Leaf : Type} (node : NodeId) (hook : α → LeafHook)
    (call : H.Shared → LeafStep Leaf H.Shared H.Note α) :
    Overheard path nobody (leaf node hook call) (leaf node hook call) := by
  intro s
  refine .of_silence rfl rfl rfl rfl ?_ ?_
  · simp [leaf, Trace.events, List.filterMap_map]
  · simp [leaf, Trace.panics, List.filterMap_map]

theorem overheard_compositional (path : List NodeId) (nobody : H.Audience) :
    Compositional fun _ => Overheard path nobody :=
  ⟨overheard_bind, overheard_pure, overheard_warn⟩

/-! ### Nodes -/

namespace NodeKind

theorem enter_overheard (context : LeafContext) (flagged : NodeId → Bool) (k : NodeKind H) :
    Overheard path nobody (k.enter context flagged) (k.enter context flagged) :=
  k.enter_congr (overheard_compositional path nobody) overheard_draw32
    (fun _ => overheard_leaf _ _ _) flagged

theorem update_overheard (context : LeafContext)
    (hask : ∀ c, Overheard path nobody (ask c) (ask' c)) (k : NodeKind H) :
    Overheard path nobody (k.update context ask) (k.update context ask') :=
  k.update_congr (overheard_compositional path nobody) (fun _ => overheard_leaf _ _ _)
    (fun _ => overheard_leaf _ _ _) fun c _ => hask c

theorem settle_overheard (context : LeafContext) (status : Status) (k : NodeKind H) :
    Overheard path nobody (k.settle context status) (k.settle context status) :=
  k.settle_congr (overheard_compositional path nobody) (fun _ => overheard_leaf _ _ _) status

end NodeKind

theorem Node.begin_overheard (context : LeafContext) {flagged : Stage H → NodeId → Bool}
    (hflagged : ∀ s, flagged (s.unheard nobody) = flagged s) (n : Node H) :
    Overheard path nobody (n.begin context flagged) (n.unheard.begin context flagged) := by
  have hrunning : n.unheard.running = n.running := rfl
  unfold Node.begin
  rw [hrunning]
  split
  · exact overheard_pure n.kind
  · refine overheard_bind (overheard_emit rfl rfl) fun _ s => ?_
    have h : Overheard path nobody _ _ := n.kind.enter_overheard context (flagged s)
    simp only [bind_run, stage_run, hflagged, List.nil_append]
    exact h s

/-- What an announcement leaves: the observers of the node are its answer, those of the tree are on
the stage, and what they do about the event is in the trace behind it. -/
theorem announce_run (e : StatusEvent) {own : List H.Observer} {s : Stage H}
    (hown : s.ears.seated (some e.node) = own) :
    let r := announce e own s
    r.answer = (s.ears.hear e).seated (some e.node) ∧
      r.stage = { s with
        observers := (s.ears.hear e).seated none, audience := (s.ears.hear e).audience } ∧
      r.trace = .event e :: (s.ears.noticesOf e).flatMap Notice.outcry := by
  let told := tellAll e own s
  let toldAll := tellAll e told.stage.observers told.stage
  have hrun : announce e own s = ⟨told.answer, { toldAll.stage with observers := toldAll.answer },
      .event e :: (told.trace ++ (toldAll.trace ++ []))⟩ := by
    simp [announce, told, toldAll]
  obtain ⟨hanswer, hstage, -⟩ := tellAll_hear e own s
  obtain ⟨hanswer', hstage', -⟩ := tellAll_hear e told.stage.observers told.stage
  have htrace := Notice.tellAll_trace (some e.node) e 0 own s
  have htrace' := Notice.tellAll_trace none e 0 told.stage.observers told.stage
  have hmid : told.stage = { s with audience := (hearAll e own s.audience).2 } := hstage
  have hheard := s.ears.hear_tree e
  rw [hown] at hheard
  have htree : (s.ears.hear e).seated none = _ := congrArg Prod.fst hheard
  have haudience : (s.ears.hear e).audience = _ := congrArg Prod.snd hheard
  rw [hrun]
  refine ⟨?_, ?_, ?_⟩
  · rw [Ears.hear_node, hown]
    exact hanswer
  · change { toldAll.stage with observers := toldAll.answer } = _
    rw [htree, haudience, hanswer', hstage', hmid]
    rfl
  · change .event e :: (told.trace ++ (toldAll.trace ++ [])) = _
    rw [htrace, htrace', List.append_nil, ← List.flatMap_append, Ears.noticesOf_eq, hown, hmid]
    rfl

/-- A node that is put back after its event leaves the stage as that event is heard. -/
theorem Stage.restore_ears {s s' : Stage H} {e : StatusEvent} {n : Node H} (hid : n.id = e.node)
    (hnodes : s'.nodes = s.nodes) (hobservers : s'.observers = (s.ears.hear e).seated none)
    (haudience : s'.audience = (s.ears.hear e).audience)
    (hown : n.observers = (s.ears.hear e).seated (some e.node)) :
    (s'.restore n).ears = s.ears.hear e := by
  have hseated : (s'.restore n).ears.seated = (s.ears.hear e).seated := by
    funext scope
    cases scope with
    | none => exact hobservers
    | some id =>
      change (((s'.restore n).node? id).map (·.observers)).getD [] = _
      rw [restore_node?, node?_of_nodes hnodes]
      by_cases hnode : id = n.id
      · rw [if_pos hnode, hnode, hid]
        -- Without a node there, nobody sits there, before or after.
        cases hfind : s.node? e.node with
        | none =>
          have hempty : s.ears.seated (some e.node) = [] := by simp [ears, hfind]
          rw [Ears.hear_node, hempty]
          rfl
        | some m => exact hown
      · have hother : e.node ≠ id := fun heq => hnode (heq ▸ hid.symm)
        rw [if_neg hnode, Ears.hear_other _ hother]
        rfl
  calc (s'.restore n).ears
    _ = ⟨(s'.restore n).ears.seated, s'.audience⟩ := rfl
    _ = s.ears.hear e := by rw [hseated, haudience]

/-- What an update does up to its event. -/
def Node.act (frame : TickContext) (flagged : Stage H → NodeId → Bool)
    (ask : NodeId → Ticking H Status) (n : Node H) : Ticking H (Status × NodeKind H) := do
  let kind ← n.begin ⟨frame, n.id, n.owner⟩ flagged
  kind.update ⟨frame, n.id, n.owner⟩ ask

/-- What is left of it then: the event is announced, and the run is left if it is over. -/
def Node.conclude (frame : TickContext) (n : Node H) (status : Status) (kind : NodeKind H) :
    Ticking H (Status × Node H) := do
  let observers ← announce ⟨frame.tick, n.id, n.guid, status⟩ n.observers
  let kind ← kind.settle ⟨frame, n.id, n.owner⟩ status
  pure (status, { n with kind, observers, running := status.isRunning })

theorem Node.conclude_run (frame : TickContext) (n : Node H) (status : Status) (kind : NodeKind H)
    (s : Stage H) :
    let announced := announce ⟨frame.tick, n.id, n.guid, status⟩ n.observers s
    let settled := kind.settle ⟨frame, n.id, n.owner⟩ status announced.stage
    n.conclude frame status kind s = ⟨(status, { n with
        kind := settled.answer, observers := announced.answer, running := status.isRunning }),
      settled.stage, announced.trace ++ settled.trace⟩ := by
  simp only [conclude, bind_run, pure_run, List.append_nil]

theorem Node.update_run (frame : TickContext) (flagged : Stage H → NodeId → Bool)
    (ask : NodeId → Ticking H Status) (n : Node H) (s : Stage H) :
    let acted := n.act frame flagged ask s
    let concluded := n.conclude frame acted.answer.1 acted.answer.2 acted.stage
    n.update frame flagged ask s =
      ⟨concluded.answer, concluded.stage, acted.trace ++ concluded.trace⟩ := by
  simp only [Node.update, Node.act, Node.conclude, bind_run, List.append_assoc]

theorem Node.act_overheard (frame : TickContext) {flagged : Stage H → NodeId → Bool}
    (hflagged : ∀ s, flagged (s.unheard nobody) = flagged s)
    (hask : ∀ c, Overheard path nobody (ask c) (ask' c)) (n : Node H) :
    Overheard path nobody (n.act frame flagged ask) (n.unheard.act frame flagged ask') :=
  overheard_bind (n.begin_overheard _ hflagged) fun kind => kind.update_overheard _ hask

/-- The end of an update, with the node put back. -/
theorem Node.conclude_overheard (frame : TickContext) (n : Node H) (hpath : n.id ∉ path)
    (status : Status) (kind : NodeKind H) (hown : s.ears.seated (some n.id) = n.observers) :
    let p := n.conclude frame status kind s
    let q := n.unheard.conclude frame status kind (s.unheard nobody)
    Overhears path nobody s ⟨p.answer.1, p.stage.restore p.answer.2, p.trace⟩
      ⟨q.answer.1, q.stage.restore q.answer.2, q.trace⟩ := by
  intro p q
  let context : LeafContext := ⟨frame, n.id, n.owner⟩
  let e : StatusEvent := ⟨frame.tick, n.id, n.guid, status⟩
  let announced := announce e n.observers s
  obtain ⟨hanswer, hstage, htrace⟩ :
      announced.answer = _ ∧ announced.stage = _ ∧ announced.trace = _ := announce_run e hown
  let settled := kind.settle context status announced.stage
  let settled' := kind.settle context status (s.unheard nobody)
  have hsettled : Overhears path nobody announced.stage settled settled' := by
    have h : Overheard path nobody _ _ := kind.settle_overheard context status
    have hunheard : announced.stage.unheard nobody = s.unheard nobody := by
      rw [hstage]
      rfl
    have hs := h announced.stage
    rwa [hunheard] at hs
  obtain ⟨hnodes, hobservers, haudience, -⟩ := kind.settle_writes context status announced.stage
  obtain ⟨-, -, -, hbehind⟩ := kind.settle_writes context status (s.unheard nobody)
  have hsilent : Trace.events settled'.trace = [] :=
    Trace.events_eq_nil fun e he => hbehind (.event e) he
  have hsame : settled.trace = settled'.trace := by
    rw [hsettled.trace, Ears.voice_of_events _ hsilent]
  let put : Node H := { n with
    kind := settled.answer, observers := announced.answer, running := status.isRunning }
  have hp : p = ⟨(status, put), settled.stage, announced.trace ++ settled.trace⟩ :=
    n.conclude_run frame status kind s
  have hq : q = ⟨(status, put.unheard), settled'.stage, .event e :: settled'.trace⟩ := by
    have hput : put.unheard =
        { n.unheard with kind := settled'.answer, running := status.isRunning } := by
      rw [hsettled.answer]
      rfl
    rw [hput]
    exact n.unheard.conclude_run frame status kind (s.unheard nobody)
  rw [hp, hq]
  have hevents : Trace.events (.event e :: settled'.trace) = [e] := congrArg (e :: ·) hsilent
  refine ⟨rfl, ?_, ?_, ?_, ?_, hsettled.quiet⟩
  · change settled'.stage.restore put.unheard = (settled.stage.restore put).unheard nobody
    rw [hsettled.stage, Stage.unheard_restore]
  · change announced.trace ++ settled.trace = .event e :: (_ ++ Ears.voice _ settled'.trace)
    rw [Ears.voice_of_events _ hsilent, hsame, htrace]
    rfl
  · rw [hevents]
    refine Stage.restore_ears rfl ?_ ?_ ?_ hanswer
    · exact hnodes.trans (by rw [hstage])
    · exact hobservers.trans (by rw [hstage])
    · exact haudience.trans (by rw [hstage])
  · rw [hevents]
    simpa using hpath

/-- One update, up to where the node is put back. -/
theorem Node.update_overheard (frame : TickContext) {flagged : Stage H → NodeId → Bool}
    (hflagged : ∀ s, flagged (s.unheard nobody) = flagged s) (n : Node H) (hpath : n.id ∉ path)
    (hask : ∀ c, Overheard (n.id :: path) nobody (ask c) (ask' c))
    (hown : s.ears.seated (some n.id) = n.observers) :
    let p := n.update frame flagged ask s
    let q := n.unheard.update frame flagged ask' (s.unheard nobody)
    Overhears path nobody s ⟨p.answer.1, p.stage.restore p.answer.2, p.trace⟩
      ⟨q.answer.1, q.stage.restore q.answer.2, q.trace⟩ := by
  intro p q
  let acted := n.act frame flagged ask s
  let acted' := n.unheard.act frame flagged ask' (s.unheard nobody)
  have hacted : Overhears (n.id :: path) nobody s acted acted' :=
    n.act_overheard frame hflagged hask s
  -- What is updated below the node leaves its observers alone.
  have hseated : acted.stage.ears.seated (some n.id) = n.observers := by
    rw [hacted.ears, Ears.after_seated, hown]
    exact fun e he heq => hacted.away e he (heq ▸ List.mem_cons_self)
  have hconcluded : Overhears path nobody acted.stage _ _ :=
    n.conclude_overheard frame hpath acted.answer.1 acted.answer.2 hseated
  have hp : p = _ := n.update_run frame flagged ask s
  have hq : q = _ := n.unheard.update_run frame flagged ask' (s.unheard nobody)
  rw [hacted.answer, hacted.stage] at hq
  rw [hp, hq]
  exact (hacted.within fun _ => List.mem_cons_of_mem n.id).append hconcluded

theorem updateStep_overheard (frame : TickContext) (id : NodeId)
    (hask : ∀ c, Overheard (id :: path) nobody (ask c) (ask' c)) :
    Overheard path nobody (updateStep frame path id ask) (updateStep frame path id ask') := by
  intro s
  have hfind : (s.unheard nobody).find? path id = _ := s.unheard_find? id
  cases h : s.find? path id with
  | none =>
    rw [h] at hfind
    rw [updateStep_none frame ask h, updateStep_none frame ask' hfind]
    exact .of_silence rfl rfl rfl rfl rfl rfl
  | some n =>
    obtain ⟨-, rfl, hpath⟩ := find?_some h
    rw [h, Option.map_some] at hfind
    rw [updateStep_some frame ask h, updateStep_some frame ask' hfind]
    have hown : s.ears.seated (some n.id) = n.observers := by
      simp [Stage.ears, ← Stage.find?_eq_node? hpath, h]
    let flagged : Stage H → NodeId → Bool := fun s c => s.isGuard (n.id :: path) c
    have hflagged (s : Stage H) : flagged (s.unheard nobody) = flagged s :=
      funext fun c => s.unheard_isGuard c
    let p := stepUpdate frame path ask n s
    let q := stepUpdate frame path ask' n.unheard (s.unheard nobody)
    have hupdate : Overhears path nobody s ⟨p.answer.1, p.stage.restore p.answer.2, p.trace⟩
        ⟨q.answer.1, q.stage.restore q.answer.2, q.trace⟩ :=
      n.update_overheard frame hflagged hpath hask hown
    have hasked : Overhears path nobody s (emit (.asked path.head? n.id) s)
        (emit (.asked path.head? n.id) (s.unheard nobody)) := overheard_emit rfl rfl s
    have hanswered : Overhears path nobody (p.stage.restore p.answer.2)
        ⟨p.answer.1, p.stage.restore p.answer.2, [.answered path.head? n.id p.answer.1]⟩
        ⟨q.answer.1, q.stage.restore q.answer.2, [.answered path.head? n.id q.answer.1]⟩ := by
      refine .of_silence hupdate.answer hupdate.stage ?_ rfl rfl rfl
      have hstatus : q.answer.1 = p.answer.1 := hupdate.answer
      rw [hstatus]
    exact (hasked.append hupdate).append hanswered

/-- Updates make no difference between stages with observers and without. -/
theorem updateNode_overheard (frame : TickContext) (nobody : H.Audience) (depth : Nat)
    (path : List NodeId) (id : NodeId) :
    Overheard path nobody (updateNode frame depth path id) (updateNode frame depth path id) := by
  induction depth generalizing path id with
  | zero => exact fun s => .of_silence rfl rfl rfl rfl rfl rfl
  | succ depth ih => exact updateStep_overheard frame id fun c => ih (id :: path) c

end Overheard

/-! ### Runs -/

namespace Tree

/-- The tree without observers. -/
def unheard (t : Tree H) : Tree H := { t with nodes := t.nodes.map Node.unheard, observers := [] }

/-- Who listens to the tree. -/
def ears (t : Tree H) (audience : H.Audience) : Ears H where
  seated
    | none => t.observers
    | some id => ((t.node? id).map (·.observers)).getD []
  audience := audience

/-- The run `q` is what `p` is without observers: with the same statuses, tree and world, and the
trace that they add to. After it the observers are what its events have made of them. -/
structure Overhears (x : Ears H) (p q : Ticked H × List Status) : Prop where
  statuses : q.2 = p.2
  tree : q.1.tree = p.1.tree.unheard
  world : q.1.world = p.1.world
  trace : p.1.trace = x.voice q.1.trace
  ears : p.1.tree.ears p.1.audience = x.after q.1.trace.events
  quiet : q.1.trace.panics = []

theorem tick_overheard (t : Tree H) (frame : TickContext) (world : H.World)
    (audience nobody : H.Audience) :
    let p := t.tick frame world audience
    let q := t.unheard.tick frame world nobody
    Overhears (t.ears audience) (p, [p.tree.status]) (q, [q.tree.status]) := by
  let p := updateNode frame t.size [] t.root (t.stage world audience)
  let q := updateNode frame t.size [] t.root ((t.stage world audience).unheard nobody)
  have h : BehaviourTree.Overhears [] nobody (t.stage world audience) p q :=
    updateNode_overheard frame nobody t.size [] t.root (t.stage world audience)
  have hsize : t.unheard.size = t.size := List.length_map ..
  have hq : updateNode frame t.unheard.size [] t.unheard.root (t.unheard.stage world nobody) =
      ⟨p.answer, p.stage.unheard nobody, q.trace⟩ := by
    rw [hsize, ← h.answer, ← h.stage]
    rfl
  simp only [tick, hq]
  exact ⟨rfl, rfl, rfl, h.trace, h.ears, h.quiet⟩

theorem run_overheard (t : Tree H) (world : H.World) (audience nobody : H.Audience)
    (frames : List TickContext) :
    Overhears (t.ears audience) (t.run world audience frames)
      (t.unheard.run world nobody frames) := by
  induction frames generalizing t world audience nobody with
  | nil => exact ⟨rfl, rfl, rfl, rfl, rfl, rfl⟩
  | cons frame frames ih =>
    let p := t.tick frame world audience
    let q := t.unheard.tick frame world nobody
    have h : Overhears (t.ears audience) (p, [p.tree.status]) (q, [q.tree.status]) :=
      t.tick_overheard frame world audience nobody
    have h' : Overhears (p.tree.ears p.audience) (p.tree.run p.world p.audience frames)
        (q.tree.run q.world q.audience frames) := by
      rw [h.tree, h.world]
      exact ih p.tree p.world p.audience q.audience
    rw [h.ears] at h'
    refine ⟨?_, h'.tree, h'.world, ?_, ?_, ?_⟩
    · have hstatus : q.tree.status = p.tree.status := List.singleton_inj.mp h.statuses
      change q.tree.status :: _ = p.tree.status :: _
      rw [hstatus, h'.statuses]
    · change p.trace ++ _ = Ears.voice _ (q.trace ++ _)
      rw [Ears.voice_append, ← h.trace, h'.trace]
    · change _ = Ears.after _ (Trace.events (q.trace ++ _))
      rw [Trace.events_append, Ears.after_append]
      exact h'.ears
    · change Trace.panics (q.trace ++ _) = []
      rw [Trace.panics_append, h.quiet, h'.quiet]
      rfl

end Tree

theorem TraceLog.statusesOf_eq {log everything : TraceLog} {id : NodeId}
    (h : log.events = everything.events.filter (·.node = id)) :
    log.statusesOf id = everything.statusesOf id := by
  rw [statusesOf, statusesOf, h, List.filter_filter]
  simp

open Ears in
/-- Observers have no say in a run, nor in what others hear of it. Two trees that differ in nothing
but their observers run alike, whatever those do and whoever panics: with the same answers, nodes,
blackboard, random stream and world, the same calls of leaves, and one trace that the observers of
either only add to. Whoever sits somewhere is told of every event in the scope, once and in order,
and is handed on from one notice to the next. Every panic costs one warning. A recorder that sits
with a node and nowhere else records what one that sits with the tree does, as far as it is about
that node. -/
theorem observers_have_no_say {t t' : Tree H} (hsame : t'.unheard = t.unheard) (world : H.World)
    (audience audience' : H.Audience) (frames : List TickContext) :
    let r := t.run world audience frames
    let r' := t'.run world audience' frames
    let x := t.ears audience
    let heard := r.1.trace.events
    let after := r.1.tree.ears r.1.audience
    (r'.2 = r.2 ∧ r'.1.tree.unheard = r.1.tree.unheard ∧ r'.1.world = r.1.world ∧
      r'.1.trace.calls = r.1.trace.calls ∧ r'.1.trace.events = r.1.trace.events ∧
      ∃ silent : Trace H, silent.panics = [] ∧ r.1.trace = x.voice silent ∧
        r'.1.trace = (t'.ears audience').voice silent) ∧
    (∀ σ o, x.at? σ = some o → Attends σ o (x.notices heard) (heard.filter σ.hears) after) ∧
    r.1.trace.panics =
      ((x.notices heard).filter (·.reaction.panicked)).map (·.event.node) ∧
    ∀ id i o log place everyone everything, Records o log → x.OnlyAt o ⟨some id, i⟩ →
      Records everyone everything → x.OnlyAt everyone ⟨none, place⟩ →
      (log audience).events = (everything audience).events.filter (·.node = id) →
      (everything r.1.audience).events = (everything audience).events ++ heard ∧
      (log r.1.audience).events = (everything r.1.audience).events.filter (·.node = id) ∧
      (log r.1.audience).statusesOf id = (everything r.1.audience).statusesOf id := by
  intro r r' x heard after
  -- Both are compared with the run of the tree that they are without observers.
  let q := t.unheard.run world audience frames
  have h : Tree.Overhears x r q := t.run_overheard world audience audience frames
  have h' : Tree.Overhears (t'.ears audience') r' q := by
    have hrun := t'.run_overheard world audience' audience frames
    rwa [hsame] at hrun
  obtain ⟨hevents, hcalls, hpanics⟩ := x.voice_spec h.quiet
  obtain ⟨hevents', hcalls', -⟩ := (t'.ears audience').voice_spec h'.quiet
  rw [← h.trace] at hevents hcalls hpanics
  rw [← h'.trace] at hevents' hcalls'
  have hears : after = x.after heard := by
    rw [show heard = q.1.trace.events from hevents]
    exact h.ears
  refine ⟨⟨?_, ?_, ?_, ?_, ?_, ?_⟩, ?_, ?_, ?_⟩
  · rw [← h.statuses, ← h'.statuses]
  · rw [← h.tree, ← h'.tree]
  · rw [← h.world, ← h'.world]
  · rw [hcalls, hcalls']
  · rw [hevents, hevents']
  · exact ⟨q.1.trace, h.quiet, h.trace, h'.trace⟩
  · intro σ o ho
    rw [hears]
    exact after_attends heard ho
  · rw [hpanics, ← hevents]
  · intro id i o log place everyone everything hlog honly heverything hall hbefore
    have haudience : r.1.audience = (x.after heard).audience := congrArg Ears.audience hears
    have hrecorded : (everything r.1.audience).events = (everything audience).events ++ heard := by
      rw [haudience, hall.log_after heverything heard]
      simp [Seat.hears, x, Tree.ears]
    have hpart : (log r.1.audience).events =
        (everything r.1.audience).events.filter (·.node = id) := by
      calc (log r.1.audience).events
        _ = (log audience).events ++ heard.filter (·.node = id) := by
          rw [haudience, honly.log_after hlog heard]
          rfl
        _ = ((everything audience).events ++ heard).filter (·.node = id) := by
          rw [hbefore, List.filter_append]
        _ = (everything r.1.audience).events.filter (·.node = id) := by rw [hrecorded]
    exact ⟨hrecorded, hpart, TraceLog.statusesOf_eq hpart⟩

/-! ### Observers that panic -/

/-- The host with observers that panic at everything, beside those that it has. -/
abbrev Host.brittle (H : Host) : Host where
  __ := H
  Observer := Option H.Observer
  notify
    | _, none, a => ⟨none, a, [], true⟩
    | e, some o, a =>
      let r := H.notify e o a
      ⟨some r.observer, r.audience, r.notes, r.panicked⟩

theorem Ears.Records.brittle {o : H.Observer} {log : H.Audience → TraceLog} (h : Records o log) :
    Records (H := H.brittle) (some o) log := by
  refine ⟨fun e a => ?_, fun e o' a ho' => ?_⟩
  · obtain ⟨hstays, hlog⟩ := h.writes e a
    exact ⟨congrArg some hstays, hlog⟩
  · cases o' with
    | none => exact ⟨nofun, rfl⟩
    | some o' =>
      obtain ⟨hother, hlog⟩ := h.others e o' a fun heq => ho' (congrArg some heq)
      exact ⟨fun heq => hother (Option.some.inj heq), hlog⟩

/-- The log under a name, which is empty where there is none. -/
def Recordings.logOf (name : String) (r : Recordings) : TraceLog := (r.get? name).getD .empty

theorem Recordings.logOf_push (name name' : String) (r : Recordings) (e : StatusEvent) :
    (r.push name' e).logOf name = if name' = name then (r.logOf name).push e else r.logOf name := by
  rw [logOf, get?, push, Std.TreeMap.getElem?_insert]
  by_cases hname : name' = name
  · simp [logOf, hname]
  · simp [logOf, get?, hname]

/-- The ready-made recorders are recorders of the logs under their names. -/
theorem Demo.recorder_records {ι : Type} [DecidableEq ι] {V : ι → Type} (flag : FlagType V)
    (name : String) :
    Ears.Records (H := host flag) (.recorder name) (Recordings.logOf name) := by
  refine ⟨fun e r => ⟨rfl, ?_⟩, fun e o r ho => ⟨ho, ?_⟩⟩
  · exact (Recordings.logOf_push name name r e).trans (if_pos rfl)
  · cases o with
    | silent | logger => rfl
    | recorder name' =>
      have hname : name' ≠ name := fun heq => ho (congrArg Listener.recorder heq)
      exact (Recordings.logOf_push name name' r e).trans (if_neg hname)

/-- A leaf below a sequence below the root. An observer that panics sits ahead of the recorder of
the leaf, and another behind that of the tree. -/
def Demo.watched : Tree smallHost.brittle where
  root := .ofNat 1
  nodes := [.make (.ofNat 1) "Root" (.root (some (.ofNat 2))),
    .make (.ofNat 2) "Sequence" (.sequence (.idle [.ofNat 3])),
    { Node.make (.ofNat 3) "Succeed" (.action Demo.Action.succeed) with
      observers := [none, some (.recorder "leaf")] }]
  blackboard := .empty default
  owner := none
  registry := .builtin
  seed := 0
  rng := ⟨0⟩
  status := .running
  observers := [some (.recorder "tree"), none]

theorem Tree.mem_seated {t : Tree H} {audience : H.Audience} {id : NodeId} {o : H.Observer}
    (h : o ∈ (t.ears audience).seated (some id)) : ∃ n ∈ t.nodes, n.id = id ∧ o ∈ n.observers := by
  change o ∈ ((t.node? id).map (·.observers)).getD [] at h
  cases hn : t.node? id with
  | none => simp [hn] at h
  | some n => exact ⟨n, (node?_some hn).1, (node?_some hn).2, by simpa [hn] using h⟩

theorem Ears.onlyAt_of_row {x : Ears H} {o : H.Observer} {σ : Seat}
    (hrow : ∀ i, (x.seated σ.scope)[i]? = some o ↔ i = σ.place)
    (hothers : ∀ scope, o ∈ x.seated scope → scope = σ.scope) : x.OnlyAt o σ := by
  intro σ'
  constructor
  · intro h
    have hscope : σ'.scope = σ.scope := hothers σ'.scope (List.mem_of_getElem? h)
    have hplace : σ'.place = σ.place := (hrow σ'.place).mp (hscope ▸ h)
    cases σ
    cases σ'
    simp_all
  · rintro rfl
    exact (hrow σ'.place).mpr rfl

/-- Over two ticks the panics make no difference to the run or to the recorders. -/
theorem observers_have_no_say_watched :
    let t := Demo.watched
    let r := t.run .empty .empty [⟨1, 0, 0⟩, ⟨2, 0, 0⟩]
    let r' := t.unheard.run .empty .empty [⟨1, 0, 0⟩, ⟨2, 0, 0⟩]
    t.unheard.unheard = t.unheard ∧ r'.2 = r.2 ∧ r'.1.tree.unheard = r.1.tree.unheard ∧
      r.1.trace.panics =
        [.ofNat 3, .ofNat 3, .ofNat 2, .ofNat 1, .ofNat 3, .ofNat 3, .ofNat 2, .ofNat 1] ∧
      (Recordings.logOf "leaf" r.1.audience).statusesOf (.ofNat 3) =
        (Recordings.logOf "tree" r.1.audience).statusesOf (.ofNat 3) := by
  intro t r r'
  have hsame : t.unheard.unheard = t.unheard := rfl
  obtain ⟨⟨hstatuses, htree, -⟩, -, -, hrecorders⟩ :=
    observers_have_no_say hsame .empty .empty .empty [⟨1, 0, 0⟩, ⟨2, 0, 0⟩]
  have hleaf := (Demo.recorder_records Demo.flagsOnly "leaf").brittle
  have htreeLog := (Demo.recorder_records Demo.flagsOnly "tree").brittle
  refine ⟨hsame, hstatuses, htree, by decide +kernel, ?_⟩
  have hrow : (t.ears .empty).seated (some (.ofNat 3)) = [none, some (.recorder "leaf")] := rfl
  have hall : (t.ears .empty).seated none = [some (.recorder "tree"), none] := rfl
  have hnodes : ∀ n ∈ t.nodes, n.observers = [] ∨
      n.id = .ofNat 3 ∧ n.observers = [none, some (.recorder "leaf")] := by
    simp [t, Demo.watched, Node.make]
  have hne : some (Listener.recorder "leaf") ≠ some (.recorder "tree") := by decide
  have hleafOnly : (t.ears .empty).OnlyAt (some (.recorder "leaf")) ⟨some (.ofNat 3), 1⟩ := by
    refine Ears.onlyAt_of_row (fun i => ?_) fun scope hscope => ?_
    · rw [hrow]
      rcases i with _ | _ | i <;> simp
    · cases scope with
      | none =>
        rw [hall] at hscope
        rcases List.mem_pair.mp hscope with heq | heq
        · exact absurd heq hne
        · exact absurd heq nofun
      | some id =>
        obtain ⟨n, hn, rfl, ho⟩ := Tree.mem_seated hscope
        rcases hnodes n hn with hnone | ⟨hid, -⟩
        · simp [hnone] at ho
        · rw [hid]
  have htreeOnly : (t.ears .empty).OnlyAt (some (.recorder "tree")) ⟨none, 0⟩ := by
    refine Ears.onlyAt_of_row (fun i => ?_) fun scope hscope => ?_
    · rw [hall]
      rcases i with _ | _ | i <;> simp
    · cases scope with
      | none => rfl
      | some id =>
        obtain ⟨n, hn, rfl, ho⟩ := Tree.mem_seated hscope
        rcases hnodes n hn with hnone | ⟨-, hleaf⟩
        · simp [hnone] at ho
        · rw [hleaf] at ho
          rcases List.mem_pair.mp ho with heq | heq
          · exact absurd heq nofun
          · exact absurd heq.symm hne
  exact (hrecorders (.ofNat 3) 1 _ _ 0 _ _ hleaf hleafOnly htreeLog htreeOnly rfl).2.2

end BehaviourTree
