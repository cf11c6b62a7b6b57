import BehaviourTree.Proofs.Profile
import Mathlib.Data.List.Induction

/-!
The runs of a node: what its leaf is called with, what its updates return, and what an update of
any node does to them.
-/

namespace BehaviourTree

open Ticking

variable {H : Host} {α β : Type} {id : NodeId}

/-! ### Runs in a trace -/

namespace Trace

/-- The calls that the leaf of a node gets. -/
def callsOf (id : NodeId) (τ : Trace H) : List LeafHook := τ.filterMap fun
  | .called node hook => if node = id then some hook else none
  | _ => none

/-- What the updates of a node return, as the events of the node tell. -/
def statusesOf (id : NodeId) (τ : Trace H) : List Status := τ.filterMap fun
  | .event e => if e.node = id then some e.status else none
  | _ => none

/-- The leaf of the node is not called, and no update of the node returns. -/
def Silent (id : NodeId) (τ : Trace H) : Prop := callsOf id τ = [] ∧ statusesOf id τ = []

variable {τ τ' : Trace H}

theorem callsOf_append (id : NodeId) (τ τ' : Trace H) :
    callsOf id (τ ++ τ') = callsOf id τ ++ callsOf id τ' := List.filterMap_append

theorem statusesOf_append (id : NodeId) (τ τ' : Trace H) :
    statusesOf id (τ ++ τ') = statusesOf id τ ++ statusesOf id τ' := List.filterMap_append

theorem callsOf_called (id : NodeId) (hook : LeafHook) (τ : Trace H) :
    callsOf id (.called id hook :: τ) = hook :: callsOf id τ := by
  simp [callsOf]

theorem statusesOf_event {e : StatusEvent} (he : e.node = id) (τ : Trace H) :
    statusesOf id (.event e :: τ) = e.status :: statusesOf id τ := by
  simp [statusesOf, he]

theorem silent_nil (id : NodeId) : Silent id ([] : Trace H) := ⟨rfl, rfl⟩

theorem Silent.append (h : Silent id τ) (h' : Silent id τ') : Silent id (τ ++ τ') := by
  obtain ⟨hcalls, hstatuses⟩ := h
  obtain ⟨hcalls', hstatuses'⟩ := h'
  unfold Silent
  rw [callsOf_append, statusesOf_append, hcalls, hstatuses, hcalls', hstatuses']
  exact ⟨rfl, rfl⟩

/-- What a node does by itself is not about any other. -/
theorem silent_own {other : NodeId} (hne : id ≠ other) (hown : ∀ i ∈ τ, i.OwnTo other) :
    Silent id τ := by
  have hnot (node : NodeId) (h : node = other) : ¬ node = id := fun h' => hne (h'.symm.trans h)
  refine ⟨List.filterMap_eq_nil_iff.mpr ?_, List.filterMap_eq_nil_iff.mpr ?_⟩
  · intro i hi
    cases i with
    | called node hook => exact if_neg (hnot node (hown _ hi))
    | asked _ _ | answered _ _ _ | entered _ | note _ | event _ | warning _ => rfl
  · intro i hi
    cases i with
    | event e => exact if_neg (hnot e.node (hown _ hi))
    | asked _ _ | answered _ _ _ | entered _ | note _ | called _ _ | warning _ => rfl

theorem silent_notes (id : NodeId) (notes : List H.Note) :
    Silent id (notes.map .note : Trace H) := by
  refine ⟨List.filterMap_eq_nil_iff.mpr ?_, List.filterMap_eq_nil_iff.mpr ?_⟩
  · intro i hi
    obtain ⟨note, -, rfl⟩ := List.mem_map.mp hi
    rfl
  · intro i hi
    obtain ⟨note, -, rfl⟩ := List.mem_map.mp hi
    rfl

end Trace

/-! ### The language of runs -/

/-- The node runs after updates that returned `statuses`. -/
def afterwards (running : Bool) (statuses : List Status) : Bool :=
  statuses.foldl (fun _ status => status.isRunning) running

/-- The calls of one update of an action that was running or idle. -/
def turn (running : Bool) (status : Status) : List LeafHook :=
  (if running then [] else [.enter]) ++ .update status ::
    (if status.isTerminal then [.exit] else [])

/-- The calls of updates in a row. -/
def turns : Bool → List Status → List LeafHook
  | _, [] => []
  | running, status :: statuses => turn running status ++ turns status.isRunning statuses

/-- One run of an action from its start to its end. -/
def IsRun (calls : List LeafHook) : Prop :=
  ∃ again status, status.isTerminal ∧
    calls = .enter :: (List.replicate again (.update .running) ++ [.update status, .exit])

theorem turns_append (running : Bool) (statuses statuses' : List Status) :
    turns running (statuses ++ statuses') =
      turns running statuses ++ turns (afterwards running statuses) statuses' := by
  induction statuses generalizing running with
  | nil => rfl
  | cons status statuses ih =>
    change turn running status ++ turns status.isRunning (statuses ++ statuses') = _
    rw [ih, ← List.append_assoc]
    rfl

theorem afterwards_append (running : Bool) (statuses statuses' : List Status) :
    afterwards running (statuses ++ statuses') =
      afterwards (afterwards running statuses) statuses' := List.foldl_append

theorem afterwards_iff (statuses : List Status) :
    afterwards false statuses ↔ statuses.getLast? = some .running := by
  induction statuses using List.reverseRecOn with
  | nil => simp [afterwards]
  | append_singleton statuses status _ =>
    rw [afterwards_append, List.getLast?_append]
    simp [afterwards, Status.isRunning]

/-- What has begun is a beginning of complete runs: `again` updates of the present run have returned
`running` so far. -/
theorem prefix_of_turns (statuses : List Status) :
    (∃ runs : List (List LeafHook), (∀ run ∈ runs, IsRun run) ∧
      turns false statuses <+: runs.flatten) ∧
    ∀ again, ∃ runs : List (List LeafHook), (∀ run ∈ runs, IsRun run) ∧
      .enter :: (List.replicate again (.update .running) ++ turns true statuses) <+:
        runs.flatten := by
  induction statuses with
  | nil =>
    refine ⟨⟨[], by simp, List.prefix_rfl⟩, fun again => ?_⟩
    -- The run that is in progress is the beginning of one that succeeds next.
    let run : List LeafHook :=
      .enter :: (List.replicate again (.update .running) ++ [.update .success, .exit])
    refine ⟨[run], ?_, ?_⟩
    · intro r hr
      obtain rfl := List.mem_singleton.mp hr
      exact ⟨again, .success, rfl, rfl⟩
    · exact ⟨[.update .success, .exit], by simp [run, turns]⟩
  | cons status statuses ih =>
    obtain ⟨⟨runs, hruns, hprefix⟩, hwithin⟩ := ih
    cases hstatus : status.isTerminal with
    | false =>
      -- The present run goes on.
      have hrunning : status = .running := by
        cases status with
        | running => rfl
        | success | fail => simp [Status.isTerminal, Status.isRunning] at hstatus
      subst hrunning
      refine ⟨?_, fun again => ?_⟩
      · obtain ⟨runs, hruns, hprefix⟩ := hwithin 1
        exact ⟨runs, hruns, hprefix⟩
      · obtain ⟨runs, hruns, hprefix⟩ := hwithin (again+1)
        refine ⟨runs, hruns, ?_⟩
        rw [List.replicate_succ', List.append_assoc] at hprefix
        exact hprefix
    | true =>
      have hrunning : status.isRunning = false := by simpa [Status.isTerminal] using hstatus
      -- The present run is over, and what follows begins anew.
      have hend (again : Nat) : ∃ runs : List (List LeafHook), (∀ run ∈ runs, IsRun run) ∧
          .enter :: (List.replicate again (.update .running) ++
            (.update status :: .exit :: turns false statuses)) <+: runs.flatten := by
        let run : List LeafHook :=
          .enter :: (List.replicate again (.update .running) ++ [.update status, .exit])
        refine ⟨run :: runs, ?_, ?_⟩
        · intro r hr
          rcases List.mem_cons.mp hr with rfl | hr
          · exact ⟨again, status, hstatus, rfl⟩
          · exact hruns r hr
        · obtain ⟨rest, hrest⟩ := hprefix
          exact ⟨rest, by simp [run, ← hrest]⟩
      refine ⟨?_, fun again => ?_⟩
      · simpa [turns, turn, hstatus, hrunning] using hend 0
      · simpa [turns, turn, hstatus, hrunning] using hend again

/-! ### Phases of an update -/

/-- The type of a node and whether it runs. -/
def lifeIn (nodes : List (Node H)) (id : NodeId) : Option (NodeType × Bool) :=
  (nodes.find? (·.id = id)).map fun n => (n.nodeType, n.running)

/-- The node is not updated on the way. -/
def Untouched (id : NodeId) (s : Stage H) (τ : Trace H) (s' : Stage H) : Prop :=
  τ.Silent id ∧ lifeIn s'.nodes id = lifeIn s.nodes id

theorem Untouched.append {s s' s'' : Stage H} {τ τ' : Trace H} (h : Untouched id s τ s')
    (h' : Untouched id s' τ' s'') : Untouched id s (τ ++ τ') s'' :=
  ⟨h.1.append h'.1, h'.2.trans h.2⟩

theorem untouched_compositional (id : NodeId) :
    Compositional (H := H) fun _ m _ => Keeps (Untouched id) m := by
  refine ⟨?_, ?_, ?_⟩
  · intro _ _ m _ f _ hm hf s
    exact (hm s).append (hf (m s).answer (m s).stage)
  · intro _ a s
    exact ⟨Trace.silent_nil id, rfl⟩
  · intro w _ s
    exact ⟨⟨rfl, rfl⟩, rfl⟩

theorem leaf_trace {Leaf : Type} (hook : α → LeafHook)
    (call : H.Shared → LeafStep Leaf H.Shared H.Note α) (s : Stage H) :
    Trace.callsOf id (leaf id hook call s).trace = [hook (leaf id hook call s).answer.1] ∧
      Trace.statusesOf id (leaf id hook call s).trace = [] := by
  obtain ⟨hcalls, hstatuses⟩ := Trace.silent_notes id (call s.shared).notes
  refine ⟨?_, hstatuses⟩
  unfold leaf
  rw [Trace.callsOf_called, hcalls]

theorem tellAll_silent (e : StatusEvent) (os : List H.Observer) (s : Stage H) :
    Trace.Silent id (tellAll e os s).trace := by
  induction os generalizing s with
  | nil => exact Trace.silent_nil id
  | cons o os ih =>
    have hfirst : Trace.Silent id (tell e o s).trace := by
      refine (Trace.silent_notes id _).append ?_
      split
      · exact ⟨rfl, rfl⟩
      · exact Trace.silent_nil id
    have hrest := ih (tell e o s).stage
    exact hfirst.append (hrest.append (Trace.silent_nil id))

theorem announce_trace {e : StatusEvent} (he : e.node = id) (own : List H.Observer)
    (s : Stage H) : Trace.callsOf id (announce e own s).trace = [] ∧
      Trace.statusesOf id (announce e own s).trace = [e.status] := by
  let told := tellAll e own s
  have hown : Trace.Silent id told.trace := tellAll_silent e own s
  -- First the node's own observers hear the event, then those of the whole tree.
  have hall : Trace.Silent id (tellAll e told.stage.observers told.stage).trace :=
    tellAll_silent e _ _
  obtain ⟨hcalls, hstatuses⟩ := hown.append (hall.append (Trace.silent_nil id))
  have htrace : (announce e own s).trace = .event e :: (told.trace ++
      ((tellAll e told.stage.observers told.stage).trace ++ [])) := by
    simp [announce, told]
  rw [htrace]
  refine ⟨hcalls, ?_⟩
  rw [Trace.statusesOf_event he, hstatuses]

namespace NodeKind

variable {ask : NodeId → Ticking H Status}

theorem enter_trace {context : LeafContext} (hid : context.node = id) (flagged : NodeId → Bool)
    (k : NodeKind H) (s : Stage H) :
    (k.nodeType = .action → Trace.callsOf id (k.enter context flagged s).trace = [.enter]) ∧
      Trace.statusesOf id (k.enter context flagged s).trace = [] := by
  subst hid
  cases k with
  | action a =>
    obtain ⟨hcalls, hstatuses⟩ :=
      leaf_trace (fun _ : Unit => .enter) (H.enter context a) s
    refine ⟨fun _ => ?_, ?_⟩
    · exact (Trace.callsOf_append _ _ []).trans (by rw [hcalls]; rfl)
    · exact (Trace.statusesOf_append _ _ []).trans (by rw [hstatuses]; rfl)
  | randomChoice cs selected =>
    refine ⟨nofun, ?_⟩
    have hpick : Trace.statusesOf context.node (pickChild cs s).trace = [] := by
      unfold pickChild
      split <;> rfl
    exact (Trace.statusesOf_append _ _ []).trans (by rw [hpick]; rfl)
  | root _ | condition _ | repeater _ | sequence _ | selector _ | parallel _ =>
    exact ⟨nofun, rfl⟩

theorem settle_trace {context : LeafContext} (hid : context.node = id) (status : Status)
    (k : NodeKind H) (s : Stage H) :
    (k.nodeType = .action → Trace.callsOf id (k.settle context status s).trace =
        if status.isTerminal then [.exit] else []) ∧
      Trace.statusesOf id (k.settle context status s).trace = [] := by
  subst hid
  unfold settle
  split
  · cases k with
    | action a =>
      obtain ⟨hcalls, hstatuses⟩ :=
        leaf_trace (fun _ : Unit => .exit) (H.exit context a) s
      refine ⟨fun _ => ?_, ?_⟩
      · exact (Trace.callsOf_append _ _ []).trans (by rw [hcalls]; rfl)
      · exact (Trace.statusesOf_append _ _ []).trans (by rw [hstatuses]; rfl)
    | root _ | condition _ | repeater _ | sequence _ | selector _ | parallel _
    | randomChoice _ _ => exact ⟨nofun, rfl⟩
  · exact ⟨fun _ => rfl, rfl⟩

/-- Between its entry and its end an action is called once, and no update of the node returns. -/
theorem update_trace {context : LeafContext} (hid : context.node = id)
    (hask : ∀ c, Keeps (Untouched id) (ask c)) (k : NodeKind H) (s : Stage H) :
    (k.nodeType = .action → Trace.callsOf id (k.update context ask s).trace =
        [.update (k.update context ask s).answer.1]) ∧
      Trace.statusesOf id (k.update context ask s).trace = [] ∧
      lifeIn (k.update context ask s).stage.nodes id = lifeIn s.nodes id := by
  have hcontrol (hk : k.shape ≠ .noChildren) : Untouched id s (k.update context ask s).trace
      (k.update context ask s).stage :=
    @updateControl_congr H (fun _ m _ => Keeps (Untouched id) m) ask ask context
      (untouched_compositional id) k (fun c _ => hask c) hk s
  subst hid
  cases k with
  | action a =>
    obtain ⟨hcalls, hstatuses⟩ := leaf_trace .update (H.update context a) s
    refine ⟨fun _ => ?_, ?_, rfl⟩
    · exact (Trace.callsOf_append _ _ []).trans (by rw [hcalls]; rfl)
    · exact (Trace.statusesOf_append _ _ []).trans (by rw [hstatuses]; rfl)
  | condition c =>
    obtain ⟨-, hstatuses⟩ := leaf_trace .check (H.check context c) s
    refine ⟨nofun, ?_, rfl⟩
    exact (Trace.statusesOf_append _ _ []).trans (by rw [hstatuses]; rfl)
  | root _ | repeater _ | sequence _ | selector _ | parallel _ | randomChoice _ _ =>
    obtain ⟨⟨-, hstatuses⟩, hlife⟩ := hcontrol nofun
    exact ⟨nofun, hstatuses, hlife⟩

end NodeKind

/-! ### Updates -/

section Update

variable {ask : NodeId → Ticking H Status}

theorem Node.begin_trace {context : LeafContext} (n : Node H) (hid : context.node = n.id)
    (flagged : Stage H → NodeId → Bool) (s : Stage H) :
    (n.nodeType = .action → Trace.callsOf n.id (n.begin context flagged s).trace =
        if n.running then [] else [.enter]) ∧
      Trace.statusesOf n.id (n.begin context flagged s).trace = [] := by
  unfold Node.begin
  split
  · exact ⟨fun _ => rfl, rfl⟩
  · exact n.kind.enter_trace hid _ s

/-- An update of a node that asks for no update of itself is one turn of its leaf. -/
theorem Node.update_trace (frame : TickContext) (flagged : Stage H → NodeId → Bool) (n : Node H)
    (hask : ∀ c, Keeps (Untouched n.id) (ask c)) (s : Stage H) :
    (n.nodeType = .action → Trace.callsOf n.id (n.update frame flagged ask s).trace =
        turn n.running (n.update frame flagged ask s).answer.1) ∧
      Trace.statusesOf n.id (n.update frame flagged ask s).trace =
        [(n.update frame flagged ask s).answer.1] ∧
      lifeIn (n.update frame flagged ask s).stage.nodes n.id = lifeIn s.nodes n.id ∧
      (n.update frame flagged ask s).answer.2.running =
        (n.update frame flagged ask s).answer.1.isRunning := by
  -- The four phases, and what each of them writes to the trace.
  let context : LeafContext := ⟨frame, n.id, n.owner⟩
  let begun := n.begin context flagged s
  let updated := begun.answer.update context ask begun.stage
  let status := updated.answer.1
  let announced := announce ⟨frame.tick, n.id, n.guid, status⟩ n.observers updated.stage
  let settled := updated.answer.2.settle context status announced.stage
  have hid : context.node = n.id := rfl
  have hevent : (⟨frame.tick, n.id, n.guid, status⟩ : StatusEvent).node = n.id := rfl
  obtain ⟨hcalls₁, hstatuses₁⟩ := n.begin_trace hid flagged s
  obtain ⟨hcalls₂, hstatuses₂, hlife₂⟩ := begun.answer.update_trace hid hask begun.stage
  obtain ⟨hcalls₃, hstatuses₃⟩ := announce_trace hevent n.observers updated.stage
  obtain ⟨hcalls₄, hstatuses₄⟩ := updated.answer.2.settle_trace hid status announced.stage
  have htrace : (n.update frame flagged ask s).trace =
      begun.trace ++ (updated.trace ++ (announced.trace ++ (settled.trace ++ []))) := rfl
  have htype : begun.answer.nodeType = n.nodeType := (n.begin_alike context flagged s).1
  have htype' : updated.answer.2.nodeType = begun.answer.nodeType :=
    (begun.answer.update_alike context ask begun.stage).1
  have hnil : Trace.callsOf n.id ([] : Trace H) = [] := rfl
  refine ⟨fun haction => ?_, ?_, ?_, rfl⟩
  · have hbegun : begun.answer.nodeType = .action := htype.trans haction
    rw [htrace, Trace.callsOf_append, Trace.callsOf_append, Trace.callsOf_append,
      Trace.callsOf_append, hcalls₁ haction, hcalls₂ hbegun, hcalls₃,
      hcalls₄ (htype'.trans hbegun), hnil, List.append_nil]
    rfl
  · rw [htrace, Trace.statusesOf_append, Trace.statusesOf_append, Trace.statusesOf_append,
      Trace.statusesOf_append, hstatuses₁, hstatuses₂, hstatuses₃, hstatuses₄]
    rfl
  · have hnodes₁ : begun.stage.nodes = s.nodes := (n.begin_own rfl flagged s).1
    have hnodes₃ : announced.stage.nodes = updated.stage.nodes :=
      (own_announce hevent n.observers updated.stage).1
    have hnodes₄ : settled.stage.nodes = announced.stage.nodes :=
      (updated.answer.2.settle_own context status announced.stage).1
    change lifeIn settled.stage.nodes n.id = _
    rw [hnodes₄, hnodes₃, hlife₂, hnodes₁]

end Update

/-! ### Ticks -/

/-- On the way a node that is there takes its turns, and nothing else happens to it. -/
structure Lived (id : NodeId) (nodes : List (Node H)) (τ : Trace H) (nodes' : List (Node H)) :
    Prop where
  life : lifeIn nodes' id = (lifeIn nodes id).map fun l => (l.1, afterwards l.2 (τ.statusesOf id))
  calls : ∀ running, lifeIn nodes id = some (.action, running) →
    τ.callsOf id = turns running (τ.statusesOf id)
  silent : lifeIn nodes id = none → τ.Silent id

variable {s s' s'' : Stage H} {τ τ' : Trace H} {nodes nodes' nodes'' : List (Node H)}

theorem Lived.of_silent (hsilent : τ.Silent id) (hlife : lifeIn nodes' id = lifeIn nodes id) :
    Lived id nodes τ nodes' := by
  obtain ⟨hcalls, hstatuses⟩ := hsilent
  refine ⟨?_, fun running _ => ?_, fun _ => ⟨hcalls, hstatuses⟩⟩
  · rw [hlife, hstatuses]
    exact Option.map_id'.symm
  · rw [hcalls, hstatuses]
    rfl

theorem Untouched.lived (h : Untouched id s τ s') : Lived id s.nodes τ s'.nodes :=
  .of_silent h.1 h.2

theorem Lived.append (h : Lived id nodes τ nodes') (h' : Lived id nodes' τ' nodes'') :
    Lived id nodes (τ ++ τ') nodes'' := by
  refine ⟨?_, fun running hrunning => ?_, fun hnone => ?_⟩
  · rw [h'.life, h.life, Option.map_map, Trace.statusesOf_append]
    apply congrArg (fun f => (lifeIn nodes id).map f)
    funext l
    rw [Function.comp_apply, afterwards_append]
  -- The second part begins in the state that the first one leaves the node in.
  · have hbetween : lifeIn nodes' id =
        some (.action, afterwards running (τ.statusesOf id)) := by
      rw [h.life, hrunning]
      rfl
    rw [Trace.callsOf_append, Trace.statusesOf_append, turns_append, h.calls running hrunning,
      h'.calls _ hbetween]
  · have hnone' : lifeIn nodes' id = none := by
      rw [h.life, hnone]
      rfl
    exact (h.silent hnone).append (h'.silent hnone')

/-- A question and its answer are not about the node that is asked. -/
theorem Untouched.framed (h : Untouched id s τ s')
    (hlife : lifeIn s''.nodes id = lifeIn s'.nodes id) (caller : Option NodeId) (node : NodeId) (status : Status) :
    Untouched id s (.asked caller node :: τ ++ [.answered caller node status]) s'' := by
  have hasked : Untouched id s [.asked caller node] s := ⟨⟨rfl, rfl⟩, rfl⟩
  have hanswered : Untouched id s' [.answered caller node status] s'' := ⟨⟨rfl, rfl⟩, hlife⟩
  exact (hasked.append h).append hanswered

theorem Lived.framed (h : Lived id nodes τ nodes') (hlife : lifeIn nodes'' id = lifeIn nodes' id)
    (caller : Option NodeId) (node : NodeId) (status : Status) :
    Lived id nodes (.asked caller node :: τ ++ [.answered caller node status]) nodes'' := by
  have hasked : Lived id nodes [.asked caller node] nodes := .of_silent ⟨rfl, rfl⟩ rfl
  have hanswered : Lived id nodes' [.answered caller node status] nodes'' :=
    .of_silent ⟨rfl, rfl⟩ hlife
  exact (hasked.append h).append hanswered

theorem lifeIn_of_find? {path : List NodeId} {n : Node H} (h : s.find? path id = some n) :
    lifeIn s.nodes id = some (n.nodeType, n.running) := by
  obtain ⟨-, -, hpath⟩ := find?_some h
  unfold Stage.find? at h
  rw [if_neg hpath] at h
  unfold lifeIn
  rw [h]
  rfl

theorem lifeIn_replace (nodes : List (Node H)) (n : Node H) (id : NodeId) :
    lifeIn (nodes.map fun m => if m.id = n.id then n else m) id =
      if id = n.id then (lifeIn nodes id).map fun _ => (n.nodeType, n.running)
      else lifeIn nodes id := by
  unfold lifeIn
  rw [find?_replace]
  split
  · rw [Option.map_map, Option.map_map]
    rfl
  · rfl

theorem lifeIn_restore (s : Stage H) (n : Node H) (id : NodeId) : lifeIn (s.restore n).nodes id =
    if id = n.id then (lifeIn s.nodes id).map fun _ => (n.nodeType, n.running)
    else lifeIn s.nodes id := lifeIn_replace s.nodes n id

theorem stepUpdate_lived {path : List NodeId} {n : Node H} {ask : NodeId → Ticking H Status}
    (frame : TickContext) (hfind : s.find? path n.id = some n)
    (hask : ∀ c, Keeps (Untouched n.id) (ask c)) :
    Lived n.id s.nodes (stepUpdate frame path ask n s).trace ((stepUpdate frame path ask
      n s).stage.restore (stepUpdate frame path ask n s).answer.2).nodes := by
  let p := n.update frame (fun s c => s.isGuard (n.id :: path) c) ask s
  obtain ⟨hcalls, hstatuses, hlife, hrunning⟩ :=
    n.update_trace frame (fun s c => s.isGuard (n.id :: path) c) hask s
  have hprofile : p.answer.2.profile = n.profile := n.update_profile frame _ ask s
  have hid : n.id = p.answer.2.id := (congrArg Profile.id hprofile).symm
  have htype : p.answer.2.nodeType = n.nodeType := congrArg Profile.type hprofile
  have hbefore := lifeIn_of_find? hfind
  change Lived n.id s.nodes p.trace (p.stage.restore p.answer.2).nodes
  refine ⟨?_, fun running haction => ?_, fun hnone => ?_⟩
  · rw [lifeIn_restore, if_pos hid, hlife, hbefore, hstatuses, Option.map_some, Option.map_some]
    exact congrArg some (Prod.ext htype hrunning)
  · rw [hbefore] at haction
    obtain ⟨htype, rfl⟩ := Prod.mk.inj (Option.some.inj haction)
    rw [hstatuses, hcalls htype]
    exact (List.append_nil _).symm
  · rw [hbefore] at hnone
    simp at hnone

/-- Whatever is updated, a node takes its turns, and none within its own turn. -/
theorem updateNode_lived (id : NodeId) (frame : TickContext) (depth : Nat) (path : List NodeId)
    (node : NodeId) :
    Keeps (fun s τ s' => Lived id s.nodes τ s'.nodes ∧ (id ∈ path → Untouched id s τ s'))
      (updateNode (H := H) frame depth path node) := by
  apply updateNode_induct (R := fun path s τ s' =>
    Lived id s.nodes τ s'.nodes ∧ (id ∈ path → Untouched id s τ s'))
  · intro path node s
    have huntouched : Untouched id s (refusal path node) s := ⟨⟨rfl, rfl⟩, rfl⟩
    exact ⟨huntouched.lived, fun _ => huntouched⟩
  · intro path node s n ask hfind hask
    obtain ⟨-, rfl, hpath⟩ := find?_some hfind
    rw [updateStep_some frame ask hfind]
    by_cases hid : id = n.id
    · -- Its own turn: within it there is no other.
      subst hid
      have hturn := stepUpdate_lived frame hfind fun c s => (hask c s).2 List.mem_cons_self
      exact ⟨hturn.framed rfl _ _ _, fun hin => absurd hin hpath⟩
    · have hsteady : Steady n.id fun (s : Stage H) τ s' =>
          Lived id s.nodes τ s'.nodes ∧ (id ∈ n.id :: path → Untouched id s τ s') := by
        refine ⟨?_, ?_⟩
        · intro s τ s' τ' s'' ⟨hlived, huntouched⟩ ⟨hlived', huntouched'⟩
          exact ⟨hlived.append hlived', fun hin => (huntouched hin).append (huntouched' hin)⟩
        · intro s τ s' hnodes hown
          have huntouched : Untouched id s τ s' := by
            refine ⟨Trace.silent_own hid hown, ?_⟩
            rw [hnodes]
          exact ⟨huntouched.lived, fun _ => huntouched⟩
      obtain ⟨hlived, huntouched⟩ := n.update_keeps frame
        (fun s c => s.isGuard (n.id :: path) c) hsteady hask s
      -- What is put back is another node.
      let p := n.update frame (fun s c => s.isGuard (n.id :: path) c) ask s
      have hprofile : p.answer.2.profile = n.profile := n.update_profile frame _ ask s
      have hname : p.answer.2.id = n.id := congrArg Profile.id hprofile
      have hlife : lifeIn (p.stage.restore p.answer.2).nodes id = lifeIn p.stage.nodes id := by
        rw [lifeIn_restore, if_neg (hname ▸ hid)]
      refine ⟨hlived.framed hlife _ _ _, fun hin => ?_⟩
      exact (huntouched (List.mem_cons_of_mem n.id hin)).framed hlife _ _ _

end BehaviourTree
