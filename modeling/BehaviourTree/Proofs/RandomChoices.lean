import BehaviourTree.Proofs.SequenceRuns

/-!
Random choices: a run goes on with the child that was drawn when it began, and as long as leaves
draw nothing, words are drawn when such runs begin and at no other time.
-/

namespace BehaviourTree

open Ticking

variable {H : Host} {id c : NodeId} {cs : List NodeId} {status : Status}

/-! ### The child of a run -/

theorem scaleDraw_lt (w : UInt32) {len : Nat} (hlen : 0 < len) : scaleDraw w len < len := by
  have hw : w.toNat < UInt32.size := w.toNat_lt
  rw [scaleDraw, Nat.div_lt_iff_lt_mul (by decide), Nat.mul_comm]
  exact Nat.mul_lt_mul_of_pos_left hw hlen

/-- The index that the next word of the random stream picks among so many. -/
def Stage.nextPick (s : Stage H) (len : Nat) : Nat := scaleDraw s.shared.rng.next32.1 len

/-- The stage after one word has been drawn. -/
def Stage.drawn (s : Stage H) : Stage H := s.setRng s.shared.rng.next32.2

theorem Stage.drawn_nodes (s : Stage H) : s.drawn.nodes = s.nodes := s.setRng_nodes _

namespace NodeKind

theorem pinned?_eq_some {k : NodeKind H} (h : k.pinned? = some c) :
    ∃ cs, k = randomChoice cs (some c) := by
  cases k with
  | randomChoice cs selected =>
    obtain rfl : selected = some c := h
    exact ⟨cs, rfl⟩
  | root _ | action _ | condition _ | repeater _ | sequence _ | selector _ | parallel _ => cases h

theorem setLinks_pinned? (k : NodeKind H) (cs : List NodeId) :
    (k.setLinks cs).pinned? = k.pinned? := by
  cases k <;> rfl

end NodeKind

/-- A child is picked with one word if there is one to be picked, and with none otherwise. -/
theorem pickChild_run (cs : List NodeId) (s : Stage H) :
    (cs = [] ∧ pickChild cs s = ⟨none, s, [.warning .choiceWithoutChildren]⟩) ∨
      ∃ hi : s.nextPick cs.length < cs.length,
        pickChild cs s = ⟨some cs[s.nextPick cs.length], s.drawn, []⟩ := by
  cases cs with
  | nil => exact Or.inl ⟨rfl, rfl⟩
  | cons c cs =>
    have hi : s.nextPick (c :: cs).length < (c :: cs).length := scaleDraw_lt _ (Nat.zero_lt_succ _)
    refine Or.inr ⟨hi, ?_⟩
    have hrun : pickChild (c :: cs) s =
        ⟨(c :: cs)[s.nextPick (c :: cs).length]?, s.drawn, []⟩ := rfl
    rw [hrun, List.getElem?_eq_getElem hi]

/-- The visit is an update of the child from some stage on: nobody else is asked, the child's answer
is the answer, and what leaves share is left as the child leaves it. -/
structure Visit.Defers (v : Visit H) (c : NodeId) (start : Stage H) : Prop where
  answers : v.answers = [(c, v.status)]
  status : v.status = (v.ask c start).answer
  shared : v.play.stage.shared = (v.ask c start).stage.shared

namespace Visit

variable {v : Visit H}

theorem defers (h : v.opening.answer.pinned? = some c) : v.Defers c v.opening.stage := by
  obtain ⟨cs, hkind⟩ := NodeKind.pinned?_eq_some h
  have hdeciding : v.deciding = ⟨((v.ask c v.opening.stage).answer, .randomChoice cs (some c)),
      (v.ask c v.opening.stage).stage, (v.ask c v.opening.stage).trace ++ []⟩ := by
    rw [deciding, hkind]
    rfl
  have hshape : v.opening.answer.shape = v.node.kind.shape :=
    congrArg NodeType.shape (v.node.begin_alike v.context _ v.stage).1
  have hcontrol : v.node.kind.shape ≠ .noChildren := by
    rw [← hshape, hkind]
    nofun
  have hstatus : v.status = (v.ask c v.opening.stage).answer := by rw [status_eq, hdeciding]
  refine ⟨?_, hstatus, ?_⟩
  · rw [answers_eq, hdeciding, List.append_nil, ask_answers, hstatus]
  · rw [(left_of_control hcontrol).2, hdeciding]

/-- An entry draws one word and picks a child with it, and the visit is left to that child. -/
theorem defers_of_entry {picked : Option NodeId} (kind : v.node.kind = .randomChoice cs picked)
    (hidle : v.node.running = false) (hsome : cs ≠ []) :
    ∃ hi : v.stage.nextPick cs.length < cs.length,
      v.opening.answer.pinned? = some cs[v.stage.nextPick cs.length] ∧
        v.Defers cs[v.stage.nextPick cs.length] v.stage.drawn := by
  obtain ⟨hi, hrun⟩ := (pickChild_run cs v.stage).resolve_left fun h => hsome h.1
  have hopening : v.opening =
      ⟨.randomChoice cs (some cs[v.stage.nextPick cs.length]), v.stage.drawn,
        .entered v.node.id :: ([] ++ [])⟩ := by
    rw [opening_of_idle hidle, kind]
    simp [NodeKind.enter, hrun]
  have hpinned : v.opening.answer.pinned? = some cs[v.stage.nextPick cs.length] := by
    rw [hopening]
    rfl
  have hstage : v.opening.stage = v.stage.drawn := by rw [hopening]
  exact ⟨hi, hpinned, hstage ▸ defers hpinned⟩

/-- Without children an entry draws nothing, and the visit fails. -/
theorem fails_of_entry {picked : Option NodeId} (kind : v.node.kind = .randomChoice [] picked)
    (hidle : v.node.running = false) :
    v.status = .fail ∧ v.answers = [] ∧ v.play.stage.shared = v.stage.shared := by
  have hdeciding : v.deciding = ⟨(.fail, .randomChoice [] none), v.stage, []⟩ := by
    have hopening : v.opening = ⟨.randomChoice [] none, v.stage,
        [.entered v.node.id, .warning .choiceWithoutChildren]⟩ := by
      rw [opening_of_idle hidle, kind]
      rfl
    rw [deciding, hopening]
    rfl
  have hcontrol : v.node.kind.shape ≠ .noChildren := by
    rw [kind]
    nofun
  refine ⟨?_, ?_, ?_⟩
  · rw [status_eq, hdeciding]
  · rw [answers_eq, hdeciding]
    rfl
  · rw [(left_of_control hcontrol).2, hdeciding]

/-- What is pinned stays pinned for as long as the node runs, whatever becomes of its children. -/
theorem defers_along {rest : List (Visit H)} (hchain : (v :: rest).IsChain Continues)
    (hrunning : ∀ w ∈ rest, w.node.running) (h : v.opening.answer.pinned? = some c) :
    ∀ w ∈ rest, w.Defers c w.stage := by
  induction rest generalizing v with
  | nil => exact fun _ hw => absurd hw List.not_mem_nil
  | cons w rest ih =>
    obtain ⟨hnext, hchain'⟩ := List.isChain_cons_cons.mp hchain
    obtain ⟨hw, hrest⟩ := List.forall_mem_cons.mp hrunning
    have hpinned : w.opening.answer.pinned? = some c := by
      obtain ⟨ds, hedited⟩ := (hnext hw).kind
      rw [opening_of_running hw, hedited, NodeKind.setLinks_pinned?, v.left_gathered.2, h]
    have hstage : w.opening.stage = w.stage := by rw [opening_of_running hw]
    exact List.forall_mem_cons.mpr ⟨hstage ▸ defers hpinned, ih hchain' hrest hpinned⟩

end Visit

/-- After its entry a run finds the node running. -/
theorem RunsOn.running {v : Visit H} {rest : List (Visit H)} (h : RunsOn (v :: rest) status) :
    ∀ w ∈ rest, w.node.running := by
  generalize hrun : v :: rest = run at h
  induction h generalizing v rest with
  | ends _ =>
    obtain ⟨rfl, rfl⟩ := List.cons.inj hrun
    exact fun _ hw => absurd hw List.not_mem_nil
  | goes _ found _ ih =>
    obtain ⟨rfl, rfl⟩ := List.cons.inj hrun
    exact List.forall_mem_cons.mpr ⟨found, ih rfl⟩

/-- A run whose first update does not answer `running` has no second one. -/
theorem RunsOn.eq_single {v : Visit H} {rest : List (Visit H)} (h : RunsOn (v :: rest) status)
    (hstatus : v.status ≠ .running) : rest = [] ∧ status = v.status := by
  cases h with
  | ends _ => exact ⟨rfl, rfl⟩
  | goes running _ _ => exact absurd running hstatus

/-! ### Words that are drawn -/

/-- The stream after some words have been drawn. -/
def SplitMix64.skip (g : SplitMix64) (draws : Nat) : SplitMix64 := (fun g => g.next32.2)^[draws] g

theorem SplitMix64.skip_skip (g : SplitMix64) (m n : Nat) : (g.skip m).skip n = g.skip (m+n) := by
  rw [skip, skip, skip, Nat.add_comm, Function.iterate_add_apply]

/-- A random choice that has children begins a run. -/
def TraceItem.draws (nodes : List (Node H)) : TraceItem H → Bool
  | .entered id => (profileIn nodes id).any fun p => p.type = .randomChoice && !p.links.isEmpty
  | _ => false

/-- How often a random choice that has children begins a run. -/
def Trace.draws (nodes : List (Node H)) (τ : Trace H) : Nat := τ.countP (·.draws nodes)

namespace Trace

variable {nodes nodes' : List (Node H)}

theorem draws_append (nodes : List (Node H)) (τ τ' : Trace H) :
    draws nodes (τ ++ τ') = draws nodes τ + draws nodes τ' := List.countP_append

theorem draws_congr (h : ∀ id, profileIn nodes' id = profileIn nodes id) (τ : Trace H) :
    draws nodes' τ = draws nodes τ := by
  have hitem : (TraceItem.draws nodes' : TraceItem H → Bool) = TraceItem.draws nodes := by
    funext i
    cases i with
    | entered id => rw [TraceItem.draws, TraceItem.draws, h]
    | asked _ _ | answered _ _ _ | called _ _ | note _ | event _ | warning _ => rfl
  rw [draws, draws, hitem]

theorem draws_eq_zero {τ : Trace H} (h : ∀ id, .entered id ∉ τ) : draws nodes τ = 0 := by
  refine List.countP_eq_zero.mpr fun i hi => ?_
  cases i with
  | entered id => exact absurd hi (h id)
  | asked _ _ | answered _ _ _ | called _ _ | note _ | event _ | warning _ =>
    exact Bool.false_ne_true

end Trace

/-- Leaves that draw nothing, and turn into no others than such. -/
structure Host.Drawless (H : Host) (A : H.Action → Prop) (C : H.Condition → Prop) : Prop where
  enter : ∀ context a s, A a →
    A (H.enter context a s).leaf ∧ (H.enter context a s).shared.rng = s.rng
  update : ∀ context a s, A a →
    A (H.update context a s).leaf ∧ (H.update context a s).shared.rng = s.rng
  exit : ∀ context a s, A a →
    A (H.exit context a s).leaf ∧ (H.exit context a s).shared.rng = s.rng
  check : ∀ context c s, C c →
    C (H.check context c s).leaf ∧ (H.check context c s).shared.rng = s.rng

section Draws

variable {A : H.Action → Prop} {C : H.Condition → Prop}

/-- The kind is that of a control node, or of one of these leaves. -/
def NodeKind.LeafOf (A : H.Action → Prop) (C : H.Condition → Prop) : NodeKind H → Prop
  | action a => A a
  | condition c => C c
  | root _ | repeater _ | sequence _ | selector _ | parallel _ | randomChoice _ _ => True

namespace NodeKind

theorem leafOf_of_control {k : NodeKind H} (h : k.shape ≠ .noChildren) : k.LeafOf A C := by
  cases k with
  | action _ | condition _ => exact absurd rfl h
  | root _ | repeater _ | sequence _ | selector _ | parallel _ | randomChoice _ _ => trivial

theorem LeafOf.setLinks {k : NodeKind H} (h : k.LeafOf A C) (cs : List NodeId) :
    (k.setLinks cs).LeafOf A C := by
  cases k <;> exact h

end NodeKind

/-- The leaves are such, no node becomes another, and a word is drawn whenever a random choice that
has children begins a run. -/
structure Drawn (A : H.Action → Prop) (C : H.Condition → Prop) (s : Stage H) (τ : Trace H)
    (s' : Stage H) : Prop where
  leaves : ∀ n ∈ s'.nodes, n.kind.LeafOf A C
  profiles : ∀ id, profileIn s'.nodes id = profileIn s.nodes id
  rng : s'.shared.rng = s.shared.rng.skip (τ.draws s.nodes)

theorem Drawn.append {s s' s'' : Stage H} {τ τ' : Trace H} (h : Drawn A C s τ s')
    (h' : Drawn A C s' τ' s'') : Drawn A C s (τ ++ τ') s'' := by
  refine ⟨h'.leaves, fun id => (h'.profiles id).trans (h.profiles id), ?_⟩
  rw [h'.rng, h.rng, SplitMix64.skip_skip, Trace.draws_congr h.profiles, Trace.draws_append]

theorem Drawn.of_nodes {s s' : Stage H} {τ : Trace H} (h : ∀ n ∈ s.nodes, n.kind.LeafOf A C)
    (hnodes : s'.nodes = s.nodes) (hrng : s'.shared.rng = s.shared.rng.skip (τ.draws s.nodes)) :
    Drawn A C s τ s' := ⟨hnodes ▸ h, fun id => by rw [hnodes], hrng⟩

/-- Where no run begins nothing is drawn. -/
theorem Drawn.of_same {s s' : Stage H} {τ : Trace H} (h : ∀ n ∈ s.nodes, n.kind.LeafOf A C)
    (hnodes : s'.nodes = s.nodes) (hrng : s'.shared.rng = s.shared.rng)
    (hnone : ∀ id, .entered id ∉ τ) : Drawn A C s τ s' := by
  refine .of_nodes h hnodes ?_
  rw [Trace.draws_eq_zero hnone, hrng]
  rfl

/-- So it is on the way through the computation, and its answers have a property. -/
def DrawsTo {α : Type} (A : H.Action → Prop) (C : H.Condition → Prop) (Q : α → Prop)
    (m : Ticking H α) : Prop :=
  ∀ s, (∀ n ∈ s.nodes, n.kind.LeafOf A C) → Drawn A C s (m s).trace (m s).stage ∧ Q (m s).answer

variable {α β : Type} {Q : α → Prop} {R : β → Prop} {context : LeafContext}

theorem drawsTo_pure {a : α} (ha : Q a) : DrawsTo A C Q (pure a : Ticking H α) :=
  fun _ h => ⟨.of_same h rfl rfl (by simp), ha⟩

theorem drawsTo_bind {m : Ticking H α} {f : α → Ticking H β} (hm : DrawsTo A C Q m)
    (hf : ∀ a, Q a → DrawsTo A C R (f a)) : DrawsTo A C R (m >>= f) := by
  intro s h
  obtain ⟨hfirst, ha⟩ := hm s h
  obtain ⟨hrest, hb⟩ := hf _ ha (m s).stage hfirst.leaves
  exact ⟨hfirst.append hrest, hb⟩

theorem drawsTo_compositional :
    Compositional (H := H) fun _ m _ => DrawsTo A C (fun _ => True) m :=
  ⟨fun hm hf => drawsTo_bind hm fun a _ => hf a, fun _ => drawsTo_pure trivial,
    fun _ _ h => ⟨.of_same h rfl rfl (by simp), trivial⟩⟩

theorem drawsTo_leaf {Leaf : Type} {L : Leaf → Prop} (node : NodeId) (hook : α → LeafHook)
    {call : H.Shared → LeafStep Leaf H.Shared H.Note α}
    (hcall : ∀ s, L (call s).leaf ∧ (call s).shared.rng = s.rng) :
    DrawsTo A C (fun r : α × Leaf => L r.2) (leaf node hook call) :=
  fun s h => ⟨.of_same h rfl (hcall s.shared).2 (by simp [leaf]), (hcall s.shared).1⟩

theorem drawsTo_announce (e : StatusEvent) (own : List H.Observer) :
    DrawsTo A C (fun _ => True) (announce e own) := by
  intro s h
  obtain ⟨hnodes, -, behind, htrace, hbehind⟩ := announce_hear e own s
  have hrng := congrArg Shared.rng (announce_shared e own s)
  refine ⟨.of_same h hnodes hrng fun id hid => ?_, trivial⟩
  rw [htrace] at hid
  exact hbehind _ ((List.mem_cons.mp hid).resolve_left nofun)

theorem drawsTo_settle (hhost : H.Drawless A C) (status : Status) {k : NodeKind H}
    (hk : k.LeafOf A C) : DrawsTo A C (·.LeafOf A C) (k.settle context status) := by
  unfold NodeKind.settle
  split
  · cases k with
    | action a =>
      exact drawsTo_bind (drawsTo_leaf _ _ fun s => hhost.exit context a s hk) fun _ ha =>
        drawsTo_pure ha
    | root _ | condition _ | repeater _ | sequence _ | selector _ | parallel _
    | randomChoice _ _ => exact drawsTo_pure hk
  · exact drawsTo_pure hk

/-- A leaf is called and draws nothing, and a control node asks. -/
theorem drawsTo_update (hhost : H.Drawless A C) (context : LeafContext)
    {ask : NodeId → Ticking H Status} (hask : ∀ c, DrawsTo A C (fun _ => True) (ask c))
    {k : NodeKind H} (hk : k.LeafOf A C) :
    DrawsTo A C (fun r => r.2.LeafOf A C) (k.update context ask) := by
  have hcontrol (hshape : k.shape ≠ .noChildren) :
      DrawsTo A C (fun r => r.2.LeafOf A C) (k.update context ask) := by
    have hall : DrawsTo A C (fun _ => True) (k.update context ask) :=
      @NodeKind.updateControl_congr H (fun _ m _ => DrawsTo A C (fun _ => True) m) ask ask context
        drawsTo_compositional k (fun c _ => hask c) hshape
    intro s h
    have hkept : (k.update context ask s).answer.2.shape = k.shape :=
      congrArg NodeType.shape (k.update_alike context ask s).1
    exact ⟨(hall s h).1, NodeKind.leafOf_of_control (hkept ▸ hshape)⟩
  cases k with
  | action a =>
    exact drawsTo_bind (drawsTo_leaf _ _ fun s => hhost.update context a s hk) fun _ ha =>
      drawsTo_pure ha
  | condition c =>
    exact drawsTo_bind (drawsTo_leaf _ _ fun s => hhost.check context c s hk) fun _ hc =>
      drawsTo_pure hc
  | root _ | repeater _ | sequence _ | selector _ | parallel _ | randomChoice _ _ =>
    exact hcontrol nofun

/-- Only random choices draw when they are entered. -/
theorem drawsTo_enter (hhost : H.Drawless A C) (context : LeafContext)
    (flagged : NodeId → Bool) {k : NodeKind H} (hk : k.LeafOf A C)
    (hkind : k.nodeType ≠ .randomChoice) :
    DrawsTo A C (·.LeafOf A C) (k.enter context flagged) := by
  cases k with
  | randomChoice _ _ => exact absurd rfl hkind
  | action a =>
    exact drawsTo_bind (drawsTo_leaf _ _ fun s => hhost.enter context a s hk) fun _ ha =>
      drawsTo_pure ha
  | root _ | condition _ | repeater _ | sequence _ | selector _ | parallel _ =>
    exact drawsTo_pure hk

theorem NodeKind.eq_randomChoice {k : NodeKind H} (h : k.nodeType = .randomChoice) :
    ∃ picked, k = .randomChoice k.links picked := by
  cases k with
  | randomChoice cs picked => exact ⟨picked, rfl⟩
  | root _ | action _ | condition _ | repeater _ | sequence _ | selector _ | parallel _ => cases h

/-- And these draw one word, if they have children. -/
theorem NodeKind.enter_choice (cs : List NodeId) (picked : Option NodeId) (context : LeafContext)
    (flagged : NodeId → Bool) (s : Stage H) :
    ∃ picked' τ, (NodeKind.randomChoice cs picked).enter context flagged s =
      ⟨.randomChoice cs picked', if cs.isEmpty then s else s.drawn, τ⟩ ∧ ∀ id, .entered id ∉ τ := by
  rcases pickChild_run cs s with ⟨rfl, hpick⟩ | ⟨hi, hpick⟩
  · exact ⟨none, [.warning .choiceWithoutChildren], by simp [NodeKind.enter, hpick], by simp⟩
  · have hsome : cs.isEmpty = false := by
      cases cs with
      | nil => exact absurd hi (Nat.not_lt_zero _)
      | cons _ _ => rfl
    exact ⟨some cs[s.nextPick cs.length], [], by simp [NodeKind.enter, hpick, hsome], by simp⟩

/-- To begin a run takes one word if the node is a random choice that has children, and none
otherwise. -/
theorem drawn_begin (hhost : H.Drawless A C) (context : LeafContext) {s : Stage H} {n : Node H}
    (h : ∀ n ∈ s.nodes, n.kind.LeafOf A C) (hprofile : profileIn s.nodes n.id = some n.profile)
    (hn : n.kind.LeafOf A C) (flagged : Stage H → NodeId → Bool) :
    Drawn A C s (n.begin context flagged s).trace (n.begin context flagged s).stage ∧
      (n.begin context flagged s).answer.LeafOf A C := by
  cases hrunning : n.running with
  | true =>
    have hrun : n.begin context flagged s = ⟨n.kind, s, []⟩ := by simp [Node.begin, hrunning]
    rw [hrun]
    exact ⟨.of_same h rfl rfl (by simp), hn⟩
  | false =>
    let p := n.kind.enter context (flagged s) s
    have hrun : n.begin context flagged s = ⟨p.answer, p.stage, .entered n.id :: p.trace⟩ := by
      simp [Node.begin, hrunning, p]
    have hitem : TraceItem.draws (H := H) s.nodes (.entered n.id) =
        (n.nodeType = .randomChoice && !n.links.isEmpty) := by
      rw [TraceItem.draws, hprofile]
      rfl
    rw [hrun]
    by_cases htype : n.nodeType = .randomChoice
    · obtain ⟨picked, hkind⟩ := NodeKind.eq_randomChoice htype
      obtain ⟨picked', τ, hchoice, hnone⟩ :=
        NodeKind.enter_choice n.links picked context (flagged s) s
      have hp : p = ⟨.randomChoice n.links picked', if n.links.isEmpty then s else s.drawn, τ⟩ :=
        (congrArg (NodeKind.enter context (flagged s) · s) hkind).trans hchoice
      have hzero : τ.draws s.nodes = 0 := Trace.draws_eq_zero hnone
      rw [hp]
      refine ⟨.of_nodes h ?_ ?_, trivial⟩
      · dsimp only
        split
        · rfl
        · exact s.drawn_nodes
      · rw [Trace.draws, List.countP_cons, hitem, htype]
        change _ = s.shared.rng.skip (τ.draws s.nodes + _)
        rw [hzero]
        cases n.links.isEmpty <;> rfl
    · -- The entry of another kind draws nothing, nor does what it calls.
      obtain ⟨⟨hleaves, hprofiles, hrng⟩, hanswer⟩ :=
        drawsTo_enter hhost context (flagged s) hn htype s h
      refine ⟨⟨hleaves, hprofiles, ?_⟩, hanswer⟩
      rw [Trace.draws, List.countP_cons_of_neg (by simp [hitem, htype])]
      exact hrng

/-- So it is in an update of a node that is found, if it is so in those that it asks for. -/
theorem drawn_stepUpdate (hhost : H.Drawless A C) (frame : TickContext) {path : List NodeId}
    {s : Stage H} {n : Node H} {ask : NodeId → Ticking H Status}
    (h : ∀ n ∈ s.nodes, n.kind.LeafOf A C) (hfind : s.find? path n.id = some n)
    (hask : ∀ c, DrawsTo A C (fun _ => True) (ask c)) :
    let q := stepUpdate frame path ask n s
    Drawn A C s q.trace q.stage ∧ q.answer.2.kind.LeafOf A C := by
  intro q
  let context : LeafContext := ⟨frame, n.id, n.owner⟩
  let begun := n.begin context (fun s c => s.isGuard (n.id :: path) c) s
  obtain ⟨hbegun, hkind⟩ := drawn_begin hhost context h (profileIn_of_find? hfind)
    (h n (find?_some hfind).1) (fun s c => s.isGuard (n.id :: path) c)
  let finish (r : Status × NodeKind H) : Ticking H (Status × Node H) := do
    let observers ← announce ⟨frame.tick, n.id, n.guid, r.1⟩ n.observers
    let kind ← r.2.settle context r.1
    pure (r.1, { n with kind, observers, running := r.1.isRunning })
  have hfinish (r : Status × NodeKind H) (hr : r.2.LeafOf A C) :
      DrawsTo A C (fun r => r.2.kind.LeafOf A C) (finish r) :=
    drawsTo_bind (drawsTo_announce _ _) fun _ _ =>
      drawsTo_bind (drawsTo_settle hhost r.1 hr) fun _ hk => drawsTo_pure hk
  obtain ⟨hrest, hleft⟩ := drawsTo_bind (drawsTo_update hhost context hask hkind)
    hfinish begun.stage hbegun.leaves
  exact ⟨hbegun.append hrest, hleft⟩

theorem updateNode_drawn (hhost : H.Drawless A C) (frame : TickContext) (depth : Nat)
    (path : List NodeId) (id : NodeId) :
    DrawsTo A C (fun _ => True) (updateNode (H := H) frame depth path id) := by
  have hkeeps : Keeps (fun s τ s' => (∀ n ∈ s.nodes, n.kind.LeafOf A C) → Drawn A C s τ s')
      (updateNode (H := H) frame depth path id) := by
    apply updateNode_induct
      (R := fun _ s τ s' => (∀ n ∈ s.nodes, n.kind.LeafOf A C) → Drawn A C s τ s')
    · exact fun path id s h => .of_same h rfl rfl (by simp [refusal])
    · intro path id s n ask hfind hask h
      obtain ⟨-, rfl, -⟩ := find?_some hfind
      obtain ⟨hbelow, hleft⟩ := drawn_stepUpdate hhost frame h hfind
        fun c s h => ⟨hask c s h, trivial⟩
      rw [updateStep_some frame ask hfind]
      refine ⟨fun m hm => ?_, stepUpdate_profileIn hfind hbelow.profiles, ?_⟩
      · obtain ⟨m', hm', rfl⟩ := List.mem_map.mp hm
        split
        · exact hleft
        · exact hbelow.leaves m' hm'
      · -- Neither the question nor the answer is an entry.
        refine hbelow.rng.trans (congrArg _ ?_)
        simp [Trace.draws, TraceItem.draws]
  exact fun s h => ⟨hkeeps s h, trivial⟩

/-! ### Histories -/

/-- The leaves of the tree are such, and so are those that its registry makes. -/
structure Tree.LeavesOf (A : H.Action → Prop) (C : H.Condition → Prop) (t : Tree H) : Prop where
  nodes : ∀ n ∈ t.nodes, n.kind.LeafOf A C
  registered : ∀ name k, t.registry.create? name = some k → k.LeafOf A C

/-- The operation starts the random stream anew. -/
def Operation.Reseeds : Operation H → Prop
  | .setOwner _ | .setSeed _ => True
  | _ => False

/-- How often a random choice that has children begins a run while things are done to its tree. -/
def Session.draws (s : Session H) : List (Operation H) → Nat
  | [] => 0
  | op :: ops => (s.step op).2.draws s.tree.nodes + (s.step op).1.draws ops

namespace Session

variable {s s' : Session H} {op : Operation H} {τ : Trace H}

/-- No edit draws from the stream. -/
theorem step_rng (htick : ∀ frame, op ≠ .tick frame) (hop : ¬ op.Reseeds) :
    (s.step op).1.tree.rng = s.tree.rng := by
  by_cases hnodes : op.OfNodes
  · obtain ⟨nodes, root, hrenewed⟩ := s.step_renewed hnodes
    rw [hrenewed]
  · cases op with
    | tick frame => exact absurd rfl (htick frame)
    | setOwner _ | setSeed _ => exact absurd trivial hop
    | subscribeAll _ | editBlackboard _ | elsewhere _ _ _ => rfl
    | _ => exact absurd trivial hnodes

theorem tick_drawn (hhost : H.Drawless A C) (h : s.tree.LeavesOf A C) (frame : TickContext) :
    Drawn A C (s.tree.stage s.world s.audience) (s.step (.tick frame)).2
      (updateNode frame s.tree.size [] s.tree.root (s.tree.stage s.world s.audience)).stage :=
  (updateNode_drawn hhost frame s.tree.size [] s.tree.root _ h.nodes).1

/-- Edits bring in such leaves as are made or given. -/
theorem Effect.leavesOf (he : s.Effect op s' τ) (h : s.tree.LeavesOf A C)
    (htick : ∀ frame, ∀ n ∈ (s.step (.tick frame)).1.tree.nodes, n.kind.LeafOf A C)
    (hadd : ∀ k, op = .add k → k.LeafOf A C) : s'.tree.LeavesOf A C := by
  refine ⟨?_, he.registry ▸ h.registered⟩
  have hroot {n : Node H} (htype : n.nodeType = .root) : n.kind.LeafOf A C := by
    have hshape : n.kind.shape = .oneChild := congrArg NodeType.shape htype
    refine NodeKind.leafOf_of_control ?_
    rw [hshape]
    nofun
  cases he with
  | tick frame => exact htick frame
  | touch touches _ =>
    obtain ⟨f, hnodes, hf⟩ := touches.nodes
    rw [hnodes]
    intro m hm
    obtain ⟨n, hn, rfl⟩ := List.mem_map.mp hm
    obtain ⟨cs, hkind⟩ := (hf n).kind
    exact hkind ▸ (h.nodes n hn).setLinks cs
  | insert n _ _ made tree _ =>
    rw [tree]
    intro m hm
    rcases Tree.mem_of_insert hm with rfl | hold
    · cases made with
      | create _ registered => exact h.registered _ _ registered
      | add _ given => exact given ▸ hadd _ rfl
    · exact h.nodes m hold
  | delete id tree _ =>
    have hrest : ∀ m ∈ (s.tree.without id).nodes, m.kind.LeafOf A C :=
      fun m hm => h.nodes m (List.mem_filter.mp hm).1
    rw [tree]
    rcases (s.tree.without id).ensureRoot_spec s.supply with
      ⟨-, hrun⟩ | ⟨root, -, -, htype, -, -, hrun⟩
    · rw [hrun]
      exact hrest
    · rw [hrun]
      intro m hm
      rcases Tree.mem_of_insert hm with rfl | hold
      · exact hroot htype
      · exact hrest m hold

/-- Where leaves draw nothing, a word is drawn whenever a random choice that has children begins a
run, and at no other time. -/
theorem run_draws (hhost : H.Drawless A C) {ops : List (Operation H)} (h : s.tree.LeavesOf A C)
    (hops : ∀ op ∈ ops, ¬ op.Reseeds ∧ ∀ k, op = .add k → k.LeafOf A C) :
    (s.run ops).1.tree.rng = s.tree.rng.skip (s.draws ops) := by
  induction ops generalizing s with
  | nil => rfl
  | cons op ops ih =>
    obtain ⟨⟨hreseeds, hadd⟩, hlater⟩ := List.forall_mem_cons.mp hops
    have hfirst : (s.step op).1.tree.rng = s.tree.rng.skip ((s.step op).2.draws s.tree.nodes) := by
      by_cases htick : ∀ frame, op ≠ .tick frame
      · have hsilent : (s.step op).2 = [] := by
          cases op with
          | tick frame => exact absurd rfl (htick frame)
          | _ => rfl
        rw [hsilent, step_rng htick hreseeds]
        rfl
      · obtain ⟨frame, rfl⟩ : ∃ frame, op = .tick frame := by simpa using htick
        exact (tick_drawn hhost h frame).rng
    have hleaves : (s.step op).1.tree.LeavesOf A C :=
      (s.step_effect op).leavesOf h (fun frame => (tick_drawn hhost h frame).leaves) hadd
    have hrest := ih hleaves hlater
    calc (s.run (op :: ops)).1.tree.rng
      _ = (s.step op).1.tree.rng.skip ((s.step op).1.draws ops) := hrest
      _ = s.tree.rng.skip (s.draws (op :: ops)) := by
        rw [hfirst, SplitMix64.skip_skip]
        rfl

end Session

end Draws

/-- A random choice draws once in a run and stays with what it has drawn. Whatever is done to its
tree and its children on the way, a run from its entry to its end draws one word when it begins,
picks with it a child of the list that there is then, and hands every update on to that child, with
the child's answer for its own; if there are no children the run draws nothing and is a single
failure. And in a tree whose leaves draw nothing, what is done to it moves the stream on by one word
for each time that a random choice with children begins a run, as long as it is not started anew. -/
theorem random_choices_draw_once :
    (∀ (s : Session H) ops id before v rest after status cs picked,
      s.Followed id ops (before ++ (v :: rest) ++ after) → WholeRun (v :: rest) status →
      v.node.kind = .randomChoice cs picked →
        (∀ w ∈ v :: rest, w.whole.answer = w.status) ∧
        (cs = [] → rest = [] ∧ status = .fail ∧ v.answers = [] ∧
          v.play.stage.shared = v.stage.shared) ∧
        (cs ≠ [] → ∃ hi : v.stage.nextPick cs.length < cs.length,
          v.Defers cs[v.stage.nextPick cs.length] v.stage.drawn ∧
            ∀ w ∈ rest, w.Defers cs[v.stage.nextPick cs.length] w.stage)) ∧
    ∀ (A : H.Action → Prop) (C : H.Condition → Prop) (s : Session H) ops, H.Drawless A C →
      s.tree.LeavesOf A C →
      (∀ op ∈ ops, ¬ op.Reseeds ∧ ∀ k, op = .add k → k.LeafOf A C) →
        (s.run ops).1.tree.rng = s.tree.rng.skip (s.draws ops) := by
  refine ⟨?_, fun A C s ops hhost h hops => Session.run_draws hhost h hops⟩
  intro s ops id before v rest after status cs picked followed whole kind
  have hidle : v.node.running = false := whole.entered v rfl
  refine ⟨fun w hw => ?_, ?_, fun hsome => ?_⟩
  · have hfound : w.Found :=
      (followed.found w (List.mem_append_left after (List.mem_append_right before hw))).2
    exact congrArg Play.answer (Visit.whole_eq hfound)
  · rintro rfl
    obtain ⟨hstatus, hanswers, hshared⟩ := Visit.fails_of_entry kind hidle
    obtain ⟨hrest, hend⟩ := whole.goes.eq_single (hstatus ▸ nofun)
    exact ⟨hrest, hend.trans hstatus, hanswers, hshared⟩
  · obtain ⟨hi, hpinned, hfirst⟩ := Visit.defers_of_entry kind hidle hsome
    obtain ⟨hchain, -⟩ := followed.continues
    obtain ⟨hbefore, -, -⟩ := List.isChain_append.mp hchain
    obtain ⟨-, hrun, -⟩ := List.isChain_append.mp hbefore
    exact ⟨hi, hfirst, Visit.defers_along hrun whole.goes.running hpinned⟩

/-- A choice between two waits. -/
def Demo.crossing : Session Demo.smallHost where
  tree := { tangle with
    nodes := [.make (.ofNat 1) "Root" (.root (some (.ofNat 2))),
      .make (.ofNat 2) "RandomChoice" (.randomChoice [.ofNat 3, .ofNat 4] none),
      .make (.ofNat 3) "Wait" (.action (Demo.Action.wait 1 1)),
      .make (.ofNat 4) "Wait" (.action (Demo.Action.wait 1 1))] }
  supply := counted
  world := (⟨∅⟩ : TeamBoards)
  audience := (⟨∅⟩ : Recordings)

/-- Of the ready-made leaves only reports draw. -/
theorem Demo.drawless :
    smallHost.Drawless (fun a : Demo.Action => ∀ team, a ≠ .report team) fun _ => True := by
  refine ⟨fun context a s ha => ?_, fun context a s ha => ?_, fun _ _ _ ha => ⟨ha, rfl⟩,
    fun context c s _ => ⟨trivial, ?_⟩⟩
  · cases a with
    | report team => exact absurd rfl (ha team)
    | succeed | fail | wait _ _ => exact ⟨nofun, rfl⟩
  · cases a with
    | report team => exact absurd rfl (ha team)
    | succeed | fail => exact ⟨nofun, rfl⟩
    | wait ticks remaining =>
      change (∀ team, (Demo.Action.update context (.wait ticks remaining) s).leaf ≠ .report team) ∧
        (Demo.Action.update context (.wait ticks remaining) s).shared.rng = s.rng
      by_cases hover : remaining = 0
      · simp [Demo.Action.update, quiet, hover]
      · simp [Demo.Action.update, quiet, hover]
  · change (Condition.check flagsOnly context c s).shared.rng = s.rng
    cases c with
    | toggle =>
      simp only [Condition.check]
      split <;> rfl

/-- The wait that is picked is taken from the list while it runs, and is updated all the same. The
next run begins with the second word, and has but one child to pick. -/
theorem random_choices_draw_once_crossing :
    let ops : List (Operation Demo.smallHost) :=
      [.tick ⟨0, 0, 0⟩, .detach (.ofNat 2) (.ofNat 3), .tick ⟨1, 0, 0⟩, .tick ⟨2, 0, 0⟩]
    (∃ v w rest, Demo.crossing.Followed (.ofNat 2) ops ([v, w] ++ rest) ∧
      WholeRun [v, w] .success ∧ v.node.links = [.ofNat 3, .ofNat 4] ∧
      w.node.links = [.ofNat 4] ∧ v.Defers (.ofNat 3) v.stage.drawn ∧
      w.Defers (.ofNat 3) w.stage) ∧
    (Demo.crossing.run ops).1.tree.rng = Demo.crossing.tree.rng.skip 2 := by
  intro ops
  obtain ⟨hpins, hdraws⟩ := random_choices_draw_once (H := Demo.smallHost)
  refine ⟨?_, ?_⟩
  · obtain ⟨vs, hall⟩ := Demo.crossing.exists_followed (.ofNat 2) ops
    obtain ⟨_, rest, rfl, hfirst, hrest⟩ := hall.of_tick
    cases hrest with | edit _ hrest =>
    obtain ⟨_, rest, rfl, hsecond, hrest⟩ := hrest.of_tick
    obtain ⟨v, rfl, hrunning, hanswers, hnode, -⟩ :=
      hfirst.single (show _ = [Status.running] by decide +kernel)
    obtain ⟨w, rfl, hsuccess, -, hnode', -⟩ :=
      hsecond.single (show _ = [Status.success] by decide +kernel)
    have hv : Node.make (.ofNat 2) "RandomChoice" (.randomChoice [.ofNat 3, .ofNat 4] none) =
        v.node := Option.some.inj hnode
    have hkind : v.node.kind = .randomChoice [.ofNat 3, .ofNat 4] none := hv ▸ rfl
    have goesOn {before : Option (Node Demo.smallHost)} (hnode : before = some w.node)
        (hbefore : before.map (fun n => (n.running, n.links)) = some (true, [.ofNat 4])) :
        w.node.running = true ∧ w.node.links = [.ofNat 4] := by
      subst hnode
      exact Prod.mk.inj (Option.some.inj hbefore)
    obtain ⟨hgoes, hlinks⟩ := goesOn hnode' (by decide +kernel)
    have hwhole : WholeRun [v, w] .success := by
      refine ⟨fun u hu => Option.some.inj hu ▸ hv ▸ rfl, .goes hrunning hgoes ?_⟩
      exact hsuccess ▸ .ends (hsuccess ▸ rfl)
    obtain ⟨-, -, hsome⟩ := hpins Demo.crossing ops (.ofNat 2) [] v [w] rest .success _ none hall
      hwhole hkind
    obtain ⟨hi, hdefers, hrest⟩ := hsome (List.cons_ne_nil _ _)
    -- Which of the two it is can be told from its answer.
    have hpick : [NodeId.ofNat 3, .ofNat 4][v.stage.nextPick 2] = .ofNat 3 := by
      have hsame := hdefers.answers.symm.trans (hanswers.trans
        (show _ = [(NodeId.ofNat 3, Status.running)] by decide +kernel))
      exact congrArg Prod.fst (List.cons.inj hsame).1
    have hdefers' := hrest w List.mem_cons_self
    change v.Defers [NodeId.ofNat 3, .ofNat 4][v.stage.nextPick 2] _ at hdefers
    change w.Defers [NodeId.ofNat 3, .ofNat 4][v.stage.nextPick 2] _ at hdefers'
    rw [hpick] at hdefers hdefers'
    exact ⟨v, w, rest, hall, hwhole, congrArg NodeKind.links hkind, hlinks, hdefers, hdefers'⟩
  · have hleaves : Demo.crossing.tree.LeavesOf (fun a : Demo.Action => ∀ team, a ≠ .report team)
        fun _ => True := by
      refine ⟨?_, fun name k hk => ?_⟩
      · simp [Demo.crossing, Node.make, NodeKind.LeafOf]
      · have hmem := (Registry.create?_builtin hk).1
        simp only [Registry.builtinKinds, List.mem_cons, List.not_mem_nil, or_false] at hmem
        rcases hmem with rfl | rfl | rfl | rfl | rfl <;> trivial
    have hops : ∀ op ∈ ops, ¬ op.Reseeds ∧ ∀ k, op = .add k →
        k.LeafOf (H := Demo.smallHost) (fun a : Demo.Action => ∀ team, a ≠ .report team)
          fun _ => True := by
      simp [ops, Operation.Reseeds]
    have hcount : Demo.crossing.draws ops = 2 := by decide +kernel
    exact hcount ▸ hdraws _ _ Demo.crossing ops Demo.drawless hleaves hops

end BehaviourTree
