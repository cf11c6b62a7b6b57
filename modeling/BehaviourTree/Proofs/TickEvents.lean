import BehaviourTree.Proofs.Links
import BehaviourTree.Proofs.TickSafety

/-!
The events of a tick. Every update ends in one, after those of the updates that it has caused, and
what has none is left as it was.
-/

namespace BehaviourTree

open Ticking

variable {H : Host} {α β : Type}

/-! ### Updates within updates -/

/-- What a node writes before its event, beside what it asks: it does not leave its run yet. -/
def TraceItem.Ahead (id : NodeId) : TraceItem H → Prop
  | .entered node => node = id
  | .called node hook => node = id ∧ hook ≠ .exit
  | .note _ => True
  | .warning w => ∀ child, w ≠ .unresolved child
  | .asked _ _ | .answered _ _ _ | .event _ => False

/-- What is written between the event of a node and its answer. -/
def TraceItem.Behind (id : NodeId) : TraceItem H → Prop
  | .called node hook => node = id ∧ hook = .exit
  | .note _ => True
  | .warning w => w = .observerPanicked id
  | .asked _ _ | .answered _ _ _ | .entered _ | .event _ => False

/-- Updates in a row, each with those that it causes and the event that tells of it. -/
inductive Visits where
  | none
  | visit (caused : Visits) (e : StatusEvent) (later : Visits)

namespace Visits

def append : Visits → Visits → Visits
  | none, visits => visits
  | visit caused e later, visits => visit caused e (later.append visits)

/-- The events of updates, of each one after those of the updates that it causes. -/
def postOrder : Visits → List StatusEvent
  | none => []
  | visit caused e later => caused.postOrder ++ e :: later.postOrder

end Visits

/-- A trace is that of the updates that `caller` asks for, and of what it writes by itself ahead of
its own event. A question that leads nowhere is no update. An update asks for others before its
event; after it, it leaves its run and answers with the status that the event tells. -/
inductive Dialogue : Option NodeId → Trace H → Visits → Prop where
  | nil {caller : Option NodeId} : Dialogue caller [] .none
  | own {id : NodeId} {i : TraceItem H} {τ : Trace H} {visits : Visits} (ahead : i.Ahead id)
      (rest : Dialogue (some id) τ visits) : Dialogue (some id) (i :: τ) visits
  | refused {caller : Option NodeId} {id : NodeId} {τ : Trace H} {visits : Visits}
      (rest : Dialogue caller τ visits) :
      Dialogue caller (.asked caller id :: .warning (.unresolved id) ::
        .answered caller id .fail :: τ) visits
  | update {caller : Option NodeId} {e : StatusEvent} {ahead behind τ : Trace H}
      {caused later : Visits} (causes : Dialogue (some e.node) ahead caused)
      (settles : ∀ i ∈ behind, i.Behind e.node) (rest : Dialogue caller τ later) :
      Dialogue caller (.asked caller e.node :: (ahead ++ .event e :: (behind ++
        .answered caller e.node e.status :: τ))) (.visit caused e later)

namespace Trace

theorem events_append (τ τ' : Trace H) : events (τ ++ τ') = events τ ++ events τ' :=
  List.filterMap_append

theorem events_eq_nil {τ : Trace H} (h : ∀ e, .event e ∉ τ) : events τ = [] := by
  refine List.filterMap_eq_nil_iff.mpr fun i hi => ?_
  cases i with
  | event e => exact absurd hi (h e)
  | asked _ _ | answered _ _ _ | entered _ | called _ _ | note _ | warning _ => rfl

theorem events_ahead {id : NodeId} {τ : Trace H} (h : ∀ i ∈ τ, i.Ahead id) : events τ = [] :=
  events_eq_nil fun e he => h (.event e) he

/-- One update, and nothing else. -/
theorem events_update {caller : Option NodeId} {e : StatusEvent} {ahead behind τ : Trace H}
    (hbehind : ∀ i ∈ behind, i.Behind e.node) :
    events (.asked caller e.node :: (ahead ++ .event e :: (behind ++
      .answered caller e.node e.status :: τ))) = events ahead ++ e :: events τ := by
  have hnone : events behind = [] := events_eq_nil fun e he => hbehind (.event e) he
  calc events (.asked caller e.node :: (ahead ++ .event e :: (behind ++
          .answered caller e.node e.status :: τ)))
    _ = events ahead ++ e :: events (behind ++ .answered caller e.node e.status :: τ) :=
      events_append ahead _
    _ = events ahead ++ e :: (events behind ++ events τ) := by rw [events_append behind]; rfl
    _ = events ahead ++ e :: events τ := by rw [hnone, List.nil_append]

end Trace

namespace Dialogue

variable {caller : Option NodeId} {τ τ' : Trace H} {visits visits' : Visits}

theorem append (h : Dialogue caller τ visits) (h' : Dialogue caller τ' visits') :
    Dialogue caller (τ ++ τ') (visits.append visits') := by
  induction h with
  | nil => exact h'
  | own ahead _ ih => exact .own ahead (ih h')
  | refused _ ih => exact .refused (ih h')
  | update causes settles _ _ ih =>
    rw [List.cons_append, List.append_assoc, List.cons_append, List.append_assoc, List.cons_append]
    exact .update causes settles (ih h')

theorem of_ahead {id : NodeId} (h : ∀ i ∈ τ, i.Ahead id) : Dialogue (some id) τ .none := by
  induction τ with
  | nil => exact .nil
  | cons i τ ih =>
    obtain ⟨hi, hτ⟩ := List.forall_mem_cons.mp h
    exact .own hi (ih hτ)

/-- The events come in the order in which the updates end. -/
theorem events (h : Dialogue caller τ visits) : τ.events = visits.postOrder := by
  induction h with
  | nil => rfl
  | @own _ i _ _ ahead _ ih =>
    have hnone : Trace.events [i] = [] :=
      Trace.events_ahead fun j hj => (List.mem_singleton.mp hj) ▸ ahead
    rw [← List.singleton_append, Trace.events_append, hnone, List.nil_append, ih]
  | refused _ ih => exact ih
  | update _ settles _ hcaused hlater =>
    rw [Trace.events_update settles, hcaused, hlater]
    rfl

end Dialogue

/-! ### Hearing -/

/-- Observers hear an event in turn. -/
def hearAll (e : StatusEvent) : List H.Observer → H.Audience → List H.Observer × H.Audience
  | [], a => ([], a)
  | o :: os, a =>
    let r := H.notify e o a
    let (os, a) := hearAll e os r.audience
    (r.observer :: os, a)

/-- Observers and their audience after events in a row: of each event everyone hears once, and ahead
of them the observers that the node has for itself. -/
inductive Heard : List StatusEvent → List H.Observer × H.Audience →
    List H.Observer × H.Audience → Prop where
  | nil (x : List H.Observer × H.Audience) : Heard [] x x
  | event {e : StatusEvent} {es : List StatusEvent} {everyone : List H.Observer} {a : H.Audience}
      {x : List H.Observer × H.Audience} (own : List H.Observer)
      (rest : Heard es (hearAll e everyone (hearAll e own a).2) x) : Heard (e :: es) (everyone, a) x

theorem Heard.append {es es' : List StatusEvent} {x y z : List H.Observer × H.Audience}
    (h : Heard es x y) (h' : Heard es' y z) : Heard (es ++ es') x z := by
  induction h with
  | nil => exact h'
  | event own _ ih => exact .event own (ih h')

theorem tellAll_hear (e : StatusEvent) (os : List H.Observer) (s : Stage H) :
    (tellAll e os s).answer = (hearAll e os s.audience).1 ∧
      (tellAll e os s).stage = { s with audience := (hearAll e os s.audience).2 } ∧
      ∀ i ∈ (tellAll e os s).trace, i.Behind e.node := by
  induction os generalizing s with
  | nil => exact ⟨rfl, rfl, fun _ hi => absurd hi List.not_mem_nil⟩
  | cons o os ih =>
    obtain ⟨hanswer, hstage, htrace⟩ := ih (tell e o s).stage
    have htell : ∀ i ∈ (tell e o s).trace, i.Behind e.node := by
      intro i hi
      rcases List.mem_append.mp hi with hnote | hpanic
      · obtain ⟨note, -, rfl⟩ := List.mem_map.mp hnote
        trivial
      · split at hpanic
        · obtain rfl := List.mem_singleton.mp hpanic
          rfl
        · exact absurd hpanic List.not_mem_nil
    refine ⟨congrArg (List.cons _) hanswer, hstage, fun i hi => ?_⟩
    rcases List.mem_append.mp hi with hi | hi
    · exact htell i hi
    · rcases List.mem_append.mp hi with hi | hi
      · exact htrace i hi
      · exact absurd hi List.not_mem_nil

theorem announce_hear (e : StatusEvent) (own : List H.Observer) (s : Stage H) :
    (announce e own s).stage.nodes = s.nodes ∧
      ((announce e own s).stage.observers, (announce e own s).stage.audience) =
        hearAll e s.observers (hearAll e own s.audience).2 ∧
      ∃ behind, (announce e own s).trace = .event e :: behind ∧ ∀ i ∈ behind, i.Behind e.node := by
  let told := tellAll e own s
  let toldAll := tellAll e told.stage.observers told.stage
  obtain ⟨-, hstage, htrace⟩ := tellAll_hear e own s
  obtain ⟨hanswer', hstage', htrace'⟩ := tellAll_hear e told.stage.observers told.stage
  have hrun : announce e own s = ⟨told.answer, { toldAll.stage with observers := toldAll.answer },
      .event e :: (told.trace ++ (toldAll.trace ++ []))⟩ := by
    simp [announce, told, toldAll]
  rw [hrun]
  refine ⟨?_, ?_, told.trace ++ (toldAll.trace ++ []), rfl, fun i hi => ?_⟩
  · change toldAll.stage.nodes = s.nodes
    rw [hstage']
    change told.stage.nodes = s.nodes
    rw [hstage]
  · change (toldAll.answer, toldAll.stage.audience) = _
    rw [hanswer', hstage']
    change hearAll e told.stage.observers told.stage.audience = _
    rw [hstage]
  · rw [List.append_nil] at hi
    exact (List.mem_append.mp hi).elim (htrace i) (htrace' i)

/-! ### What a node writes by itself -/

theorem Stage.setRng_observers (s : Stage H) (rng : SplitMix64) :
    (s.setRng rng).observers = s.observers := rfl

theorem Stage.setRng_audience (s : Stage H) (rng : SplitMix64) :
    (s.setRng rng).audience = s.audience := rfl

/-- The computation touches neither nodes nor observers, and writes only what has the property. -/
def Writes (P : TraceItem H → Prop) (m : Ticking H α) : Prop :=
  ∀ s, (m s).stage.nodes = s.nodes ∧ (m s).stage.observers = s.observers ∧
    (m s).stage.audience = s.audience ∧ ∀ i ∈ (m s).trace, P i

section Writes

variable {P : TraceItem H → Prop}

theorem writes_pure (a : α) : Writes P (pure a) :=
  fun _ => ⟨rfl, rfl, rfl, fun _ hi => absurd hi List.not_mem_nil⟩

theorem writes_stage : Writes P stage :=
  fun _ => ⟨rfl, rfl, rfl, fun _ hi => absurd hi List.not_mem_nil⟩

theorem writes_draw32 : Writes P (draw32 : Ticking H UInt32) := by
  intro s
  exact ⟨s.setRng_nodes _, s.setRng_observers _, s.setRng_audience _, by simp⟩

theorem writes_emit {i : TraceItem H} (hi : P i) : Writes P (emit i) :=
  fun _ => ⟨rfl, rfl, rfl, fun _ hmem => List.mem_singleton.mp hmem ▸ hi⟩

theorem writes_bind {m : Ticking H α} {f : α → Ticking H β} (hm : Writes P m)
    (hf : ∀ a, Writes P (f a)) : Writes P (m >>= f) := by
  intro s
  obtain ⟨hnodes, hobservers, haudience, htrace⟩ := hm s
  obtain ⟨hnodes', hobservers', haudience', htrace'⟩ := hf (m s).answer (m s).stage
  refine ⟨hnodes'.trans hnodes, hobservers'.trans hobservers, haudience'.trans haudience, ?_⟩
  intro i hi
  exact (List.mem_append.mp hi).elim (htrace i) (htrace' i)

theorem writes_leaf {Leaf : Type} {id : NodeId} {hook : α → LeafHook}
    (hcalled : ∀ a, P (.called id (hook a))) (hnote : ∀ note, P (.note note))
    (call : H.Shared → LeafStep Leaf H.Shared H.Note α) : Writes P (leaf id hook call) := by
  intro s
  refine ⟨rfl, rfl, rfl, fun i hi => ?_⟩
  rcases List.mem_cons.mp hi with rfl | hi
  · exact hcalled _
  · obtain ⟨note, -, rfl⟩ := List.mem_map.mp hi
    exact hnote note

end Writes

theorem NodeKind.enter_writes (context : LeafContext) (flagged : NodeId → Bool) (k : NodeKind H) :
    Writes (TraceItem.Ahead context.node) (k.enter context flagged) := by
  have hcompositional : Compositional (H := H)
      fun _ m _ => Writes (TraceItem.Ahead context.node) m :=
    ⟨writes_bind, writes_pure, fun hw => writes_emit hw.resolved⟩
  exact @enter_congr H (fun _ m _ => Writes (TraceItem.Ahead context.node) m) context
    hcompositional writes_draw32 (fun _ => writes_leaf (fun _ => ⟨rfl, nofun⟩) (fun _ => trivial) _)
    flagged k

theorem Node.begin_writes {context : LeafContext} (n : Node H) (hid : context.node = n.id)
    (flagged : Stage H → NodeId → Bool) :
    Writes (TraceItem.Ahead n.id) (n.begin context flagged) := by
  unfold Node.begin
  split
  · exact writes_pure _
  · refine writes_bind (writes_emit rfl) fun _ => writes_bind writes_stage fun s => ?_
    exact hid ▸ n.kind.enter_writes context (flagged s)

theorem NodeKind.settle_writes (context : LeafContext) (status : Status) (k : NodeKind H) :
    Writes (TraceItem.Behind context.node) (k.settle context status) := by
  unfold settle
  split
  · cases k with
    | action a =>
      exact writes_bind (writes_leaf (fun _ => ⟨rfl, rfl⟩) (fun _ => trivial) _)
        fun _ => writes_pure _
    | root _ | condition _ | repeater _ | sequence _ | selector _ | parallel _
    | randomChoice _ _ => exact writes_pure _
  · exact writes_pure k

/-! ### Updates tell what they do -/

/-- The authored identity of a node on a stage. -/
def Stage.guid? (s : Stage H) (id : NodeId) : Option NodeId := (s.node? id).map (·.guid)

/-- What happens on the way, below the updates of the nodes on the path, are updates of other nodes.
Each is told of by an event to all observers, and what is not told of is as it was. -/
structure Tells (frame : TickContext) (path : List NodeId) (s : Stage H) (τ : Trace H)
    (s' : Stage H) : Prop where
  dialogue : ∃ visits, Dialogue path.head? τ visits
  events : ∀ e ∈ τ.events,
    e.tick = frame.tick ∧ s.guid? e.node = some e.guid ∧ e.node ∉ path
  guids : ∀ id, s'.guid? id = s.guid? id
  heard : Heard τ.events (s.observers, s.audience) (s'.observers, s'.audience)
  others : ∀ id, (∀ e ∈ τ.events, e.node ≠ id) → s'.node? id = s.node? id

section Tells

variable {frame : TickContext} {path : List NodeId} {id : NodeId} {s s' s'' : Stage H}
  {τ τ' : Trace H} {ask : NodeId → Ticking H Status}

theorem Tells.append (h : Tells frame path s τ s') (h' : Tells frame path s' τ' s'') :
    Tells frame path s (τ ++ τ') s'' := by
  obtain ⟨visits, hdialogue⟩ := h.dialogue
  obtain ⟨visits', hdialogue'⟩ := h'.dialogue
  refine ⟨⟨_, hdialogue.append hdialogue'⟩, ?_, fun id => (h'.guids id).trans (h.guids id), ?_, ?_⟩
  · intro e he
    rw [Trace.events_append] at he
    rcases List.mem_append.mp he with he | he
    · exact h.events e he
    · obtain ⟨htick, hguid, hpath⟩ := h'.events e he
      exact ⟨htick, (h.guids e.node).symm.trans hguid, hpath⟩
  · rw [Trace.events_append]
    exact h.heard.append h'.heard
  · intro id hid
    rw [Trace.events_append, List.forall_mem_append] at hid
    exact (h'.others id hid.2).trans (h.others id hid.1)

theorem Tells.of_ahead (hnodes : s'.nodes = s.nodes) (hobservers : s'.observers = s.observers)
    (haudience : s'.audience = s.audience) (hahead : ∀ i ∈ τ, i.Ahead id) :
    Tells frame (id :: path) s τ s' := by
  have hnone : τ.events = [] := Trace.events_ahead hahead
  refine ⟨⟨.none, .of_ahead hahead⟩, fun e he => ?_, fun id => ?_, ?_, fun id _ => ?_⟩
  · rw [hnone] at he
    exact absurd he List.not_mem_nil
  · rw [Stage.guid?, Stage.guid?, Stage.node?_of_nodes hnodes]
  · rw [hnone, hobservers, haudience]
    exact .nil _
  · exact Stage.node?_of_nodes hnodes id

theorem Tells.of_writes {m : Ticking H α} (h : Writes (TraceItem.Ahead id) m) :
    Keeps (Tells frame (id :: path)) m := by
  intro s
  obtain ⟨hnodes, hobservers, haudience, htrace⟩ := h s
  exact .of_ahead hnodes hobservers haudience htrace

theorem tells_compositional (frame : TickContext) (path : List NodeId) (id : NodeId) :
    Compositional (H := H) fun _ m _ => Keeps (Tells frame (id :: path)) m := by
  refine ⟨?_, ?_, ?_⟩
  · intro _ _ m _ f _ hm hf s
    exact (hm s).append (hf (m s).answer (m s).stage)
  · exact fun a => .of_writes (writes_pure a)
  · exact fun hw => .of_writes (writes_emit hw.resolved)

theorem NodeKind.update_tells {context : LeafContext} (hid : context.node = id)
    (hask : ∀ c, Keeps (Tells frame (id :: path)) (ask c)) (k : NodeKind H) :
    Keeps (Tells frame (id :: path)) (k.update context ask) := by
  have hcontrol (hk : k.shape ≠ .noChildren) :
      Keeps (Tells frame (id :: path)) (k.update context ask) :=
    @updateControl_congr H (fun _ m _ => Keeps (Tells frame (id :: path)) m) ask ask context
      (tells_compositional frame path id) k (fun c _ => hask c) hk
  subst hid
  cases k with
  | action a =>
    exact .of_writes (writes_bind (writes_leaf (fun _ => ⟨rfl, nofun⟩) (fun _ => trivial) _)
      fun _ => writes_pure _)
  | condition c =>
    exact .of_writes (writes_bind (writes_leaf (fun _ => ⟨rfl, nofun⟩) (fun _ => trivial) _)
      fun _ => writes_pure _)
  | root _ | repeater _ | sequence _ | selector _ | parallel _ | randomChoice _ _ =>
    exact hcontrol nofun

/-- Up to its event an update asks and writes by itself, and behind it the run is left. -/
theorem Node.update_tells (flagged : Stage H → NodeId → Bool) (n : Node H)
    (hask : ∀ c, Keeps (Tells frame (n.id :: path)) (ask c)) (s : Stage H) :
    let p := n.update frame flagged ask s
    let e : StatusEvent := ⟨frame.tick, n.id, n.guid, p.answer.1⟩
    ∃ ahead s₁ behind own, p.trace = ahead ++ .event e :: behind ∧
      Tells frame (n.id :: path) s ahead s₁ ∧ (∀ i ∈ behind, i.Behind n.id) ∧
      p.stage.nodes = s₁.nodes ∧ (p.stage.observers, p.stage.audience) =
        hearAll e s₁.observers (hearAll e own s₁.audience).2 := by
  -- The four phases of an update.
  let context : LeafContext := ⟨frame, n.id, n.owner⟩
  let begun := n.begin context flagged s
  let updated := begun.answer.update context ask begun.stage
  let status := updated.answer.1
  let e : StatusEvent := ⟨frame.tick, n.id, n.guid, status⟩
  let announced := announce e n.observers updated.stage
  let settled := updated.answer.2.settle context status announced.stage
  have hbegun : Tells frame (n.id :: path) s begun.trace begun.stage :=
    Tells.of_writes (n.begin_writes (rfl : context.node = n.id) flagged) s
  have hupdated : Tells frame (n.id :: path) begun.stage updated.trace updated.stage :=
    begun.answer.update_tells (rfl : context.node = n.id) hask begun.stage
  obtain ⟨hnodes, hheard, behind, htrace, hbehind⟩ := announce_hear e n.observers updated.stage
  obtain ⟨hnodes', hobservers', haudience', hbehind'⟩ :=
    updated.answer.2.settle_writes context status announced.stage
  refine ⟨begun.trace ++ updated.trace, updated.stage, behind ++ settled.trace, n.observers, ?_,
    hbegun.append hupdated, ?_, hnodes'.trans hnodes, ?_⟩
  · change begun.trace ++ (updated.trace ++ (announced.trace ++ (settled.trace ++ []))) = _
    rw [htrace, List.append_nil, List.append_assoc, List.cons_append]
    rfl
  · intro i hi
    exact (List.mem_append.mp hi).elim (hbehind i) (hbehind' i)
  · change (settled.stage.observers, settled.stage.audience) = _
    rw [hobservers', haudience']
    exact hheard

/-- An update that its event tells of, from what has been told ahead of the event. -/
theorem Tells.visit {e : StatusEvent} {ahead behind : Trace H} {s₁ : Stage H} {n : Node H}
    {own : List H.Observer} (h : Tells frame (e.node :: path) s ahead s₁)
    (htick : e.tick = frame.tick) (hguid : s.guid? e.node = some e.guid) (hpath : e.node ∉ path)
    (hbehind : ∀ i ∈ behind, i.Behind e.node) (hkept : n.guid = e.guid)
    (hnodes : ∀ id, s'.node? id = if id = e.node then (s₁.node? id).map fun _ => n else s₁.node? id)
    (hheard : (s'.observers, s'.audience) =
      hearAll e s₁.observers (hearAll e own s₁.audience).2) :
    Tells frame path s (.asked path.head? e.node :: (ahead ++ .event e :: (behind ++
      [.answered path.head? e.node e.status]))) s' := by
  obtain ⟨caused, hcaused⟩ := h.dialogue
  have hevents : Trace.events (.asked path.head? e.node :: (ahead ++ .event e :: (behind ++
      [.answered path.head? e.node e.status]))) = ahead.events ++ [e] :=
    Trace.events_update hbehind
  refine ⟨⟨.visit caused e .none, .update hcaused hbehind .nil⟩, ?_, ?_, ?_, ?_⟩
  · intro e' he'
    rw [hevents] at he'
    rcases List.mem_append.mp he' with he' | he'
    · obtain ⟨htick', hguid', hpath'⟩ := h.events e' he'
      exact ⟨htick', hguid', fun hmem => hpath' (List.mem_cons_of_mem e.node hmem)⟩
    · obtain rfl := List.mem_singleton.mp he'
      exact ⟨htick, hguid, hpath⟩
  · intro id
    rw [← h.guids id, Stage.guid?, hnodes]
    split
    next hid =>
      -- The node is still there to be put back, with the identity that the event tells.
      have hmid : s₁.guid? id = some e.guid := by rw [h.guids, hid, hguid]
      obtain ⟨m, hm, -⟩ := Option.map_eq_some_iff.mp hmid
      rw [hmid, hm, Option.map_some, Option.map_some, hkept]
    next => rfl
  · rw [hevents]
    refine h.heard.append (.event own ?_)
    rw [hheard]
    exact .nil _
  · intro id hother
    rw [hevents, List.forall_mem_append] at hother
    have hne : id ≠ e.node := (hother.2 e (List.mem_singleton_self e)).symm
    rw [hnodes, if_neg hne]
    exact h.others id hother.1

/-- A question that leads to a node is one update of it, which ends in its event. -/
theorem updateStep_tells {n : Node H} (hfind : s.find? path n.id = some n)
    (hask : ∀ c, Keeps (Tells frame (n.id :: path)) (ask c)) :
    let p := updateStep frame path n.id ask s
    let e : StatusEvent := ⟨frame.tick, n.id, n.guid, p.answer⟩
    (∃ caused, Dialogue path.head? p.trace (.visit caused e .none) ∧
      ∀ e' ∈ caused.postOrder, e'.node ≠ n.id) ∧ Tells frame path s p.trace p.stage := by
  intro p e
  let q := stepUpdate frame path ask n s
  have hrun : p = ⟨q.answer.1, q.stage.restore q.answer.2, .asked path.head? n.id :: q.trace ++
      [.answered path.head? n.id q.answer.1]⟩ := updateStep_some frame ask hfind
  have hstatus : p.answer = q.answer.1 := congrArg Play.answer hrun
  obtain ⟨ahead, s₁, behind, own, hwritten, hinner, hbehind, hnodes, hheard⟩ :=
    n.update_tells (fun s c => s.isGuard (n.id :: path) c) hask s
  rw [← hstatus] at hwritten hheard
  have htrace : p.trace = .asked path.head? n.id :: (ahead ++ .event e :: (behind ++
      [.answered path.head? n.id p.answer])) := by
    have hq : q.trace = ahead ++ .event e :: behind := hwritten
    rw [hrun, hq, List.cons_append, List.append_assoc, List.cons_append]
  obtain ⟨-, -, hpath⟩ := find?_some hfind
  have hguid : s.guid? n.id = some n.guid := by
    rw [Stage.guid?, ← Stage.find?_eq_node? hpath, hfind]
    rfl
  have hprofile : q.answer.2.profile = n.profile := n.update_profile frame _ ask s
  have hid : q.answer.2.id = n.id := congrArg Profile.id hprofile
  have hfound (id : NodeId) : p.stage.node? id =
      if id = n.id then (s₁.node? id).map fun _ => q.answer.2 else s₁.node? id := by
    rw [hrun]
    change (q.stage.restore q.answer.2).node? id = _
    rw [Stage.restore_node?, hid, Stage.node?_of_nodes hnodes]
  have hlast : (p.stage.observers, p.stage.audience) =
      hearAll e s₁.observers (hearAll e own s₁.audience).2 := by
    rw [hrun]
    exact hheard
  obtain ⟨caused, hcaused⟩ := hinner.dialogue
  rw [htrace]
  refine ⟨⟨caused, .update (e := e) hcaused hbehind .nil, fun e' he' hsame => ?_⟩, ?_⟩
  · -- What an update causes are updates of nodes that are not in progress.
    rw [← hcaused.events] at he'
    exact (hinner.events e' he').2.2 (hsame ▸ List.mem_cons_self)
  · exact Tells.visit (e := e) hinner rfl hguid hpath hbehind (congrArg Profile.guid hprofile)
      hfound hlast

theorem updateNode_tells (frame : TickContext) (depth : Nat) (path : List NodeId) (id : NodeId) :
    Keeps (Tells frame path) (updateNode (H := H) frame depth path id) := by
  apply updateNode_induct (R := Tells frame)
  · intro path id s
    have hnone : Trace.events (refusal (H := H) path id) = [] := rfl
    refine ⟨⟨.none, .refused .nil⟩, fun e he => ?_, fun _ => rfl, .nil _, fun _ _ => rfl⟩
    rw [hnone] at he
    exact absurd he List.not_mem_nil
  · intro path id s n ask hfind hask
    obtain ⟨-, rfl, -⟩ := find?_some hfind
    exact (updateStep_tells hfind hask).2

end Tells

/-! ### Ticks -/

/-- Whatever the links of a tree are, a tick is one update of its root, which is a node at any time,
with the updates that it causes. The events come in the order in which the updates end, each with
the tick of the frame, with the authored identity of its node, and with the status that the update
answers; every observer of the tree hears each of them once. The last one is the one event of the
root, and its status is that of the tree. A node that no event is about is what it was. -/
theorem tick_events_post_order {t : Tree H} (hlive : t.contains t.root) (frame : TickContext)
    (world : H.World) (audience : H.Audience) :
    let r := t.tick frame world audience
    ∃ caused last, Dialogue none r.trace (.visit caused last .none) ∧
      r.trace.events = caused.postOrder ++ [last] ∧
      last.node = t.root ∧ last.status = r.tree.status ∧
      (∀ e ∈ caused.postOrder, e.node ≠ t.root) ∧
      (∀ e ∈ r.trace.events,
        e.tick = frame.tick ∧ (t.node? e.node).map (·.guid) = some e.guid) ∧
      Heard r.trace.events (t.observers, audience) (r.tree.observers, r.audience) ∧
      ∀ id, (∀ e ∈ r.trace.events, e.node ≠ id) → r.tree.node? id = t.node? id := by
  intro r
  obtain ⟨n, hn⟩ := Option.isSome_iff_exists.mp hlive
  obtain ⟨hmem, hid⟩ := Tree.node?_some hn
  -- There is a node, so there is depth enough for the first update.
  obtain ⟨depth, hdepth⟩ : ∃ depth, t.size = depth+1 :=
    Nat.exists_eq_add_one_of_ne_zero (Nat.ne_of_gt (List.length_pos_of_mem hmem))
  have hfind : (t.stage world audience).find? [] n.id = some n := by
    rw [Stage.find?_eq_node? List.not_mem_nil, hid]
    exact hn
  have hasks : ∀ c, Keeps (Tells frame [n.id]) (updateNode (H := H) frame depth [n.id] c) :=
    updateNode_tells frame depth [n.id]
  obtain ⟨⟨caused, hdialogue, hothers⟩, htells⟩ := updateStep_tells hfind hasks
  have hrun : updateNode frame t.size [] t.root (t.stage world audience) =
      updateStep frame [] n.id (updateNode frame depth [n.id]) (t.stage world audience) := by
    rw [hdepth, ← hid]
    rfl
  rw [← hrun] at hdialogue htells
  rw [hid] at hothers
  refine ⟨caused, _, hdialogue, hdialogue.events, hid, rfl, hothers, fun e he => ?_, htells.heard,
    htells.others⟩
  obtain ⟨htick, hguid, -⟩ := htells.events e he
  exact ⟨htick, hguid⟩

/-- In the tree with every kind of bad link the sequence asks the node below it, which asks back in
vain; the three of them fail one after the other, and a fourth that nobody asks is left alone. -/
theorem tick_events_post_order_tangle :
    let t : Tree Demo.smallHost := { Demo.tangle with
      nodes := Demo.tangle.nodes ++ [.make (.ofNat 4) "Sequence" (.sequence ⟨[], [.ofNat 3], 7⟩)] }
    let r := t.tick ⟨5, 0, 0⟩ .empty .empty
    r.trace.events = [⟨5, .ofNat 3, .ofNat 3, .fail⟩, ⟨5, .ofNat 2, .ofNat 2, .fail⟩,
      ⟨5, .ofNat 1, .ofNat 1, .fail⟩] ∧
    (∃ caused last, Dialogue none r.trace (.visit caused last .none) ∧
      r.trace.events = caused.postOrder ++ [last]) ∧
    r.tree.node? (.ofNat 4) = t.node? (.ofNat 4) := by
  intro t r
  have hevents : r.trace.events = [⟨5, .ofNat 3, .ofNat 3, .fail⟩,
      ⟨5, .ofNat 2, .ofNat 2, .fail⟩, ⟨5, .ofNat 1, .ofNat 1, .fail⟩] := by decide +kernel
  have hlive : t.contains t.root := by decide +kernel
  obtain ⟨caused, last, hdialogue, horder, -, -, -, -, -, hothers⟩ :=
    tick_events_post_order hlive ⟨5, 0, 0⟩ .empty .empty
  refine ⟨hevents, ⟨caused, last, hdialogue, horder⟩, hothers (.ofNat 4) ?_⟩
  change ∀ e ∈ r.trace.events, e.node ≠ .ofNat 4
  rw [hevents]
  decide

end BehaviourTree
