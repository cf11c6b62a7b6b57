import BehaviourTree.Proofs.Observers
import BehaviourTree.Proofs.Reload
import BehaviourTree.Proofs.Tallies

/-!
A recorder that listens to the tree of one agent of a simulation: of the root it records what that
tree answers.
-/

namespace BehaviourTree

variable {H : Host}

/-! ### Ticks tell of the root -/

namespace Tree

/-- The root is authored under `g`, and no other node is. -/
structure RootKnownAs (t : Tree H) (g : NodeId) : Prop where
  root : t.guid? t.root = some g
  only : ∀ id, t.guid? id = some g → id = t.root

variable {t : Tree H} {g : NodeId}

/-- Of a root that is known there is one event in a tick, with the status that the tree has then. -/
theorem RootKnownAs.tick (h : t.RootKnownAs g) (frame : TickContext) (world : H.World)
    (audience : H.Audience) :
    let r := t.tick frame world audience
    r.tree.RootKnownAs g ∧
      r.trace.events.filter (·.guid = g) = [⟨frame.tick, t.root, g, r.tree.status⟩] := by
  intro r
  obtain ⟨n, hn, hguid⟩ := Option.map_eq_some_iff.mp h.root
  obtain ⟨hmem, hid⟩ := node?_some hn
  obtain ⟨depth, hdepth⟩ : ∃ depth, t.size = depth+1 :=
    Nat.exists_eq_add_one_of_ne_zero (Nat.ne_of_gt (List.length_pos_of_mem hmem))
  let s := t.stage world audience
  let p := updateNode frame t.size [] t.root s
  have hfind : s.find? [] n.id = some n := by
    rw [Stage.find?_eq_node? List.not_mem_nil, hid]
    exact hn
  obtain ⟨⟨caused, hdialogue, hothers⟩, htells⟩ :=
    updateStep_tells hfind (updateNode_tells frame depth [n.id])
  have hrun : p = updateStep frame [] n.id (updateNode frame depth [n.id]) s := by
    change updateNode frame t.size [] t.root s = _
    rw [hdepth, ← hid]
    rfl
  rw [← hrun] at hdialogue htells
  rw [hid] at hdialogue hothers
  rw [hguid] at hdialogue
  refine ⟨⟨?_, fun id hg => ?_⟩, ?_⟩
  · exact (htells.guids t.root).trans h.root
  · exact h.only id ((htells.guids id).symm.trans hg)
  · have hevents : r.trace.events = caused.postOrder ++ [⟨frame.tick, t.root, g, r.tree.status⟩] :=
      hdialogue.events
    -- An event of the same authored identity would be of the root.
    have hnone : caused.postOrder.filter (·.guid = g) = [] := by
      apply List.filter_eq_nil_iff.mpr
      intro e he hsame
      have hmem : e ∈ p.trace.events := by
        rw [hdialogue.events]
        exact List.mem_append_left _ he
      obtain ⟨-, hnode, -⟩ := htells.events e hmem
      rw [of_decide_eq_true hsame] at hnode
      exact hothers e he (h.only e.node hnode)
    rw [hevents, List.filter_append, hnone, List.nil_append, List.filter_cons_of_pos (by simp)]
    rfl

end Tree

/-! ### Observers of the whole tree -/

/-- Observers never turn into others. -/
def Host.Steadfast (H : Host) : Prop := ∀ e o a, (H.notify e o a).observer = o

/-- What observers in a row have outside of them after events that all of them hear. -/
def broadcast (everyone : List H.Observer) (es : List StatusEvent) (audience : H.Audience) :
    H.Audience := es.foldl (fun a e => (hearAll e everyone a).2) audience

theorem hearAll_steadfast (hH : H.Steadfast) (e : StatusEvent) (os : List H.Observer)
    (a : H.Audience) : (hearAll e os a).1 = os := by
  induction os generalizing a with
  | nil => rfl
  | cons o os ih =>
    change (H.notify e o a).observer :: _ = _
    rw [hH, ih]

namespace Ears

/-- Nobody sits with a node. -/
def ofEveryone (everyone : List H.Observer) (audience : H.Audience) : Ears H :=
  ⟨fun scope => if scope.isNone then everyone else [], audience⟩

theorem ofEveryone_hear (hH : H.Steadfast) (everyone : List H.Observer) (a : H.Audience)
    (e : StatusEvent) :
    (ofEveryone everyone a).hear e = ofEveryone everyone (hearAll e everyone a).2 := by
  have htree := (ofEveryone everyone a).hear_tree e
  have haudience : ((ofEveryone everyone a).hear e).audience = (hearAll e everyone a).2 :=
    congrArg Prod.snd htree
  have hseated : ((ofEveryone everyone a).hear e).seated = (ofEveryone everyone a).seated := by
    funext scope
    cases scope with
    | none =>
      calc ((ofEveryone everyone a).hear e).seated none
        _ = (hearAll e everyone a).1 := congrArg Prod.fst htree
        _ = everyone := hearAll_steadfast hH e everyone a
    | some id =>
      by_cases hnode : e.node = id
      · rw [← hnode, hear_node]
        rfl
      · exact (ofEveryone everyone a).hear_other hnode
  exact congrArg₂ Ears.mk hseated haudience

theorem ofEveryone_after (hH : H.Steadfast) (everyone : List H.Observer) (a : H.Audience)
    (es : List StatusEvent) :
    (ofEveryone everyone a).after es = ofEveryone everyone (broadcast everyone es a) := by
  induction es generalizing a with
  | nil => rfl
  | cons e es ih =>
    calc (ofEveryone everyone a).after (e :: es)
      _ = ((ofEveryone everyone a).hear e).after es := rfl
      _ = (ofEveryone everyone (hearAll e everyone a).2).after es := by rw [ofEveryone_hear hH]
      _ = ofEveryone everyone (broadcast everyone (e :: es) a) := ih _

end Ears

/-- Those who listen to a tree listen to all of it. -/
def Tree.HeardBy (t : Tree H) (everyone : List H.Observer) : Prop :=
  ∀ audience, t.ears audience = .ofEveryone everyone audience

theorem Tree.HeardBy.tick {t : Tree H} {everyone : List H.Observer} (hH : H.Steadfast)
    (h : t.HeardBy everyone) (frame : TickContext) (world : H.World) (audience : H.Audience) :
    let r := t.tick frame world audience
    r.tree.HeardBy everyone ∧ r.audience = broadcast everyone r.trace.events audience := by
  intro r
  let q := t.unheard.tick frame world audience
  have ho := t.tick_overheard frame world audience audience
  have hevents : r.trace.events = q.trace.events := by
    obtain ⟨hevents, -⟩ := (t.ears audience).voice_spec ho.quiet
    rw [← hevents]
    exact congrArg Trace.events ho.trace
  have hears : r.tree.ears r.audience =
      .ofEveryone everyone (broadcast everyone r.trace.events audience) := by
    calc r.tree.ears r.audience
      _ = (t.ears audience).after q.trace.events := ho.ears
      _ = (Ears.ofEveryone everyone audience).after r.trace.events := by rw [h audience, hevents]
      _ = _ := Ears.ofEveryone_after hH everyone audience _
  refine ⟨fun a => ?_, congrArg Ears.audience hears⟩
  have hseated := congrArg Ears.seated hears
  exact congrArg (Ears.mk · a) hseated

/-! ### Recorders -/

section Recorders

variable {o : H.Observer} {log : H.Audience → TraceLog} {rest : List H.Observer}

theorem hearAll_log (hrec : Ears.Records o log) (ho : o ∉ rest) (e : StatusEvent)
    (a : H.Audience) : log (hearAll e rest a).2 = log a := by
  induction rest generalizing a with
  | nil => rfl
  | cons o' rest ih =>
    rw [List.mem_cons, not_or] at ho
    obtain ⟨hne, hrest⟩ := ho
    calc log (hearAll e (o' :: rest) a).2
      _ = log (hearAll e rest (H.notify e o' a).audience).2 := rfl
      _ = log (H.notify e o' a).audience := ih hrest _
      _ = log a := (hrec.others e o' a (Ne.symm hne)).2

/-- A log is left alone where its recorder does not listen. -/
theorem broadcast_log (hrec : Ears.Records o log) (ho : o ∉ rest) (es : List StatusEvent)
    (a : H.Audience) : log (broadcast rest es a) = log a := by
  induction es generalizing a with
  | nil => rfl
  | cons e es ih => exact (ih _).trans (hearAll_log hrec ho e a)

/-- A recorder writes all that it hears to its log. -/
theorem broadcast_log_cons (hrec : Ears.Records o log) (ho : o ∉ rest) (es : List StatusEvent)
    (a : H.Audience) : (log (broadcast (o :: rest) es a)).events = (log a).events ++ es := by
  induction es generalizing a with
  | nil => exact (List.append_nil _).symm
  | cons e es ih =>
    -- The recorder hears it first, and the others leave its log alone.
    have hwritten : log (hearAll e (o :: rest) a).2 = (log a).push e :=
      (hearAll_log hrec ho e _).trans (hrec.writes e a).2
    calc (log (broadcast (o :: rest) (e :: es) a)).events
      _ = (log (hearAll e (o :: rest) a).2).events ++ es := ih _
      _ = (log a).events ++ e :: es := by
        rw [hwritten]
        simp [TraceLog.events, TraceLog.push]

end Recorders

/-! ### Simulations -/

/-- What a log has of an authored node: on which frames it was updated, and how that ended. -/
def TraceLog.recordsOf (guid : NodeId) (l : TraceLog) : List (UInt64 × Status) :=
  (l.events.filter (·.guid = guid)).map fun e => (e.tick, e.status)

theorem TraceLog.recordsOf_append {guid : NodeId} {l l' : TraceLog} {es : List StatusEvent}
    (h : l'.events = l.events ++ es) : l'.recordsOf guid =
      l.recordsOf guid ++ (es.filter (·.guid = guid)).map fun e => (e.tick, e.status) := by
  rw [recordsOf, h, List.filter_append, List.map_append]
  rfl

/-- The recorder `o` listens to the tree of the first agent, whose root is known as `g`, and to that
of no other. -/
structure Agent.Wired (o : H.Observer) (g : NodeId) (a : Agent H) : Prop where
  first : a.handle = .nth 0 → ∀ t, a.tree = some t →
    t.RootKnownAs g ∧ ∃ rest, o ∉ rest ∧ t.HeardBy (o :: rest)
  others : a.handle ≠ .nth 0 → ∀ t, a.tree = some t → ∃ everyone, o ∉ everyone ∧ t.HeardBy everyone

section Wired

variable {o : H.Observer} {g : NodeId} {log : H.Audience → TraceLog} {frame : TickContext}

/-- In a turn the first agent's tree has its answer recorded, and those of others do not. -/
theorem Agent.Wired.turn (hH : H.Steadfast) (hrec : Ears.Records o log) {a : Agent H}
    {world : H.World} {audience : H.Audience} {r : AgentTicked H} (h : a.Wired o g)
    (hturn : a.tick frame world audience = .ok r) :
    r.agent.Wired o g ∧ (log r.audience).recordsOf g =
      (log audience).recordsOf g ++ answersOf (.nth 0) (r.reply? frame).toList := by
  cases takes_of_tick hturn with
  | rests => exact ⟨h, (List.append_nil _).symm⟩
  | @thinks t q _ _ htree hq =>
    by_cases hfirst : a.handle = .nth 0
    -- The recorder hears the whole tick, in which there is one event of the root.
    · obtain ⟨hroot, rest, ho, hheard⟩ := h.first hfirst t htree
      obtain ⟨hroot', hevent⟩ := hroot.tick frame world audience
      obtain ⟨hheard', haudience⟩ := hheard.tick hH frame world audience
      rw [hq] at hroot' hevent hheard' haudience
      refine ⟨⟨fun _ t ht => ?_, fun hother => absurd hfirst hother⟩, ?_⟩
      · obtain rfl := Option.some.inj ht
        exact ⟨hroot', rest, ho, hheard'⟩
      · change (log q.audience).recordsOf g = _
        rw [TraceLog.recordsOf_append (haudience ▸ broadcast_log_cons hrec ho _ _), hevent]
        simp [AgentTicked.reply?, answersOf, hfirst]
    -- The recorder does not listen to this tree.
    · obtain ⟨everyone, ho, hheard⟩ := h.others hfirst t htree
      obtain ⟨hheard', haudience⟩ := hheard.tick hH frame world audience
      rw [hq] at hheard' haudience
      refine ⟨⟨fun hsame => absurd hsame hfirst, fun _ t ht => ?_⟩, ?_⟩
      · obtain rfl := Option.some.inj ht
        exact ⟨everyone, ho, hheard'⟩
      · have hlog : log q.audience = log audience := by
          rw [haudience]
          exact broadcast_log hrec ho _ _
        change (log q.audience).recordsOf g = _
        rw [hlog]
        simp [AgentTicked.reply?, answersOf, hfirst]

theorem TakeTurns.recorded (hH : H.Steadfast) (hrec : Ears.Records o log) {agents : List (Agent H)}
    {x y : H.World × H.Audience} {rs : List (AgentTicked H)} (h : TakeTurns frame agents x rs y)
    (hwired : ∀ a ∈ agents, a.Wired o g) :
    (∀ r ∈ rs, r.agent.Wired o g) ∧ (log y.2).recordsOf g =
      (log x.2).recordsOf g ++ answersOf (.nth 0) (rs.filterMap (·.reply? frame)) := by
  induction h with
  | nil => exact ⟨by simp, (List.append_nil _).symm⟩
  | @cons a later world audience r rs y hturn _ ih =>
    obtain ⟨ha, hlater⟩ := List.forall_mem_cons.mp hwired
    obtain ⟨hr, hown⟩ := ha.turn hH hrec hturn
    obtain ⟨hrs, hrest⟩ := ih hlater
    refine ⟨List.forall_mem_cons.mpr ⟨hr, hrs⟩, ?_⟩
    have hreplies : (r :: rs).filterMap (·.reply? frame) =
        (r.reply? frame).toList ++ rs.filterMap (·.reply? frame) := by
      cases hreply : r.reply? frame with
      | none => exact List.filterMap_cons_none hreply
      | some reply => exact List.filterMap_cons_some hreply
    rw [hrest, hown, hreplies, answersOf_append, List.append_assoc]

end Wired

end BehaviourTree
