import BehaviourTree.Proofs.Population

/-!
An agent is its tree on a filtered clock: pauses and changes of pace decide which frames reach the
tree, and nothing else.
-/

namespace BehaviourTree

variable {H : Host}

/-! ### Events -/

/-- A frame, with the world and the audience that it finds. -/
structure Offer (H : Host) where
  frame : TickContext
  world : H.World
  audience : H.Audience

/-- What happens to an agent. -/
inductive AgentEvent (H : Host) where
  | offer (o : Offer H)
  | enable
  | disable
  | configure (config : ThinkConfig)

namespace Agent

/-- Only an offer can fail, at a clock that overflows. -/
def meet (a : Agent H) : AgentEvent H → Except ClockOverflow (Agent H)
  | .offer o => (a.tick o.frame o.world o.audience).map (·.agent)
  | .enable => .ok a.enable
  | .disable => .ok a.disable
  | .configure config => .ok { a with config }

/-- An agent behind some events. -/
def after (a : Agent H) : List (AgentEvent H) → Except ClockOverflow (Agent H)
  | [] => .ok a
  | e :: later => a.meet e >>= (·.after later)

end Agent

/-! ### The filter -/

/-- What decides, beside the frames themselves, on which of them an agent thinks. -/
structure AgentControls where
  enabled : Bool
  config : ThinkConfig

namespace AgentControls

def next (c : AgentControls) : AgentEvent H → AgentControls
  | .offer _ => c
  | .enable => { c with enabled := true }
  | .disable => { c with enabled := false }
  | .configure config => { c with config }

def after (c : AgentControls) (events : List (AgentEvent H)) : AgentControls := events.foldl next c

/-- An offer reaches the tree. -/
abbrev Heeds (c : AgentControls) (o : Offer H) : Prop :=
  c.enabled = true ∧ c.config.DueOn o.frame.tick

/-- The clock of an agent that would look at it does not overflow. -/
def Clear (c : AgentControls) (o : Offer H) : Prop :=
  c.enabled = true → o.frame.tick.toNat+c.config.offset.toNat < UInt64.size

/-- So it is at every offer among some events. -/
def AllClear (c : AgentControls) (events : List (AgentEvent H)) : Prop :=
  ∀ before o, before ++ [.offer o] <+: events → (c.after before).Clear o

/-- What one event brings to the tree. -/
def heedsOf (c : AgentControls) : AgentEvent H → List (Offer H)
  | .offer o => if c.Heeds o then [o] else []
  | _ => []

/-- The offers among some events that reach the tree. -/
def heeded (c : AgentControls) : List (AgentEvent H) → List (Offer H)
  | [] => []
  | e :: later => c.heedsOf e ++ (c.next e).heeded later

theorem heeded_append (c : AgentControls) (before later : List (AgentEvent H)) :
    c.heeded (before ++ later) = c.heeded before ++ (c.after before).heeded later := by
  induction before generalizing c with
  | nil => rfl
  | cons e before ih =>
    change c.heedsOf e ++ (c.next e).heeded (before ++ later) = _
    rw [ih]
    exact (List.append_assoc _ _ _).symm

theorem heeded_offer (c : AgentControls) (o : Offer H) :
    c.heeded [.offer o] = if c.Heeds o then [o] else [] :=
  List.append_nil _

theorem AllClear.cons {c : AgentControls} {e : AgentEvent H} {later : List (AgentEvent H)}
    (h : c.AllClear (e :: later)) : c.AllClear [e] ∧ (c.next e).AllClear later := by
  constructor
  · intro before o hbegins
    exact h before o (hbegins.trans (List.prefix_append [e] later))
  · intro before o hbegins
    exact h (e :: before) o (List.cons_prefix_cons.mpr ⟨rfl, hbegins⟩)

/-- An offset has 32 bits, so no clock overflows before the last frames that have a number. -/
theorem allClear_of_early (c : AgentControls) {events : List (AgentEvent H)}
    (h : ∀ o, .offer o ∈ events → o.frame.tick.toNat+UInt32.size ≤ UInt64.size) :
    c.AllClear events := by
  intro before o hbegins _
  have hearly := h o (hbegins.subset (List.mem_append_right _ List.mem_cons_self))
  have hoffset := (c.after before).config.offset.toNat_lt_size
  omega

end AgentControls

/-! ### The copy -/

namespace Tree

/-- A tree that is ticked on every offer of a list. -/
def heed (t : Tree H) (offers : List (Offer H)) : Tree H :=
  offers.foldl (fun t o => (t.tick o.frame o.world o.audience).tree) t

/-- What its ticks answer. -/
def answers (t : Tree H) : List (Offer H) → List Status
  | [] => []
  | o :: later =>
    let r := t.tick o.frame o.world o.audience
    r.tree.status :: r.tree.answers later

theorem heed_append (t : Tree H) (before later : List (Offer H)) :
    t.heed (before ++ later) = (t.heed before).heed later :=
  List.foldl_append

theorem answers_append (t : Tree H) (before later : List (Offer H)) :
    t.answers (before ++ later) = t.answers before ++ (t.heed before).answers later := by
  induction before generalizing t with
  | nil => rfl
  | cons o before ih => exact congrArg (_ :: ·) (ih _)

end Tree

namespace Agent

def controls (a : Agent H) : AgentControls := ⟨a.enabled, a.config⟩

/-- What an agent has to be behind some events: its controls are as they were last set, its tree is
a copy that was ticked on the offers that are heeded, and its last status the last answer of that
copy. -/
def filtered (a : Agent H) (events : List (AgentEvent H)) : Agent H where
  handle := a.handle
  config := (a.controls.after events).config
  tree := a.tree.map (·.heed (a.controls.heeded events))
  enabled := (a.controls.after events).enabled
  lastStatus := (a.tree.bind fun t => (t.answers (a.controls.heeded events)).getLast?).or
    a.lastStatus

theorem filtered_controls (a : Agent H) (events : List (AgentEvent H)) :
    (a.filtered events).controls = a.controls.after events := rfl

/-- The one filter goes on where the other has stopped. -/
theorem filtered_append (a : Agent H) (before later : List (AgentEvent H)) :
    a.filtered (before ++ later) = (a.filtered before).filtered later := by
  have hafter : a.controls.after (before ++ later) = (a.controls.after before).after later :=
    List.foldl_append
  unfold filtered
  rw [hafter, a.controls.heeded_append]
  cases a.tree with
  | none => rfl
  | some t =>
    simp only [Option.map_some, Option.bind_some, Tree.heed_append, Tree.answers_append,
      List.getLast?_append, Option.or_assoc]
    rfl

theorem filtered_nil (a : Agent H) : a.filtered [] = a := by
  obtain ⟨handle, config, tree, enabled, lastStatus⟩ := a
  cases tree <;> rfl

/-- Nothing comes of events that bring nothing to the tree but what they do to the controls. -/
theorem filtered_of_unheeded {a : Agent H} {events : List (AgentEvent H)}
    (h : a.tree = none ∨ a.controls.heeded events = []) :
    a.filtered events = { a with
      enabled := (a.controls.after events).enabled
      config := (a.controls.after events).config } := by
  obtain ⟨handle, config, tree, enabled, lastStatus⟩ := a
  unfold filtered
  cases tree with
  | none => rfl
  | some t =>
    rw [h.resolve_left nofun]
    rfl

section Step

variable {a : Agent H} {o : Offer H}

theorem isDue_of_clear (hclear : a.controls.Clear o) (henabled : a.enabled = true) :
    a.config.isDue o.frame.tick = .ok (decide (a.config.DueOn o.frame.tick)) :=
  ThinkConfig.isDue_eq (hclear henabled)

/-- An agent that is paused does not look at its clock. -/
theorem tick_isOk_of_clear (hclear : a.controls.Clear o) :
    ∃ r, a.tick o.frame o.world o.audience = .ok r := by
  cases henabled : a.enabled with
  | true => exact tick_isOk (isDue_of_clear hclear henabled)
  | false =>
    unfold tick
    rw [henabled]
    exact ⟨_, rfl⟩

/-- Where an offer is heeded, the turn is a tick of the tree. -/
theorem tick_of_heeds {t : Tree H} (htree : a.tree = some t) (hclear : a.controls.Clear o)
    (hheeds : a.controls.Heeds o) :
    let r := t.tick o.frame o.world o.audience
    a.tick o.frame o.world o.audience =
      .ok ⟨a.filtered [.offer o], some r.tree.status, r.world, r.audience, r.trace⟩ := by
  intro r
  obtain ⟨henabled, hdueOn⟩ := hheeds
  obtain ⟨turn, hturn⟩ := tick_isOk_of_clear hclear
  have hdue : a.config.isDue o.frame.tick = .ok true := by
    rw [isDue_of_clear hclear henabled]
    exact congrArg Except.ok (decide_eq_true hdueOn)
  have hheeded : a.controls.heeded [.offer o] = [o] := by
    rw [a.controls.heeded_offer, if_pos ⟨henabled, hdueOn⟩]
  have hfiltered : a.filtered [.offer o] =
      { a with tree := some r.tree, lastStatus := some r.tree.status } := by
    unfold filtered
    rw [hheeded, htree]
    rfl
  rw [hturn, hfiltered]
  cases takes_of_tick hturn with
  -- To rest is to fail one of the three conditions, and here all of them hold.
  | rests idle =>
    rcases idle with hdisabled | hnotDue | hnone
    · cases henabled.symm.trans hdisabled
    · cases hdue.symm.trans hnotDue
    · cases htree.symm.trans hnone
  | thinks _ _ htree' hticked =>
    obtain rfl := Option.some.inj (htree.symm.trans htree')
    rw [← hticked]

/-- Where it is not, nothing happens. -/
theorem tick_of_passes (hclear : a.controls.Clear o)
    (hpasses : a.tree = none ∨ ¬ a.controls.Heeds o) :
    a.tick o.frame o.world o.audience = .ok ⟨a, none, o.world, o.audience, []⟩ := by
  obtain ⟨turn, hturn⟩ := tick_isOk_of_clear hclear
  rw [hturn]
  cases takes_of_tick hturn with
  | rests => rfl
  | thinks henabled hdue htree =>
    rcases hpasses with hnone | hnot
    · cases htree.symm.trans hnone
    · have hdueOn := hdue.symm.trans (isDue_of_clear hclear henabled)
      exact absurd ⟨henabled, of_decide_eq_true (Except.ok.inj hdueOn).symm⟩ hnot

/-- What one event does. -/
theorem meet_eq {e : AgentEvent H} (hclear : a.controls.AllClear [e]) :
    a.meet e = .ok (a.filtered [e]) := by
  have hcontrol (hunheeded : a.controls.heeded [e] = []) := filtered_of_unheeded (Or.inr hunheeded)
  cases e with
  | enable => rw [hcontrol rfl]; rfl
  | disable => rw [hcontrol rfl]; rfl
  | configure config => rw [hcontrol rfl]; rfl
  | offer o =>
    have hclear' : a.controls.Clear o := hclear [] o (List.prefix_refl _)
    by_cases hpasses : a.tree = none ∨ ¬ a.controls.Heeds o
    · have hunheeded : a.tree = none ∨ a.controls.heeded [.offer o] = [] := by
        refine hpasses.imp_right fun hnot => ?_
        rw [a.controls.heeded_offer, if_neg hnot]
      rw [filtered_of_unheeded hunheeded, meet, tick_of_passes hclear' hpasses]
      rfl
    · obtain ⟨htree, hheeds⟩ := not_or.mp hpasses
      obtain ⟨t, htree⟩ := Option.ne_none_iff_exists'.mp htree
      rw [meet, tick_of_heeds htree hclear' (not_not.mp hheeds)]
      rfl

end Step

/-- What events in a row do. -/
theorem after_eq {a : Agent H} {events : List (AgentEvent H)}
    (hclear : a.controls.AllClear events) : a.after events = .ok (a.filtered events) := by
  induction events generalizing a with
  | nil => exact congrArg Except.ok a.filtered_nil.symm
  | cons e later ih =>
    obtain ⟨hfirst, hlater⟩ := hclear.cons
    -- What comes later is filtered from where the first event leaves the controls.
    have hlater' : (a.filtered [e]).controls.AllClear later := by
      rw [a.filtered_controls]
      exact hlater
    rw [after, meet_eq hfirst]
    exact (ih hlater').trans (congrArg Except.ok (a.filtered_append [e] later).symm)

end Agent

/-- Whatever frames an agent is offered, and however it is paused, resumed and given another pace
between them, its tree is at every point what a copy is that was ticked on just the offers at which
the agent was enabled and due. The next offer is answered by a tick of that copy if the agent is
then enabled and due, and by nothing otherwise: it leaves everything as it is. The last status is
the last answer of the copy, and until there is one the agent differs from what it was only in what
was set. The same goes for an agent without a tree at all times. -/
theorem agent_on_filtered_clock (a : Agent H) (events : List (AgentEvent H))
    (hclear : a.controls.AllClear events) :
    let controls := a.controls.after events
    let offers := a.controls.heeded events
    a.after events = .ok (a.filtered events) ∧
      (∀ o, controls.Clear o →
        (∀ t, a.tree = some t → controls.Heeds o →
          let r := (t.heed offers).tick o.frame o.world o.audience
          (a.filtered events).tick o.frame o.world o.audience =
            .ok ⟨a.filtered (events ++ [.offer o]), some r.tree.status, r.world, r.audience,
              r.trace⟩) ∧
        (a.tree = none ∨ ¬ controls.Heeds o →
          (a.filtered events).tick o.frame o.world o.audience =
            .ok ⟨a.filtered events, none, o.world, o.audience, []⟩)) ∧
      (a.lastStatus = none → (a.filtered events).lastStatus =
        a.tree.bind fun t => (t.answers offers).getLast?) ∧
      (a.tree = none ∨ offers = [] → a.filtered events =
        { a with enabled := controls.enabled, config := controls.config }) := by
  intro controls offers
  refine ⟨Agent.after_eq hclear, fun o hnext => ⟨fun t htree hheeds => ?_, fun hpasses => ?_⟩,
    fun hnone => ?_, Agent.filtered_of_unheeded⟩
  · have hcopy : (a.filtered events).tree = some (t.heed offers) := by
      change a.tree.map _ = _
      rw [htree]
      rfl
    rw [a.filtered_append]
    exact Agent.tick_of_heeds hcopy hnext hheeds
  · refine Agent.tick_of_passes hnext (hpasses.imp_left fun hnone => ?_)
    change a.tree.map _ = _
    rw [hnone]
    rfl
  · change Option.or _ a.lastStatus = _
    rw [hnone, Option.or_none]

namespace Demo

/-- A tree that waits for two updates and then succeeds. -/
def waiting : Tree smallHost where
  root := .ofNat 1
  nodes := [.make (.ofNat 1) "Root" (.root (some (.ofNat 2))),
    .make (.ofNat 2) "Wait" (.action (Action.wait 2 2))]
  blackboard := .empty default
  owner := none
  registry := .builtin
  seed := 0
  rng := ⟨0⟩
  status := .running
  observers := []

def dozer : Agent smallHost := .ofTree ⟨3⟩ (some waiting)

/-- The offer of a frame by its number. -/
def offerOf (tick : UInt64) : Offer smallHost := ⟨⟨tick, 0, 0⟩, TeamBoards.empty, Recordings.empty⟩

/-- In the middle of its wait the agent is paused for one frame; then it is set to think on odd
frames only. -/
def doze : List (AgentEvent smallHost) :=
  [.offer (offerOf 0), .disable, .offer (offerOf 1), .enable, .configure ⟨2, 1⟩,
    .offer (offerOf 2), .offer (offerOf 3)]

end Demo

/-- The pause and the even frame neither advance the wait nor lose what has been waited: it ends on
the third frame that is heeded. -/
theorem agent_on_filtered_clock_dozing :
    ∃ a, Demo.dozer.after Demo.doze = .ok a ∧
      a.tree = some (Demo.waiting.heed [Demo.offerOf 0, Demo.offerOf 3]) ∧
      a.lastStatus = some .running ∧
      (a.tick ⟨4, 0, 0⟩ TeamBoards.empty Recordings.empty).map (·.status) = .ok none ∧
      (a.tick ⟨5, 0, 0⟩ TeamBoards.empty Recordings.empty).map (·.status) =
        .ok (some .success) := by
  have hclear : Demo.dozer.controls.AllClear Demo.doze := by
    apply AgentControls.allClear_of_early
    intro o ho
    simp only [Demo.doze, List.mem_cons, AgentEvent.offer.injEq, reduceCtorEq, false_or,
      List.not_mem_nil, or_false] at ho
    rcases ho with rfl | rfl | rfl | rfl <;> decide
  obtain ⟨hrun, hnext, hlast, -⟩ := agent_on_filtered_clock Demo.dozer Demo.doze hclear
  have hoffers : Demo.dozer.controls.heeded Demo.doze = [Demo.offerOf 0, Demo.offerOf 3] := rfl
  rw [hoffers] at hnext hlast
  refine ⟨_, hrun, rfl, ?_, ?_, ?_⟩
  · rw [hlast rfl]
    decide +kernel
  · have hpasses := (hnext (Demo.offerOf 4) (fun _ => by decide)).2 (Or.inr (by decide))
    exact congrArg (Except.map (·.status)) hpasses
  · have hheeds := (hnext (Demo.offerOf 5) (fun _ => by decide)).1 Demo.waiting rfl (by decide)
    refine (congrArg (Except.map (·.status)) hheeds).trans ?_
    decide +kernel

end BehaviourTree
