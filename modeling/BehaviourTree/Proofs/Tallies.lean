import BehaviourTree.Proofs.Population
import BehaviourTree.Proofs.TemplateForest
import BehaviourTree.Simulation

/-!
Simulations of agents that take turns in thinking: who answers on which frame, and that the tallies
count those answers and nothing else.
-/

namespace BehaviourTree

variable {H : Host}

/-! ### Clocks -/

/-- Of agents that think once in `every` frames, the one of a number does so on a frame. -/
abbrev Due (every : UInt32) (number frame : Nat) : Prop := max every.toNat 1 ∣ frame+number

/-- The clock of that agent does not overflow on the frame. -/
def Clear (every : UInt32) (number frame : Nat) : Prop :=
  frame+number%max every.toNat 1 < UInt64.size

theorem ThinkConfig.spread_every (agent : AgentHandle) (every : UInt32) :
    (spread agent every).every.toNat = max every.toNat 1 := period_toNat ⟨every, 0⟩

/-- The share of a number fits into the offset. -/
theorem ThinkConfig.spread_offset (agent : AgentHandle) (every : UInt32) :
    (spread agent every).offset.toNat = agent.number.toNat%max every.toNat 1 := by
  let period : UInt32 := ThinkConfig.period ⟨every, 0⟩
  have hperiod : period.toNat = max every.toNat 1 := period_toNat ⟨every, 0⟩
  have hpos : 0 < period.toNat := by omega
  have hlt : agent.number.toNat%period.toNat < UInt32.size :=
    (Nat.mod_lt agent.number.toNat hpos).trans period.toNat_lt
  rw [← hperiod]
  change ((agent.number%period.toUInt64).toUInt32).toNat = _
  rw [UInt64.toNat_toUInt32, UInt64.toNat_mod, UInt32.toNat_toUInt64, Nat.mod_eq_of_lt hlt]

theorem ThinkConfig.spread_isDue {every : UInt32} {agent : AgentHandle} {tick : UInt64}
    (h : Clear every agent.number.toNat tick.toNat) :
    (spread agent every).isDue tick = .ok (decide (Due every agent.number.toNat tick.toNat)) := by
  have hevery : max (spread agent every).every.toNat 1 = max every.toNat 1 := by
    rw [spread_every]
    omega
  unfold Clear at h
  rw [← spread_offset] at h
  rw [isDue_eq h]
  apply congrArg Except.ok
  apply decide_eq_decide.mpr
  rw [DueOn, hevery, spread_offset, Due, Nat.dvd_iff_mod_eq_zero, Nat.dvd_iff_mod_eq_zero,
    Nat.add_mod_mod]

/-! ### Turns -/

/-- The turns that agents have when they are offered a frame in the order of a list. There are none
from the first one on whose clock overflows. -/
def turnsOf (frame : TickContext) :
    List (Agent H) → H.World → H.Audience → List (AgentTicked H)
  | [], _, _ => []
  | a :: later, world, audience => match a.tick frame world audience with
    | .error _ => []
    | .ok r => r :: turnsOf frame later r.world r.audience

section Turns

variable {frame : TickContext} {agents : List (Agent H)} {world : H.World} {audience : H.Audience}

theorem TakeTurns.turnsOf_eq {x y : H.World × H.Audience} {rs : List (AgentTicked H)}
    (h : TakeTurns frame agents x rs y) : turnsOf frame agents x.1 x.2 = rs := by
  induction h with
  | nil => rfl
  | cons turn _ ih =>
    unfold turnsOf
    rw [turn]
    exact congrArg (List.cons _) ih

/-- Each turn is that of one agent. -/
theorem TakeTurns.each {x y : H.World × H.Audience} {rs : List (AgentTicked H)}
    (h : TakeTurns frame agents x rs y) :
    List.Forall₂ (fun a r => ∃ world audience, a.tick frame world audience = .ok r) agents rs := by
  induction h with
  | nil => exact .nil
  | cons turn _ ih => exact .cons ⟨_, _, turn⟩ ih

/-- Where no clock overflows all have their turns. -/
theorem tickEach_turns (hclocks : ∀ a ∈ agents, ∃ due, a.config.isDue frame.tick = .ok due)
    (world : H.World) (audience : H.Audience) :
    let r := tickEach frame agents world audience
    let turns := turnsOf frame agents world audience
    TakeTurns frame agents (world, audience) turns (r.world, r.audience) ∧
      r.agents = turns.map (·.agent) := by
  obtain ⟨served, kept, rs, hsplit, hturns, hagents, -, hend⟩ :=
    tickEach_offered frame agents world audience
  -- Nobody is left without a turn: there would be a clock that overflows.
  obtain rfl : kept = [] := by
    rcases hend with ⟨hnone, -⟩ | ⟨a, later, e, hkept, herror, -⟩
    · exact hnone
    · have ha : a ∈ agents := by simp [hsplit, hkept]
      obtain ⟨due, hdue⟩ := hclocks a ha
      obtain ⟨r, hr⟩ : ∃ r, a.tick frame _ _ = .ok r := Agent.tick_isOk hdue
      rw [hr] at herror
      cases herror
  rw [List.append_nil] at hsplit hagents
  rw [← hsplit] at hturns
  have hrow : turnsOf frame agents world audience = rs := hturns.turnsOf_eq
  intro r turns
  rw [show turns = rs from hrow]
  exact ⟨hturns, hagents⟩

end Turns

/-! ### Replies -/

/-- An answer that the tree of an agent gave, and the frame on which it did. -/
structure Reply where
  tick : UInt64
  agent : AgentHandle
  status : Status
deriving DecidableEq

/-- The answers of one agent in order, each with the frame that it answers. -/
def answersOf (agent : AgentHandle) (replies : List Reply) : List (UInt64 × Status) :=
  (replies.filter (·.agent = agent)).map fun r => (r.tick, r.status)

theorem answersOf_append (agent : AgentHandle) (replies later : List Reply) :
    answersOf agent (replies ++ later) = answersOf agent replies ++ answersOf agent later := by
  rw [answersOf, List.filter_append, List.map_append]
  rfl

/-- What comes of a turn: an answer, if the tree was ticked. -/
def AgentTicked.reply? (frame : TickContext) (r : AgentTicked H) : Option Reply :=
  r.status.map fun status => ⟨frame.tick, r.agent.handle, status⟩

/-- An answer is entered under the number of its agent. -/
def Tallies.enter (t : Tallies) (r : Reply) : Tallies :=
  t.insert r.agent.number (((t[r.agent.number]?).getD .zero).add r.status)

/-- The agent has a tree to run and thinks once in so many frames. -/
structure Agent.Ready (every : UInt32) (a : Agent H) : Prop where
  enabled : a.enabled = true
  config : a.config = .spread a.handle every
  tree : a.tree.isSome

section Replies

variable {every : UInt32} {frame : TickContext} {a : Agent H} {world : H.World}
  {audience : H.Audience} {r : AgentTicked H}

theorem Agent.Ready.isDue (h : a.Ready every)
    (hclear : Clear every a.handle.number.toNat frame.tick.toNat) :
    a.config.isDue frame.tick =
      .ok (decide (Due every a.handle.number.toNat frame.tick.toNat)) := by
  rw [h.config]
  exact ThinkConfig.spread_isDue hclear

theorem Agent.Ready.after (h : a.Ready every) (hturn : a.tick frame world audience = .ok r) :
    r.agent.Ready every := by
  cases takes_of_tick hturn with
  | rests => exact h
  | thinks => exact ⟨h.enabled, h.config, rfl⟩

/-- The tree of such an agent answers on the frames that it is due on, and on no others. -/
theorem Agent.Ready.reply?_isSome (h : a.Ready every)
    (hclear : Clear every a.handle.number.toNat frame.tick.toNat)
    (hturn : a.tick frame world audience = .ok r) :
    (r.reply? frame).isSome ↔ Due every a.handle.number.toNat frame.tick.toNat := by
  have hdue := h.isDue hclear
  cases takes_of_tick hturn with
  | rests idle =>
    -- It is enabled and has a tree, so it rests because it is too early.
    have hnot : ¬ Due every a.handle.number.toNat frame.tick.toNat := by
      rcases idle with hoff | hearly | hnone
      · rw [h.enabled] at hoff
        cases hoff
      · rw [hdue] at hearly
        exact of_decide_eq_false (Except.ok.inj hearly)
      · have htree := h.tree
        rw [hnone] at htree
        cases htree
    exact iff_of_false (by simp [AgentTicked.reply?]) hnot
  | thinks _ due =>
    rw [hdue] at due
    exact iff_of_true rfl (of_decide_eq_true (Except.ok.inj due))

/-- What is counted behind a turn is the answer of that turn: an older one that the agent still has
is passed over, for it is not due then. -/
theorem Agent.Ready.counted (h : a.Ready every)
    (hclear : Clear every a.handle.number.toNat frame.tick.toNat)
    (hturn : a.tick frame world audience = .ok r) (t : Tallies) :
    Simulation.count frame t r.agent = (r.reply? frame).elim t t.enter := by
  have hreplies := h.reply?_isSome hclear hturn
  have hdue := h.isDue hclear
  cases takes_of_tick hturn with
  | rests =>
    have hnot : ¬ Due every a.handle.number.toNat frame.tick.toNat :=
      fun hdue => nomatch hreplies.mpr hdue
    rw [decide_eq_false hnot] at hdue
    unfold Simulation.count
    rw [hdue]
    rfl
  | thinks _ due =>
    simp only [Simulation.count, due]
    rfl

end Replies

/-! ### Populations -/

/-- The handle of a number. -/
def AgentHandle.nth (i : Nat) : AgentHandle := ⟨.ofNat i⟩

namespace AgentHandle

theorem toNat_nth {i : Nat} (hi : i < UInt64.size) : (nth i).number.toNat = i :=
  UInt64.toNat_ofNat_of_lt hi

theorem nth_ascending {l : List Nat} (hl : l.Pairwise (· < ·))
    (hsize : ∀ i ∈ l, i < UInt64.size) :
    (l.map nth).Pairwise fun a b => a.number < b.number := by
  rw [List.pairwise_map]
  apply hl.imp_of_mem
  intro i j hi hj hlt
  rw [UInt64.lt_iff_toNat_lt, toNat_nth (hsize i hi), toNat_nth (hsize j hj)]
  exact hlt

end AgentHandle

/-- Agents numbered from 0 on, each of which is ready to think once in so many frames. -/
structure Staffed (every : UInt32) (size : Nat) (agents : List (Agent H)) : Prop where
  handles : agents.map (·.handle) = (List.range size).map .nth
  ready : ∀ a ∈ agents, a.Ready every

namespace Staffed

variable {every : UInt32} {size : Nat} {agents : List (Agent H)}

theorem number (h : Staffed every size agents) (hsize : size ≤ UInt64.size) {a : Agent H}
    (ha : a ∈ agents) : a.handle.number.toNat < size ∧ a.handle = .nth a.handle.number.toNat := by
  have hmem : a.handle ∈ (List.range size).map AgentHandle.nth := by
    rw [← h.handles]
    exact List.mem_map_of_mem ha
  obtain ⟨i, hi, heq⟩ := List.mem_map.mp hmem
  rw [List.mem_range] at hi
  rw [← heq, AgentHandle.toNat_nth (by omega)]
  exact ⟨hi, rfl⟩

theorem ascending (h : Staffed every size agents) (hsize : size ≤ UInt64.size) :
    Ascending agents := by
  have hnumbers := AgentHandle.nth_ascending (List.pairwise_lt_range (n := size)) fun i hi => by
    rw [List.mem_range] at hi
    omega
  rw [← h.handles, List.pairwise_map] at hnumbers
  exact hnumbers

end Staffed

namespace Simulation

variable {every : UInt32} {size first n : Nat} {s : Simulation H}

/-- The turns of the next frame. -/
def turns (s : Simulation H) : List (AgentTicked H) :=
  turnsOf s.frame (sortAgents s.agents) s.world s.audience

/-- What the trees answer to the next frame. -/
def answers (s : Simulation H) : List Reply := s.turns.filterMap (·.reply? s.frame)

/-- What the trees answer to the next `n` frames. -/
def replies : Nat → Simulation H → List Reply
  | 0, _ => []
  | n+1, s => s.answers ++ s.step.replies n

/-- A simulation ahead of frame `first`, none of whose clocks overflows on the next `n` frames. -/
structure Underway (every : UInt32) (size first n : Nat) (s : Simulation H) : Prop where
  staffed : Staffed every size s.agents
  numbers : size ≤ UInt64.size
  frame : s.frame.tick = .ofNat first
  frames : first+n ≤ UInt64.size
  clear : ∀ t < first+n, ∀ i < size, Clear every i t

namespace Underway

section Frame

variable (h : s.Underway every size first (n+1))

include h

theorem tick : s.frame.tick.toNat = first := by
  have hframes := h.frames
  rw [h.frame]
  exact UInt64.toNat_ofNat_of_lt (by omega)

theorem clocks : ∀ a ∈ s.agents, Clear every a.handle.number.toNat s.frame.tick.toNat := by
  intro a ha
  rw [h.tick]
  exact h.clear first (by omega) _ (h.staffed.number h.numbers ha).1

/-- All agents have their turns, and are after them what the turns have made of them. -/
theorem takeTurns :
    TakeTurns s.frame s.agents (s.world, s.audience) s.turns (s.step.world, s.step.audience) ∧
      s.step.agents = s.turns.map (·.agent) := by
  have hdue : ∀ a ∈ s.agents, ∃ due, a.config.isDue s.frame.tick = .ok due :=
    fun a ha => ⟨_, (h.staffed.ready a ha).isDue (h.clocks a ha)⟩
  obtain ⟨hturns, hagents⟩ := tickEach_turns hdue s.world s.audience
  have hsorted := (h.staffed.ascending h.numbers).sortAgents
  unfold turns step tickAgents
  rw [hsorted]
  exact ⟨hturns, hagents⟩

theorem step : s.step.Underway every size (first+1) n := by
  obtain ⟨hturns, hagents⟩ := h.takeTurns
  have hframes := h.frames
  refine ⟨⟨?_, ?_⟩, h.numbers, ?_, by omega, fun t ht => h.clear t (by omega)⟩
  · rw [hagents, List.map_map, ← h.staffed.handles]
    exact hturns.handles
  · rw [hagents]
    intro a ha
    obtain ⟨r, hr, rfl⟩ := List.mem_map.mp ha
    obtain ⟨a, ha, _, _, hturn⟩ := exists_of_mem_right hturns.each hr
    exact (h.staffed.ready a ha).after hturn
  · change s.frame.tick+1 = .ofNat (first+1)
    rw [h.frame, UInt64.ofNat_add]
    rfl

end Frame

/-! ### Runs -/

end Underway

end Simulation

/-! ### Tallies -/

namespace Simulation.Underway

variable {every : UInt32} {size n : Nat} {s : Simulation H}

end Simulation.Underway

end BehaviourTree
