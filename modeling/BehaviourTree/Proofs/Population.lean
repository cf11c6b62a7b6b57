import BehaviourTree.Agent
import BehaviourTree.Demo.Registry
import Mathlib.Data.List.Sort

/-!
Populations: a frame is offered to agents one after the other in the order of their numbers, and
whatever they share comes out the same however they are listed.
-/

namespace BehaviourTree

variable {H : Host}

/-! ### Clocks -/

namespace ThinkConfig

/-- By its clock an agent thinks on a frame. -/
abbrev DueOn (c : ThinkConfig) (tick : UInt64) : Prop :=
  max c.every.toNat 1 ∣ tick.toNat+c.offset.toNat

theorem period_toNat (c : ThinkConfig) : c.period.toNat = max c.every.toNat 1 := by
  unfold period
  by_cases hzero : c.every = 0
  · simp [hzero]
  · have hne : c.every.toNat ≠ 0 := fun h => hzero (UInt32.toNat_inj.mp h)
    rw [if_neg hzero]
    omega

/-- While the sum leaves it room the clock says when the agent is due. -/
theorem isDue_eq {c : ThinkConfig} {tick : UInt64}
    (h : tick.toNat+c.offset.toNat < UInt64.size) :
    c.isDue tick = .ok (decide (c.DueOn tick)) := by
  unfold isDue
  rw [if_pos h, c.period_toNat]
  apply congrArg Except.ok
  apply decide_eq_decide.mpr
  exact (Nat.dvd_iff_mod_eq_zero).symm

end ThinkConfig

/-! ### One agent -/

/-- To be offered a frame is to be left alone or to have one's tree ticked. -/
inductive Agent.Takes (a : Agent H) (frame : TickContext) (world : H.World)
    (audience : H.Audience) : AgentTicked H → Prop where
  | rests (idle : a.enabled = false ∨ a.config.isDue frame.tick = .ok false ∨ a.tree = none) :
    Takes a frame world audience ⟨a, none, world, audience, []⟩
  | thinks {t : Tree H} {r : Ticked H} (enabled : a.enabled = true)
      (due : a.config.isDue frame.tick = .ok true) (tree : a.tree = some t)
      (ticked : t.tick frame world audience = r) :
    Takes a frame world audience ⟨{ a with tree := some r.tree, lastStatus := some r.tree.status },
      some r.tree.status, r.world, r.audience, r.trace⟩

section Agent

variable {a : Agent H} {frame : TickContext} {world : H.World} {audience : H.Audience}
  {r : AgentTicked H}

theorem Agent.takes_of_tick (h : a.tick frame world audience = .ok r) :
    a.Takes frame world audience r := by
  unfold Agent.tick at h
  cases henabled : a.enabled with
  | false =>
    rw [henabled] at h
    cases h
    exact .rests (Or.inl henabled)
  | true =>
    cases hdue : a.config.isDue frame.tick with
    | error e =>
      rw [henabled, hdue] at h
      cases h
    | ok due =>
      rw [henabled, hdue] at h
      cases due with
      | false =>
        cases h
        exact .rests (Or.inr (Or.inl hdue))
      | true =>
        cases htree : a.tree with
        | none =>
          rw [htree] at h
          cases h
          exact .rests (Or.inr (Or.inr htree))
        | some t =>
          rw [htree] at h
          cases h
          rw [← henabled]
          exact .thinks henabled hdue htree rfl

/-- Only its clock can keep an agent from its turn. -/
theorem Agent.tick_isOk {due : Bool} (hdue : a.config.isDue frame.tick = .ok due) :
    ∃ r, a.tick frame world audience = .ok r := by
  unfold Agent.tick
  rw [hdue]
  cases a.enabled with
  | false => exact ⟨_, rfl⟩
  | true =>
    cases due with
    | false => exact ⟨_, rfl⟩
    | true => cases a.tree <;> exact ⟨_, rfl⟩

theorem Agent.Takes.handle (h : a.Takes frame world audience r) :
    r.agent.handle = a.handle := by
  cases h <;> rfl

end Agent

/-! ### One frame -/

/-- Agents have their turns in the order of a list: each finds what the one before it has left. -/
inductive TakeTurns (frame : TickContext) : List (Agent H) → H.World × H.Audience →
    List (AgentTicked H) → H.World × H.Audience → Prop where
  | nil (x : H.World × H.Audience) : TakeTurns frame [] x [] x
  | cons {a : Agent H} {later : List (Agent H)} {world : H.World} {audience : H.Audience}
      {r : AgentTicked H} {rs : List (AgentTicked H)} {y : H.World × H.Audience}
      (turn : a.tick frame world audience = .ok r)
      (rest : TakeTurns frame later (r.world, r.audience) rs y) :
      TakeTurns frame (a :: later) (world, audience) (r :: rs) y

theorem TakeTurns.handles {frame : TickContext} {agents : List (Agent H)}
    {x y : H.World × H.Audience} {rs : List (AgentTicked H)} (h : TakeTurns frame agents x rs y) :
    rs.map (·.agent.handle) = agents.map (·.handle) := by
  induction h with
  | nil => rfl
  | cons turn _ ih => rw [List.map_cons, List.map_cons, (Agent.takes_of_tick turn).handle, ih]

/-- What becomes of a population in one frame. All have their turns, unless there is an agent whose
clock overflows: it and those behind it have none. -/
def Offered (frame : TickContext) (agents : List (Agent H)) (world : H.World)
    (audience : H.Audience) (r : PopulationTicked H) : Prop :=
  ∃ served kept rs, agents = served ++ kept ∧
    TakeTurns frame served (world, audience) rs (r.world, r.audience) ∧
    r.agents = rs.map (·.agent) ++ kept ∧ r.trace = rs.flatMap (·.trace) ∧
    (kept = [] ∧ r.overflow = none ∨ ∃ a later e, kept = a :: later ∧
      a.tick frame r.world r.audience = .error e ∧ r.overflow = some e)

theorem tickEach_offered (frame : TickContext) (agents : List (Agent H)) (world : H.World)
    (audience : H.Audience) :
    Offered frame agents world audience (tickEach frame agents world audience) := by
  induction agents generalizing world audience with
  | nil => exact ⟨[], [], [], rfl, .nil _, rfl, rfl, Or.inl ⟨rfl, rfl⟩⟩
  | cons a rest ih =>
    unfold tickEach
    split
    · next e hturn =>
      exact ⟨[], a :: rest, [], rfl, .nil _, rfl, rfl, Or.inr ⟨a, rest, e, rfl, hturn, rfl⟩⟩
    · next r hturn =>
      obtain ⟨served, kept, rs, rfl, hturns, hagents, htrace, hend⟩ := ih r.world r.audience
      refine ⟨a :: served, kept, r :: rs, rfl, .cons hturn hturns, ?_, ?_, hend⟩
      · exact congrArg (r.agent :: ·) hagents
      · exact congrArg (r.trace ++ ·) htrace

theorem Offered.handles {frame : TickContext} {agents : List (Agent H)} {world : H.World}
    {audience : H.Audience} {r : PopulationTicked H} (h : Offered frame agents world audience r) :
    r.agents.map (·.handle) = agents.map (·.handle) := by
  obtain ⟨served, kept, rs, rfl, hturns, hagents, -, -⟩ := h
  have hserved : rs.map (fun r => r.agent.handle) = served.map (·.handle) := hturns.handles
  rw [hagents, List.map_append, List.map_append, List.map_map, ← hserved]
  rfl

/-! ### The order of agents -/

/-- The numbers of the agents ascend, so no two have the same. -/
def Ascending (agents : List (Agent H)) : Prop :=
  agents.Pairwise fun a b => a.handle.number < b.handle.number

theorem sortAgents_perm (agents : List (Agent H)) : (sortAgents agents).Perm agents :=
  List.mergeSort_perm agents _

theorem sortAgents_pairwise (agents : List (Agent H)) :
    (sortAgents agents).Pairwise fun a b => a.handle.number ≤ b.handle.number := by
  let le (a b : Agent H) : Bool := decide (a.handle.number ≤ b.handle.number)
  have htrans (a b c : Agent H) (hab : le a b) (hbc : le b c) : le a c := by
    rw [decide_eq_true_iff] at hab hbc ⊢
    exact UInt64.le_trans hab hbc
  have htotal (a b : Agent H) : le a b || le b a := by
    rw [Bool.or_eq_true, decide_eq_true_iff, decide_eq_true_iff]
    exact UInt64.le_total _ _
  have hsorted : (agents.mergeSort le).Pairwise fun a b => le a b :=
    List.pairwise_mergeSort htrans htotal agents
  apply hsorted.imp
  intro a b h
  exact of_decide_eq_true h

theorem sortAgents_ascending {agents : List (Agent H)} (h : (agents.map (·.handle)).Nodup) :
    Ascending (sortAgents agents) := by
  have hdistinct : ((sortAgents agents).map (·.handle)).Nodup :=
    ((sortAgents_perm agents).map _).nodup_iff.mpr h
  apply (sortAgents_pairwise agents).imp₂ _ (List.pairwise_map.mp hdistinct)
  intro a b hle hne
  apply UInt64.lt_of_le_of_ne hle
  intro hnumber
  apply hne
  exact congrArg AgentHandle.mk hnumber

/-- Where all numbers are different there is one order to sort agents into. -/
theorem Ascending.unique {agents agents' : List (Agent H)} (h : Ascending agents)
    (h' : Ascending agents') (hperm : agents.Perm agents') : agents = agents' := by
  apply hperm.eq_of_pairwise _ h h'
  intro a b _ _ hab hba
  exact absurd hba (UInt64.lt_asymm hab)

theorem Ascending.sortAgents {agents : List (Agent H)} (h : Ascending agents) :
    BehaviourTree.sortAgents agents = agents := by
  have hdistinct : (agents.map (·.handle)).Nodup := by
    apply List.pairwise_map.mpr
    apply h.imp
    intro a b hlt heq
    rw [heq] at hlt
    exact UInt64.lt_irrefl _ hlt
  exact (sortAgents_ascending hdistinct).unique h (sortAgents_perm agents)

theorem sortAgents_eq {agents agents' : List (Agent H)} (hperm : agents'.Perm agents)
    (h : (agents.map (·.handle)).Nodup) : sortAgents agents' = sortAgents agents := by
  have h' : (agents'.map (·.handle)).Nodup := (hperm.map _).nodup_iff.mpr h
  apply (sortAgents_ascending h').unique (sortAgents_ascending h)
  calc sortAgents agents'
    _ |>.Perm agents' := sortAgents_perm agents'
    _ |>.Perm agents := hperm
    _ |>.Perm (sortAgents agents) := (sortAgents_perm agents).symm

/-! ### Frames in a row -/

/-- Agents with what they share outside their trees. -/
structure Population (H : Host) where
  agents : List (Agent H)
  world : H.World
  audience : H.Audience

namespace Population

def offer (p : Population H) (frame : TickContext) : PopulationTicked H :=
  tickAgents frame p.agents p.world p.audience

/-- The population as it meets the next frame. -/
def next (p : Population H) (frame : TickContext) : Population H :=
  ⟨(p.offer frame).agents, (p.offer frame).world, (p.offer frame).audience⟩

def after (p : Population H) (frames : List TickContext) : Population H := frames.foldl next p

/-- Two listings of the same agents, in the same world and before the same audience. -/
structure Relists (p p' : Population H) : Prop where
  agents : p'.agents.Perm p.agents
  world : p'.world = p.world
  audience : p'.audience = p.audience

theorem Relists.offer {p p' : Population H} (h : p.Relists p')
    (hdistinct : (p.agents.map (·.handle)).Nodup) (frame : TickContext) :
    p'.offer frame = p.offer frame := by
  unfold Population.offer tickAgents
  rw [sortAgents_eq h.agents hdistinct, h.world, h.audience]

/-- After one frame the two are the same. -/
theorem Relists.after {p p' : Population H} (h : p.Relists p')
    (hdistinct : (p.agents.map (·.handle)).Nodup) (frames : List TickContext) :
    (p.after frames).Relists (p'.after frames) := by
  cases frames with
  | nil => exact h
  | cons frame frames =>
    have hnext : p'.next frame = p.next frame := by
      unfold Population.next
      rw [h.offer hdistinct frame]
    change ((p.next frame).after frames).Relists ((p'.next frame).after frames)
    rw [hnext]
    exact ⟨.refl _, rfl, rfl⟩

end Population

namespace Demo

end Demo

namespace Demo

end Demo

end BehaviourTree
