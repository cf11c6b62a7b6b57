import BehaviourTree.Proofs.Reachability
import BehaviourTree.Proofs.TemplateForest
import BehaviourTree.Proofs.TwinTicks

/-!
Trees that differ in their identifiers alone run alike, also when they are given the same seeds and
the same owners before.
-/

namespace BehaviourTree

open Ticking

variable {H : Host} {P : Pairing} {worlds : H.World → H.World → Prop} {t t' : Tree H}

/-! ### Runs -/

/-- What can be set before a tree runs. -/
inductive Setting where
  | seed (seed : UInt64)
  | owner (agent : AgentHandle)

namespace Tree

def set (t : Tree H) : Setting → Tree H
  | .seed seed => t.setSeed seed
  | .owner agent => t.setOwner agent

def configure (t : Tree H) (settings : List Setting) : Tree H := settings.foldl set t

end Tree

/-- What a run of a tree shows without identifiers: the answer of every tick, the events as told by
tick, authored identity and status, and what the run leaves on the blackboard and of the random
stream. -/
@[ext]
structure Account (H : Host) where
  statuses : List Status
  events : List (UInt64 × NodeId × Status)
  entries : Std.TreeMap String ((t : H.ValueType) × H.Value t)
  rng : SplitMix64

def Tree.account (t : Tree H) (world : H.World) (audience : H.Audience)
    (frames : List TickContext) : Account H :=
  let r := t.run world audience frames
  ⟨r.2, r.1.trace.told, r.1.tree.blackboard.entries, r.1.tree.rng⟩

/-- The nodes that `P` pairs are twins, the roots among them, and the trees agree otherwise. -/
structure Tree.Twin (P : Pairing) (t t' : Tree H) : Prop where
  root : P.twins t.root t'.root
  ids : t.ids = P.ids
  ids' : t'.ids = P.ids'
  nodes : ∀ {a b}, P.twins a b → ∃ n n', t.node? a = some n ∧ t'.node? b = some n' ∧ n.Twin P n'
  entries : t'.blackboard.entries = t.blackboard.entries
  rng : t'.rng = t.rng
  seed : t'.seed = t.seed
  owner : t'.owner = t.owner

namespace Tree

/-! ### Settings -/

/-- Where every link of a node is also one of its partner's, what a root leads to has a partner that
the other root leads to. -/
theorem exists_partner {R : NodeId → NodeId → Prop} (hroot : R t.root t'.root)
    (hlinks : ∀ {p q c}, R p q → t.Links p c → t.contains c → ∃ d, R c d ∧ t'.Links q d)
    {id : NodeId} (hid : id ∈ t.reachable) : ∃ d, R id d ∧ t'.Reaches t'.root d := by
  obtain ⟨hreaches, hlive⟩ := mem_reachable_iff.mp hid
  clear hid
  -- The partner of a node on the way has a link for the next one.
  induction hreaches with
  | refl => exact ⟨t'.root, hroot, .refl⟩
  | tail _ hlink ih =>
    obtain ⟨n, hn, -⟩ := hlink.exists_node
    obtain ⟨q, hpq, hq⟩ := ih (by simp [contains, hn])
    obtain ⟨d, hcd, hlink'⟩ := hlinks hpq hlink hlive
    exact ⟨d, hcd, hq.tail hlink'⟩

namespace Twin

variable (h : t.Twin P t')

include h

/-- The live links of twins lead to twins, from the first tree to the second. -/
theorem links {p q c : NodeId} (hpq : P.twins p q) (hlink : t.Links p c) (hlive : t.contains c) :
    ∃ d, P.twins c d ∧ t'.Links q d := by
  obtain ⟨n, n', hn, hn', htwin⟩ := h.nodes hpq
  unfold Links at hlink ⊢
  rw [children_of_node? hn] at hlink
  rw [children_of_node? hn']
  obtain ⟨d, hd, hcd⟩ := exists_of_mem_right htwin.kind.links.flip hlink
  have hc : c ∈ P.ids := h.ids ▸ contains_iff.mp hlive
  exact ⟨d, hcd.resolve_right fun hlost => hlost.1 hc, hd⟩

/-- And back. -/
theorem links_back {p q d : NodeId} (hpq : P.twins p q) (hlink : t'.Links q d)
    (hlive : t'.contains d) : ∃ c, P.twins c d ∧ t.Links p c := by
  obtain ⟨n, n', hn, hn', htwin⟩ := h.nodes hpq
  unfold Links at hlink ⊢
  rw [children_of_node? hn'] at hlink
  rw [children_of_node? hn]
  obtain ⟨c, hc, hcd⟩ := exists_of_mem_right htwin.kind.links hlink
  have hd : d ∈ P.ids' := h.ids' ▸ contains_iff.mp hlive
  exact ⟨c, hcd.resolve_right fun hlost => hlost.2 hd, hc⟩

/-- Twins are reachable or not together. -/
theorem reachable {a b : NodeId} (hab : P.twins a b) : a ∈ t.reachable ↔ b ∈ t'.reachable := by
  constructor
  · intro ha
    obtain ⟨d, had, hreaches⟩ := exists_partner h.root h.links ha
    obtain rfl : b = d := (P.unique hab had).mp rfl
    exact mem_reachable_iff.mpr ⟨hreaches, contains_iff.mpr (h.ids' ▸ (P.live hab).2)⟩
  · intro hb
    obtain ⟨c, hcb, hreaches⟩ := exists_partner (R := flip P.twins) h.root h.links_back hb
    obtain rfl : a = c := (P.unique hab hcb).mpr rfl
    exact mem_reachable_iff.mpr ⟨hreaches, contains_iff.mpr (h.ids ▸ (P.live hab).1)⟩

theorem setSeed (seed : UInt64) : (t.setSeed seed).Twin P (t'.setSeed seed) := by
  refine ⟨h.root, h.ids, h.ids', h.nodes, h.entries, ?_, rfl, h.owner⟩
  change choiceRng seed t'.owner = choiceRng seed t.owner
  rw [h.owner]

theorem setOwner (agent : AgentHandle) : (t.setOwner agent).Twin P (t'.setOwner agent) := by
  let hand (t : Tree H) (n : Node H) : Node H :=
    if n.id ∈ t.reachable then { n with owner := some agent, blackboard := some t.blackboard.id }
    else n
  have hkeep (t : Tree H) (n : Node H) : (hand t n).id = n.id := by
    unfold hand
    split
    · rfl
    · rfl
  have hnode (t : Tree H) (id : NodeId) :
      (t.setOwner agent).node? id = (t.node? id).map (hand t) := node?_map (hkeep t) rfl id
  refine ⟨h.root, (ids_map (hkeep t) rfl).trans h.ids, (ids_map (hkeep t') rfl).trans h.ids', ?_,
    h.entries, ?_, h.seed, rfl⟩
  · intro a b hab
    obtain ⟨n, n', hn, hn', htwin⟩ := h.nodes hab
    rw [hnode, hnode, hn, hn']
    refine ⟨hand t n, hand t' n', rfl, rfl, ?_⟩
    -- Either both nodes are handed over or none.
    have hsame : n.id ∈ t.reachable ↔ n'.id ∈ t'.reachable := h.reachable htwin.id
    unfold hand
    by_cases hmine : n.id ∈ t.reachable
    · rw [if_pos hmine, if_pos (hsame.mp hmine)]
      exact ⟨htwin.id, htwin.guid, htwin.kind, htwin.alwaysCheck, rfl, htwin.running⟩
    · rw [if_neg hmine, if_neg fun hmine' => hmine (hsame.mpr hmine')]
      exact htwin
  · change choiceRng t'.seed (some agent) = choiceRng t.seed (some agent)
    rw [h.seed]

theorem configure (settings : List Setting) :
    (t.configure settings).Twin P (t'.configure settings) := by
  induction settings generalizing t t' with
  | nil => exact h
  | cons setting settings ih =>
    cases setting with
    | seed seed => exact ih (h.setSeed seed)
    | owner agent => exact ih (h.setOwner agent)

end Twin

/-! ### Ticks -/

/-- Going deeper than there are nodes makes no difference to a tick. -/
theorem tick_deeper (t : Tree H) (frame : TickContext) (world : H.World) (audience : H.Audience)
    {depth : Nat} (hdepth : t.size < depth) :
    updateNode frame depth [] t.root (t.stage world audience) =
      updateNode frame t.size [] t.root (t.stage world audience) := by
  -- A path never holds a node twice, so what is answered for lack of depth is never asked for.
  let exhausted (path : List NodeId) (id : NodeId) : Ticking H Status :=
    asking path id (unresolved id)
  have hsame (depth : Nat) (path : List NodeId) (id : NodeId) :
      updateNodeElse exhausted frame depth path id = updateNode frame depth path id := by
    induction depth generalizing path id with
    | zero => rfl
    | succ depth ih =>
      unfold updateNodeElse updateNode
      rw [funext fun c => ih (id :: path) c]
  have hidle : (idle t.ids []).length = t.size := by simp [idle, Tree.ids, Tree.size]
  have hrun := (updateNodeElse_sameOn exhausted frame t.root (hidle ▸ hdepth)
    (Nat.le_of_eq hidle) (t.stage world audience) rfl).1
  rwa [hsame] at hrun

theorem Twin.stage (h : t.Twin P t') {world world' : H.World} (hworld : worlds world world')
    (audience audience' : H.Audience) :
    (t.stage world audience).Twin P worlds (t'.stage world' audience') :=
  ⟨h.ids, h.ids', h.nodes, h.entries, h.rng, hworld⟩

/-- What the same computation does to two trees that run alike. -/
structure RunAlike (P : Pairing) (worlds : H.World → H.World → Prop)
    (r r' : Ticked H × List Status) : Prop where
  statuses : r'.2 = r.2
  told : r'.1.trace.told = r.1.trace.told
  world : worlds r.1.world r'.1.world
  tree : r.1.tree.Twin P r'.1.tree

theorem Twin.tick (h : t.Twin P t') (hH : H.IdBlind worlds) (frame : TickContext)
    {world world' : H.World} (hworld : worlds world world') (audience audience' : H.Audience) :
    RunAlike P worlds (t.tick frame world audience, [(t.tick frame world audience).tree.status])
      (t'.tick frame world' audience', [(t'.tick frame world' audience').tree.status]) := by
  -- The deeper of the two ticks is deep enough for both.
  let depth := t.size+t'.size+1
  have hrun := t.tick_deeper frame world audience (show t.size < depth by omega)
  have hrun' := t'.tick_deeper frame world' audience' (show t'.size < depth by omega)
  have hecho := updateNode_echoes hH frame depth .nil (Or.inl h.root)
    (t.stage world audience) (t'.stage world' audience') (h.stage hworld audience audience')
  rw [hrun, hrun'] at hecho
  obtain ⟨hanswer, hstage, htold⟩ := hecho
  obtain ⟨hentries, hrng, hworld⟩ := hstage.shared
  refine ⟨?_, htold, hworld, ?_⟩
  · exact congrArg (fun status => [status]) hanswer.symm
  · exact ⟨h.root, hstage.ids, hstage.ids', hstage.nodes, hentries, hrng, h.seed, h.owner⟩

theorem Twin.run (h : t.Twin P t') (hH : H.IdBlind worlds) {world world' : H.World}
    (hworld : worlds world world') (audience audience' : H.Audience) (frames : List TickContext) :
    RunAlike P worlds (t.run world audience frames) (t'.run world' audience' frames) := by
  induction frames generalizing t t' world world' audience audience' with
  | nil => exact ⟨rfl, rfl, hworld, h⟩
  | cons frame frames ih =>
    have hfirst := h.tick hH frame hworld audience audience'
    have hrest := ih hfirst.tree hfirst.world (t.tick frame world audience).audience
      (t'.tick frame world' audience').audience
    refine ⟨?_, ?_, hrest.world, hrest.tree⟩
    · exact congrArg₂ (· ++ ·) hfirst.statuses hrest.statuses
    · change Trace.told (_ ++ _) = Trace.told (_ ++ _)
      rw [Trace.told_append, Trace.told_append, hfirst.told, hrest.told]

theorem Twin.account (h : t.Twin P t') (hH : H.IdBlind worlds) {world world' : H.World}
    (hworld : worlds world world') (audience audience' : H.Audience) (frames : List TickContext) :
    t'.account world' audience' frames = t.account world audience frames := by
  have hrun := h.run hH hworld audience audience' frames
  exact Account.ext hrun.statuses hrun.told hrun.tree.entries hrun.tree.rng

end Tree

end BehaviourTree
