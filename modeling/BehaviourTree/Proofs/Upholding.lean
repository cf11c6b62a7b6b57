import BehaviourTree.Proofs.Profile

/-!
What leaves keep up in the contexts that they are called in, a tick keeps up: nothing but leaves
touches the blackboard and the world.
-/

namespace BehaviourTree

open Ticking

variable {H : Host} {α β : Type}

/-- A fact about the blackboard and the world of some shared state. -/
abbrev Host.Holds (I : Blackboard H.Value → H.World → Prop) (s : H.Shared) : Prop :=
  I s.blackboard s.world

/-- No call of a leaf in the context breaks a fact about the blackboard and the world. -/
structure Host.Upholds (H : Host) (I : Blackboard H.Value → H.World → Prop) (c : LeafContext) :
    Prop where
  enter : ∀ a s, Holds I s → Holds I (H.enter c a s).shared
  update : ∀ a s, Holds I s → Holds I (H.update c a s).shared
  exit : ∀ a s, Holds I s → Holds I (H.exit c a s).shared
  check : ∀ a s, Holds I s → Holds I (H.check c a s).shared

namespace Ticking

/-- What holds of the stage before the computation holds of the stage after it. -/
def Sustains (J : Stage H → Prop) (m : Ticking H α) : Prop := ∀ s, J s → J (m s).stage

section Sustains

variable {J : Stage H → Prop}

theorem sustains_pure (a : α) : Sustains J (pure a) := fun _ h => h

theorem sustains_bind {m : Ticking H α} {f : α → Ticking H β} (hm : Sustains J m)
    (hf : ∀ a, Sustains J (f a)) : Sustains J (m >>= f) :=
  fun s h => hf (m s).answer (m s).stage (hm s h)

theorem sustains_stage : Sustains (H := H) J stage := fun _ h => h

theorem sustains_emit (i : TraceItem H) : Sustains J (emit i) := fun _ h => h

theorem sustains_compositional (J : Stage H → Prop) : Compositional fun _ m _ => Sustains J m :=
  ⟨sustains_bind, sustains_pure, fun _ => sustains_emit _⟩

end Sustains

/-- The fact holds, and every node on the stage is one of those meant. -/
def Standing (I : Blackboard H.Value → H.World → Prop) (C : Profile → Prop) (s : Stage H) : Prop :=
  Host.Holds I s.shared ∧ ∀ n ∈ s.nodes, C n.profile

section Standing

variable {I : Blackboard H.Value → H.World → Prop} {C : Profile → Prop} {context : LeafContext}

theorem standing_setRng {s : Stage H} (rng : SplitMix64) (h : Standing I C s) :
    Standing I C (s.setRng rng) := h

theorem standing_draw32 : Sustains (H := H) (Standing I C) draw32 := by
  intro s h
  rw [draw32_run]
  exact standing_setRng _ h

theorem standing_tellAll (e : StatusEvent) (os : List H.Observer) :
    Sustains (Standing I C) (tellAll e os) := by
  induction os with
  | nil => exact sustains_pure []
  | cons o os ih =>
    have htell : Sustains (Standing I C) (tell e o) := fun _ h => h
    exact sustains_bind htell fun _ => sustains_bind ih fun _ => sustains_pure _

theorem standing_announce (e : StatusEvent) (own : List H.Observer) :
    Sustains (Standing I C) (announce e own) := by
  refine sustains_bind (sustains_emit _) fun _ => sustains_bind (standing_tellAll e own) fun _ => ?_
  refine sustains_bind sustains_stage fun s =>
    sustains_bind (standing_tellAll e s.observers) fun everyone => ?_
  have hedit : Sustains (Standing I C)
      (edit fun s : Stage H => { s with observers := everyone }) := fun _ h => h
  exact sustains_bind hedit fun _ => sustains_pure _

theorem standing_leaf {Leaf : Type} (node : NodeId) (hook : α → LeafHook)
    {call : H.Shared → LeafStep Leaf H.Shared H.Note α}
    (hcall : ∀ s, Host.Holds I s → Host.Holds I (call s).shared) :
    Sustains (Standing I C) (leaf node hook call) :=
  fun s h => ⟨hcall s.shared h.1, h.2⟩

end Standing

end Ticking

section Standing

variable {I : Blackboard H.Value → H.World → Prop} {C : Profile → Prop} {context : LeafContext}

namespace NodeKind

theorem enter_sustains (hleaf : H.Upholds I context) (flagged : NodeId → Bool) (k : NodeKind H) :
    Sustains (Standing I C) (k.enter context flagged) :=
  @enter_congr H (fun _ m _ => Sustains (Standing I C) m) context (sustains_compositional _)
    standing_draw32 (fun a => standing_leaf _ _ (hleaf.enter a)) flagged k

theorem update_sustains (hleaf : H.Upholds I context) {ask : NodeId → Ticking H Status}
    (hask : ∀ c, Sustains (Standing I C) (ask c)) (k : NodeKind H) :
    Sustains (Standing I C) (k.update context ask) :=
  @update_congr H (fun _ m _ => Sustains (Standing I C) m) ask ask context
    (sustains_compositional _) (fun a => standing_leaf _ _ (hleaf.update a))
    (fun c => standing_leaf _ _ (hleaf.check c)) k fun c _ => hask c

theorem settle_sustains (hleaf : H.Upholds I context) (status : Status) (k : NodeKind H) :
    Sustains (Standing I C) (k.settle context status) :=
  @settle_congr H (fun _ m _ => Sustains (Standing I C) m) context (sustains_compositional _)
    (fun a => standing_leaf _ _ (hleaf.exit a)) status k

end NodeKind

/-- A node calls its leaf in no context but its own. -/
theorem Node.update_sustains {frame : TickContext} {n : Node H}
    (hleaf : H.Upholds I ⟨frame, n.id, n.owner⟩) (flagged : Stage H → NodeId → Bool)
    {ask : NodeId → Ticking H Status} (hask : ∀ c, Sustains (Standing I C) (ask c)) :
    Sustains (Standing I C) (n.update frame flagged ask) := by
  have hbegin : Sustains (Standing I C) (n.begin ⟨frame, n.id, n.owner⟩ flagged) := by
    unfold Node.begin
    split
    · exact sustains_pure _
    · exact sustains_bind (sustains_emit _) fun _ => sustains_bind sustains_stage fun s =>
        n.kind.enter_sustains hleaf (flagged s)
  refine sustains_bind hbegin fun kind => ?_
  refine sustains_bind (kind.update_sustains hleaf hask) fun answer => ?_
  refine sustains_bind (standing_announce _ _) fun _ => ?_
  exact sustains_bind (answer.2.settle_sustains hleaf answer.1) fun _ => sustains_pure _

/-- Updates keep a fact that is upheld in the context of every node on the stage. -/
theorem updateNode_sustains {frame : TickContext}
    (hleaves : ∀ p : Profile, C p → H.Upholds I ⟨frame, p.id, p.owner⟩) (depth : Nat)
    (path : List NodeId) (id : NodeId) :
    Sustains (Standing I C) (updateNode (H := H) frame depth path id) := by
  apply updateNode_induct (R := fun _ s _ s' => Standing I C s → Standing I C s')
  · exact fun _ _ _ h => h
  · intro path id s n ask hfind hask h
    obtain ⟨hmem, rfl, -⟩ := find?_some hfind
    have hn : C n.profile := h.2 n hmem
    have hupdate : Sustains (Standing I C) (stepUpdate frame path ask n) :=
      n.update_sustains (hleaves n.profile hn) _ hask
    have hafter := hupdate s h
    rw [updateStep_some frame ask hfind]
    -- What is put back is the node that was found, for all that its profile tells.
    refine ⟨hafter.1, fun m hm => ?_⟩
    obtain ⟨m', hm', rfl⟩ := List.mem_map.mp hm
    split
    · rw [n.update_profile frame _ ask s]
      exact hn
    · exact hafter.2 m' hm'

end Standing

/-- A tick keeps every fact about the blackboard and the world that leaves uphold in the contexts of
the nodes of the tree. Every node keeps a profile that there was before. -/
theorem Tree.tick_upholds (t : Tree H) (frame : TickContext) (world : H.World)
    (audience : H.Audience) {I : Blackboard H.Value → H.World → Prop}
    (hleaves : ∀ n ∈ t.nodes, H.Upholds I ⟨frame, n.id, n.owner⟩) (hbefore : I t.blackboard world) :
    let r := t.tick frame world audience
    I r.tree.blackboard r.world ∧ ∀ n' ∈ r.tree.nodes, ∃ n ∈ t.nodes, n'.profile = n.profile := by
  let C (p : Profile) : Prop := ∃ n ∈ t.nodes, p = n.profile
  have hcontexts : ∀ p : Profile, C p → H.Upholds I ⟨frame, p.id, p.owner⟩ := by
    rintro p ⟨n, hn, rfl⟩
    exact hleaves n hn
  have hstanding : Standing I C (t.stage world audience) := ⟨hbefore, fun n hn => ⟨n, hn, rfl⟩⟩
  exact updateNode_sustains hcontexts t.size [] t.root (t.stage world audience) hstanding

end BehaviourTree
