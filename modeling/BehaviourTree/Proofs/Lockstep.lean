import BehaviourTree.Proofs.Updating

/-!
Two computations in lockstep: on stages that go together they come to answers that go together,
write traces that go together, and leave stages that go together again.
-/

namespace BehaviourTree

open Ticking

/-- What two trees share among their leaves differs in the name of the blackboard at most, and
outside of the trees as `worlds` allows. -/
structure Shared.Alike {ι World : Type} {V : ι → Type} (worlds : World → World → Prop)
    (s s' : Shared V World) : Prop where
  entries : s'.blackboard.entries = s.blackboard.entries
  rng : s'.rng = s.rng
  world : worlds s.world s'.world

/-- Two calls of leaves answer, and leave their leaves, as the relations say, and what leaves share
is alike after them if it was before. -/
structure LeafStep.Related {ι World Leaf Note α : Type} {V : ι → Type}
    (worlds : World → World → Prop) (Q : α → α → Prop) (L : Leaf → Leaf → Prop)
    (r r' : LeafStep Leaf (Shared V World) Note α) : Prop where
  answer : Q r.answer r'.answer
  leaf : L r.leaf r'.leaf
  shared : r.shared.Alike worlds r'.shared

/-- Which stages of two computations go together, and which traces. What leaves share is alike on
such stages, and they go on together whatever else than nodes is changed, as long as that is so. -/
structure Accord (H : Host) (worlds : H.World → H.World → Prop) where
  stages : Stage H → Stage H → Prop
  shared : ∀ {s s'}, stages s s' → s.shared.Alike worlds s'.shared
  renew : ∀ {s s' r r'}, stages s s' → r.nodes = s.nodes → r'.nodes = s'.nodes →
    r.shared.Alike worlds r'.shared → stages r r'
  traces : Trace H → Trace H → Prop
  append : ∀ {τ τ' υ υ'}, traces τ τ' → traces υ υ' → traces (τ ++ υ) (τ' ++ υ')
  /-- Items that are passed over. -/
  hidden : TraceItem H → Prop
  note : ∀ n, hidden (.note n)
  warning : ∀ w, hidden (.warning w)
  silent : ∀ {τ τ'}, (∀ i ∈ τ, hidden i) → (∀ i ∈ τ', hidden i) → traces τ τ'

variable {H : Host} {worlds : H.World → H.World → Prop}

namespace Ticking

variable {α β γ δ : Type}

structure InStep (A : Accord H worlds) (R : α → β → Prop) (p : Play H α) (p' : Play H β) :
    Prop where
  answer : R p.answer p'.answer
  stage : A.stages p.stage p'.stage
  trace : A.traces p.trace p'.trace

/-- Wherever the two run on stages that go together, they are in step. -/
def Lockstep (A : Accord H worlds) (R : α → β → Prop) (m : Ticking H α) (m' : Ticking H β) : Prop :=
  ∀ s s', A.stages s s' → InStep A R (m s) (m' s')

variable {A : Accord H worlds} {R : α → β → Prop} {m : Ticking H α} {m' : Ticking H β}

theorem Lockstep.bind {Q : γ → δ → Prop} {f : α → Ticking H γ} {f' : β → Ticking H δ}
    (hm : Lockstep A R m m') (hf : ∀ a b, R a b → Lockstep A Q (f a) (f' b)) :
    Lockstep A Q (m >>= f) (m' >>= f') := by
  intro s s' hs
  obtain ⟨hanswer, hstage, htrace⟩ := hm s s' hs
  obtain ⟨hanswer', hstage', htrace'⟩ := hf _ _ hanswer _ _ hstage
  exact ⟨hanswer', hstage', A.append htrace htrace'⟩

theorem lockstep_pure {a : α} {b : β} (hab : R a b) : Lockstep A R (pure a) (pure b) :=
  fun _ _ hs => ⟨hab, hs, A.silent (by simp) (by simp)⟩

/-- What is known of the answers of the first computation can be used of both. -/
theorem Lockstep.and_answers {Q : α → Prop} (hm : Lockstep A R m m') (hQ : Answers Q m) :
    Lockstep A (fun a b => R a b ∧ Q a) m m' :=
  fun s s' hs => ⟨⟨(hm s s' hs).answer, hQ s⟩, (hm s s' hs).stage, (hm s s' hs).trace⟩

/-- What comes after a look at the stage may depend on what is there. -/
theorem lockstep_stage {f : Stage H → Ticking H α} {f' : Stage H → Ticking H β}
    (hf : ∀ s s', A.stages s s' → InStep A R (f s s) (f' s' s')) :
    Lockstep A R (stage >>= f) (stage >>= f') := by
  intro s s' hs
  exact hf s s' hs

/-! ### What is passed over -/

/-- The computation leaves nodes and shared state alone, and all that it writes is passed over. -/
def Quiet (A : Accord H worlds) (m : Ticking H α) : Prop :=
  ∀ s, (m s).stage.nodes = s.nodes ∧ (m s).stage.shared = s.shared ∧ ∀ i ∈ (m s).trace, A.hidden i

theorem quiet_pure (a : α) : Quiet A (pure a : Ticking H α) := fun _ => ⟨rfl, rfl, by simp⟩

theorem quiet_bind {f : α → Ticking H γ} (hm : Quiet A m) (hf : ∀ a, Quiet A (f a)) :
    Quiet A (m >>= f) := by
  intro s
  obtain ⟨hnodes, hshared, htrace⟩ := hm s
  obtain ⟨hnodes', hshared', htrace'⟩ := hf (m s).answer (m s).stage
  exact ⟨hnodes'.trans hnodes, hshared'.trans hshared, List.forall_mem_append.mpr ⟨htrace, htrace'⟩⟩

theorem quiet_emit {i : TraceItem H} (hi : A.hidden i) : Quiet A (emit i) :=
  fun _ => ⟨rfl, rfl, by simpa using hi⟩

theorem quiet_tellAll (e : StatusEvent) (os : List H.Observer) : Quiet A (tellAll e os) := by
  have htell (o : H.Observer) : Quiet A (tell e o) := by
    intro s
    refine ⟨rfl, rfl, fun i hi => ?_⟩
    -- Observers write to the log, and warn when they panic.
    rcases List.mem_append.mp hi with hi | hi
    · obtain ⟨note, -, rfl⟩ := List.mem_map.mp hi
      exact A.note note
    · split at hi
      · obtain rfl := List.mem_singleton.mp hi
        exact A.warning _
      · simp at hi
  induction os with
  | nil => exact quiet_pure []
  | cons o os ih =>
    exact quiet_bind (htell o) fun o => quiet_bind ih fun os => quiet_pure (o :: os)

theorem Quiet.lockstep (hm : Quiet A m) (hm' : Quiet A m') :
    Lockstep A (fun _ _ => True) m m' := by
  intro s s' hs
  obtain ⟨hnodes, hshared, htrace⟩ := hm s
  obtain ⟨hnodes', hshared', htrace'⟩ := hm' s'
  refine ⟨trivial, A.renew hs hnodes hnodes' ?_, A.silent htrace htrace'⟩
  rw [hshared, hshared']
  exact A.shared hs

theorem lockstep_emit {i j : TraceItem H} (hi : A.hidden i) (hj : A.hidden j) :
    Lockstep A (fun _ _ => True) (emit i) (emit j) := (quiet_emit hi).lockstep (quiet_emit hj)

theorem lockstep_warn (w w' : Warning) :
    Lockstep A (fun _ _ => True) (warn w) (warn w') :=
  lockstep_emit (A.warning w) (A.warning w')

/-- Questions and answers, where they are passed over, do not tell the two apart. -/
theorem lockstep_asking {Q : Status → Status → Prop} {m m' : Ticking H Status}
    {path path' : List NodeId} {a b : NodeId} (hasked : ∀ caller id, A.hidden (.asked caller id))
    (hanswered : ∀ caller id status, A.hidden (.answered caller id status))
    (hm : Lockstep A Q m m') : Lockstep A Q (asking path a m) (asking path' b m') := by
  refine (lockstep_emit (hasked _ _) (hasked _ _)).bind fun _ _ _ => ?_
  refine hm.bind fun status status' hstatus => ?_
  refine (lockstep_emit (hanswered _ _ _) (hanswered _ _ _)).bind fun _ _ _ => ?_
  exact lockstep_pure hstatus

/-! ### What counts -/

/-- Observers hear what happens and have no say in it. -/
theorem lockstep_announce {e e' : StatusEvent} (he : A.traces [.event e] [.event e'])
    (own own' : List H.Observer) :
    Lockstep A (fun _ _ => True) (announce e own) (announce e' own') := by
  have hevent : Lockstep A (fun _ _ => True) (emit (.event e)) (emit (.event e')) :=
    fun _ _ hs => ⟨trivial, hs, he⟩
  have hquiet (e : StatusEvent) (own : List H.Observer) : Quiet A (do
      let own ← tellAll e own
      let everyone ← tellAll e (← stage).observers
      edit fun s => { s with observers := everyone }
      pure own) := by
    refine quiet_bind (quiet_tellAll e own) fun own => ?_
    refine quiet_bind (fun _ => ⟨rfl, rfl, by simp⟩) fun s => ?_
    refine quiet_bind (quiet_tellAll e s.observers) fun everyone => ?_
    exact quiet_bind (fun _ => ⟨rfl, rfl, by simp⟩) fun _ => quiet_pure own
  exact hevent.bind fun _ _ _ => (hquiet _ own).lockstep (hquiet _ own')

theorem lockstep_draw32 : Lockstep A Eq draw32 draw32 := by
  intro s s' hs
  obtain ⟨hentries, hrng, hworld⟩ := A.shared hs
  have hset (rng : SplitMix64) : A.stages (s.setRng rng) (s'.setRng rng) :=
    A.renew hs (s.setRng_nodes rng) (s'.setRng_nodes rng) ⟨hentries, rfl, hworld⟩
  rw [draw32_run, draw32_run, hrng]
  exact ⟨rfl, hset _, A.silent (by simp) (by simp)⟩

/-- Calls go together if it is known how their answers look in a trace. -/
theorem lockstep_leaf {Leaf : Type} {Q : α → α → Prop} {L : Leaf → Leaf → Prop}
    {node node' : NodeId} {hook : α → LeafHook} {call call' : H.Shared → LeafStep Leaf H.Shared H.Note α}
    (hhook : ∀ a b, Q a b → A.traces [.called node (hook a)] [.called node' (hook b)])
    (hcall : ∀ {s s' : H.Shared}, s.Alike worlds s' → (call s).Related worlds Q L (call' s')) :
    Lockstep A (fun r r' => Q r.1 r'.1 ∧ L r.2 r'.2) (leaf node hook call)
      (leaf node' hook call') := by
  intro s s' hs
  obtain ⟨hanswer, hleaf, hshared⟩ := hcall (A.shared hs)
  refine ⟨⟨hanswer, hleaf⟩, A.renew hs rfl rfl hshared, ?_⟩
  have hnotes (notes : List H.Note) : ∀ i ∈ notes.map TraceItem.note, A.hidden i := by
    intro i hi
    obtain ⟨note, -, rfl⟩ := List.mem_map.mp hi
    exact A.note note
  exact A.append (hhook _ _ hanswer) (A.silent (hnotes _) (hnotes _))

end Ticking

end BehaviourTree
