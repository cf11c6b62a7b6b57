import BehaviourTree.Tick.Update

/-!
How to reason about a tick: relations between the stage before a computation, its trace and the
stage after it, which hold of a node's update as soon as they hold of the updates it asks for.
-/

namespace BehaviourTree

variable {H : Host} {α β : Type}

/-- What an update of the node `id` writes to the trace by itself, and not by asking others. -/
def TraceItem.OwnTo (id : NodeId) : TraceItem H → Prop
  | .asked _ _ | .answered _ _ _ => False
  | .entered node | .called node _ => node = id
  | .event e => e.node = id
  | .warning w => ∀ child, w ≠ .unresolved child
  | .note _ => True

/-- A control node may warn of itself: it is not what finds a child missing or an observer
panicking. -/
def Warning.OfControl : Warning → Prop
  | .unresolved _ | .observerPanicked _ => False
  | .rootWithoutChild | .repeatWithoutChild | .sequenceWithoutChildren | .selectorWithoutChildren
  | .choiceWithoutChildren | .guardRunning _ => True

theorem Warning.OfControl.resolved {w : Warning} (h : w.OfControl) (child : NodeId) :
    w ≠ .unresolved child := by
  rintro rfl
  exact h

@[simp]
theorem Stage.setRng_nodes (s : Stage H) (rng : SplitMix64) : (s.setRng rng).nodes = s.nodes := rfl

namespace Ticking

/-! ### Runs of the monad -/

@[simp]
theorem pure_run (a : α) (s : Stage H) : (pure a : Ticking H α) s = ⟨a, s, []⟩ := rfl

@[simp]
theorem bind_run (m : Ticking H α) (f : α → Ticking H β) (s : Stage H) :
    (m >>= f) s = ⟨(f (m s).answer (m s).stage).answer, (f (m s).answer (m s).stage).stage,
      (m s).trace ++ (f (m s).answer (m s).stage).trace⟩ := rfl

@[simp]
theorem stage_run (s : Stage H) : (stage : Ticking H (Stage H)) s = ⟨s, s, []⟩ := rfl

@[simp]
theorem edit_run (f : Stage H → Stage H) (s : Stage H) : edit f s = ⟨(), f s, []⟩ := rfl

@[simp]
theorem emit_run (i : TraceItem H) (s : Stage H) : emit i s = ⟨(), s, [i]⟩ := rfl

@[simp]
theorem warn_run (w : Warning) (s : Stage H) : warn w s = ⟨(), s, [.warning w]⟩ := rfl

@[simp]
theorem draw32_run (s : Stage H) : (draw32 : Ticking H UInt32) s =
    ⟨s.shared.rng.next32.1, s.setRng s.shared.rng.next32.2, []⟩ := rfl

/-! ### What a node does by itself -/

/-- The computation leaves the nodes alone and writes only what an update of `id` writes itself. -/
def Own (id : NodeId) (m : Ticking H α) : Prop :=
  ∀ s, (m s).stage.nodes = s.nodes ∧ ∀ i ∈ (m s).trace, i.OwnTo id

variable {id : NodeId}

theorem own_pure (a : α) : Own id (pure a : Ticking H α) := by
  intro s
  exact ⟨rfl, by simp⟩

theorem own_bind {m : Ticking H α} {f : α → Ticking H β} (hm : Own id m) (hf : ∀ a, Own id (f a)) :
    Own id (m >>= f) := by
  intro s
  obtain ⟨hnodes, htrace⟩ := hm s
  obtain ⟨hnodes', htrace'⟩ := hf (m s).answer (m s).stage
  refine ⟨hnodes'.trans hnodes, ?_⟩
  intro i hi
  rcases List.mem_append.mp hi with hi | hi
  · exact htrace i hi
  · exact htrace' i hi

theorem own_stage : Own id (stage : Ticking H (Stage H)) := by
  intro s
  exact ⟨rfl, by simp⟩

theorem own_emit {i : TraceItem H} (hi : i.OwnTo id) : Own id (emit i) := by
  intro s
  exact ⟨rfl, by simpa using hi⟩

theorem own_warn {w : Warning} (hw : ∀ child, w ≠ .unresolved child) :
    Own id (warn w : Ticking H Unit) := own_emit hw

theorem own_draw32 : Own id (draw32 : Ticking H UInt32) := by
  intro s
  exact ⟨s.setRng_nodes _, by simp⟩

theorem own_leaf {Leaf : Type} (hook : α → LeafHook)
    (call : H.Shared → LeafStep Leaf H.Shared H.Note α) : Own id (leaf id hook call) := by
  intro s
  refine ⟨rfl, ?_⟩
  simp [leaf, TraceItem.OwnTo]

theorem own_tell (e : StatusEvent) (o : H.Observer) : Own id (tell e o) := by
  intro s
  refine ⟨rfl, ?_⟩
  intro i hi
  rcases List.mem_append.mp hi with hi | hi
  · obtain ⟨note, _, rfl⟩ := List.mem_map.mp hi
    trivial
  · split at hi
    · obtain rfl := List.mem_singleton.mp hi
      nofun
    · simp at hi

theorem own_tellAll (e : StatusEvent) (os : List H.Observer) : Own id (tellAll e os) := by
  induction os with
  | nil => exact own_pure []
  | cons o os ih =>
    exact own_bind (own_tell e o) fun o => own_bind ih fun os => own_pure (o :: os)

theorem own_announce {e : StatusEvent} (he : e.node = id) (own : List H.Observer) :
    Own id (announce e own) := by
  refine own_bind (own_emit he) fun _ => own_bind (own_tellAll e own) fun own => ?_
  refine own_bind own_stage fun s => own_bind (own_tellAll e s.observers) fun everyone => ?_
  -- Observers belong to the stage, but they are no nodes.
  have hedit : Own id (edit fun s : Stage H => { s with observers := everyone }) := by
    intro s
    exact ⟨rfl, by simp⟩
  exact own_bind hedit fun _ => own_pure own

/-! ### Relations between computations -/

/-- A relation between computations that holds of one thing after another as soon as it holds of
both, and of answers and of what a control node warns of. -/
structure Compositional (P : (α : Type) → Ticking H α → Ticking H α → Prop) : Prop where
  bind : ∀ {α β : Type} {m m' : Ticking H α} {f f' : α → Ticking H β}, P α m m' →
    (∀ a, P β (f a) (f' a)) → P β (m >>= f) (m' >>= f')
  pure : ∀ {α : Type} (a : α), P α (pure a) (pure a)
  warn : ∀ {w : Warning}, w.OfControl → P Unit (warn w) (warn w)

/-- One that holds also of whatever the node `id` does by itself. -/
structure Congruent (id : NodeId) (P : (α : Type) → Ticking H α → Ticking H α → Prop) : Prop where
  bind : ∀ {α β : Type} {m m' : Ticking H α} {f f' : α → Ticking H β}, P α m m' →
    (∀ a, P β (f a) (f' a)) → P β (m >>= f) (m' >>= f')
  own : ∀ {α : Type} {m : Ticking H α}, Own id m → P α m m

theorem Congruent.compositional {P : (α : Type) → Ticking H α → Ticking H α → Prop}
    (hP : Congruent id P) : Compositional P :=
  ⟨hP.bind, fun a => hP.own (own_pure a), fun hw => hP.own (own_warn hw.resolved)⟩

theorem own_compositional (id : NodeId) : Compositional (H := H) fun _ m _ => Own id m :=
  ⟨own_bind, own_pure, fun hw => own_warn hw.resolved⟩

/-- Every run of the computation relates the stage before it, its trace and the stage after it. -/
def Keeps (R : Stage H → Trace H → Stage H → Prop) (m : Ticking H α) : Prop :=
  ∀ s, R s (m s).trace (m s).stage

/-- A relation that runs of one computation after another keep, and that whatever the node `id`
does by itself keeps. -/
structure Steady (id : NodeId) (R : Stage H → Trace H → Stage H → Prop) : Prop where
  append : ∀ {s τ s' τ' s''}, R s τ s' → R s' τ' s'' → R s (τ ++ τ') s''
  own : ∀ {s τ s'}, s'.nodes = s.nodes → (∀ i ∈ τ, TraceItem.OwnTo id i) → R s τ s'

theorem Steady.congruent {R : Stage H → Trace H → Stage H → Prop} (hR : Steady id R) :
    Congruent id fun _ m _ => Keeps R m := by
  refine ⟨?_, ?_⟩
  · intro _ _ m _ f _ hm hf s
    exact hR.append (hm s) (hf (m s).answer (m s).stage)
  · intro _ m hm s
    exact hR.own (hm s).1 (hm s).2

/-- Every answer of the computation has a property. -/
def Answers (P : α → Prop) (m : Ticking H α) : Prop := ∀ s, P (m s).answer

theorem answers_pure {P : α → Prop} {a : α} (ha : P a) : Answers P (pure a : Ticking H α) :=
  fun _ => ha

theorem answers_any (m : Ticking H α) : Answers (fun _ => True) m := fun _ => trivial

theorem answers_bind {P : β → Prop} {Q : α → Prop} {m : Ticking H α} {f : α → Ticking H β}
    (hm : Answers Q m) (hf : ∀ a, Q a → Answers P (f a)) : Answers P (m >>= f) := by
  intro s
  exact hf (m s).answer (hm s) (m s).stage

/-- What follows a computation has to keep a relation only for the answers that there are. -/
theorem keeps_bind {id : NodeId} {R : Stage H → Trace H → Stage H → Prop} {Q : α → Prop}
    {m : Ticking H α} {f : α → Ticking H β} (hR : Steady id R) (hm : Keeps R m)
    (hanswers : Answers Q m) (hf : ∀ a, Q a → Keeps R (f a)) : Keeps R (m >>= f) := by
  intro s
  exact hR.append (hm s) (hf (m s).answer (hanswers s) (m s).stage)

end Ticking

end BehaviourTree
