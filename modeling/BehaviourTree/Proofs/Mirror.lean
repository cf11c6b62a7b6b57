import BehaviourTree.Proofs.Nested
import BehaviourTree.Proofs.Updating

/-!
When a computation on a stage does to the nodes there what another does to trees of their own. What
holds of parts is put together here, up to the kinds of nodes.
-/

namespace BehaviourTree

open Ticking

variable {H : Host} {α β γ δ : Type} {levels : Nat} {path : List NodeId}

/-! ### Stages -/

namespace Stage

/-- A stage without nodes. -/
def bare (s : Stage H) : Stage H := { s with nodes := [] }

def node? (s : Stage H) (id : NodeId) : Option (Node H) := s.nodes.find? (·.id = id)

theorem find?_eq_node? {s : Stage H} {id : NodeId} (h : id ∉ path) : s.find? path id = s.node? id :=
  if_neg h

theorem node?_of_nodes {s s' : Stage H} (h : s'.nodes = s.nodes) (id : NodeId) :
    s'.node? id = s.node? id := by
  simp only [node?, h]

/-- A node that is put back is found in its place, and others are where they were. -/
theorem restore_node? (s : Stage H) (n : Node H) (id : NodeId) :
    (s.restore n).node? id = if id = n.id then (s.node? id).map fun _ => n else s.node? id :=
  find?_replace s.nodes n id

end Stage

/-- The trees stand on a stage: each of their nodes is there, no two share an identifier, and no
update of any is in progress. -/
structure Fits (path : List NodeId) (s : Stage H) (trees : List (Nested H levels)) : Prop where
  holds : ∀ N ∈ trees, ∀ n ∈ N.nodes, s.node? n.id = some n
  nodup : (trees.flatMap Nested.ids).Nodup
  idle : ∀ id ∈ trees.flatMap Nested.ids, id ∉ path

/-- The trees on a stage became other trees with the same identifiers, and nothing else moved. -/
structure Moves (s s' : Stage H) (trees trees' : List (Nested H levels)) : Prop where
  ids : trees'.map Nested.ids = trees.map Nested.ids
  holds : ∀ N ∈ trees', ∀ n ∈ N.nodes, s'.node? n.id = some n
  rest : ∀ id, id ∉ trees.flatMap Nested.ids → s'.node? id = s.node? id

theorem flatMap_ids_eq {trees trees' : List (Nested H levels)}
    (h : trees'.map Nested.ids = trees.map Nested.ids) :
    trees'.flatMap Nested.ids = trees.flatMap Nested.ids := by
  rw [List.flatMap_def, List.flatMap_def, h]

theorem Moves.fits {s s' : Stage H} {trees trees' : List (Nested H levels)}
    (h : Moves s s' trees trees') (hs : Fits path s trees) : Fits path s' trees' := by
  have hids := flatMap_ids_eq h.ids
  exact ⟨h.holds, hids ▸ hs.nodup, hids ▸ hs.idle⟩

theorem Moves.trans {s s' s'' : Stage H} {trees trees' trees'' : List (Nested H levels)}
    (h : Moves s s' trees trees') (h' : Moves s' s'' trees' trees'') :
    Moves s s'' trees trees'' := by
  refine ⟨h'.ids.trans h.ids, h'.holds, ?_⟩
  intro id hid
  have hid' : id ∉ trees'.flatMap Nested.ids := by rwa [flatMap_ids_eq h.ids]
  exact (h'.rest id hid').trans (h.rest id hid)

/-! ### Computations -/

namespace Ticking

/-- The computation does not look at the nodes. -/
def Blind (m : Ticking H α) : Prop :=
  ∀ s : Stage H, m s.bare = ⟨(m s).answer, (m s).stage.bare, (m s).trace⟩

theorem blind_pure (a : α) : Blind (pure a : Ticking H α) := fun _ => rfl

theorem blind_bind {m : Ticking H α} {f : α → Ticking H β} (hm : Blind m)
    (hf : ∀ a, Blind (f a)) : Blind (m >>= f) := by
  intro s
  simp only [bind_run, hm s, hf (m s).answer (m s).stage]

theorem blind_emit (i : TraceItem H) : Blind (emit i) := fun _ => rfl

theorem blind_compositional : Compositional (H := H) fun _ m _ => Blind m :=
  ⟨blind_bind, blind_pure, fun _ => blind_emit _⟩

theorem blind_draw32 : Blind (draw32 : Ticking H UInt32) := fun _ => rfl

theorem blind_leaf {Leaf : Type} (node : NodeId) (hook : α → LeafHook)
    (call : H.Shared → LeafStep Leaf H.Shared H.Note α) : Blind (leaf node hook call) :=
  fun _ => rfl

theorem blind_tellAll (e : StatusEvent) (os : List H.Observer) : Blind (tellAll e os) := by
  induction os with
  | nil => exact blind_pure []
  | cons o os ih =>
    have htell : Blind (tell e o) := fun _ => rfl
    exact blind_bind htell fun o => blind_bind ih fun os => blind_pure (o :: os)

theorem blind_announce (e : StatusEvent) (own : List H.Observer) : Blind (announce e own) := by
  refine blind_bind (blind_emit _) fun _ => blind_bind (blind_tellAll e own) fun own => ?_
  -- The observers of the whole tree are read off the stage, and nothing else is.
  intro s
  have htell := blind_tellAll e s.observers s
  have hobservers : s.bare.observers = s.observers := rfl
  simp only [bind_run, stage_run, edit_run, pure_run, hobservers, htell]
  rfl

/-- What a run on a stage with nodes and one on trees of their own have in common: the trace, in
which every question leads to a node, whatever is not a node, and the trees, as the answer of the
second tells them. The answers agree as `agree` says. -/
structure Matches (trees : List (Nested H levels)) (after : β → List (Nested H levels))
    (agree : α → β → Prop) (s : Stage H) (p : Play H α) (p' : Play H β) : Prop where
  trace : p.trace = p'.trace
  bare : p.stage.bare = p'.stage
  resolved : ∀ c, TraceItem.warning (.unresolved c) ∉ p.trace
  moves : Moves s p.stage trees (after p'.answer)
  answer : agree p.answer p'.answer

/-- Wherever the trees stand, the first computation does to them there what the second does. -/
def Mirrors (path : List NodeId) (trees : List (Nested H levels))
    (after : β → List (Nested H levels)) (agree : α → β → Prop)
    (m : Ticking H α) (m' : Ticking H β) : Prop :=
  ∀ s, Fits path s trees → Matches trees after agree s (m s) (m' s.bare)

variable {trees : List (Nested H levels)} {after : β → List (Nested H levels)}
  {agree : α → β → Prop} {m : Ticking H α} {m' : Ticking H β}

theorem Mirrors.bind {after' : δ → List (Nested H levels)} {agree' : γ → δ → Prop}
    {f : α → Ticking H γ} {f' : β → Ticking H δ} (hm : Mirrors path trees after agree m m')
    (hf : ∀ a b, agree a b → (after b).map Nested.ids = trees.map Nested.ids →
      Mirrors path (after b) after' agree' (f a) (f' b)) :
    Mirrors path trees after' agree' (m >>= f) (m' >>= f') := by
  intro s hs
  have h := hm s hs
  -- The second part begins where the first one ends, and the trees that it moved fit there.
  have h' := hf _ _ h.answer h.moves.ids (m s).stage (h.moves.fits hs)
  rw [h.bare] at h'
  refine ⟨?_, h'.bare, ?_, h.moves.trans h'.moves, h'.answer⟩
  · simp only [bind_run, h.trace, h'.trace]
  · intro c hc
    rcases List.mem_append.mp hc with hc | hc
    · exact h.resolved c hc
    · exact h'.resolved c hc

/-- The answer of the second computation may be told in other words. -/
theorem Mirrors.map {after' : δ → List (Nested H levels)} {agree' : α → δ → Prop} {f : β → δ}
    (h : Mirrors path trees after agree m m') (hafter : ∀ b, after' (f b) = after b)
    (hagree : ∀ a b, agree a b → agree' a (f b)) :
    Mirrors path trees after' agree' m (m' >>= fun b => pure (f b)) := by
  intro s hs
  have hmatch := h s hs
  refine ⟨?_, hmatch.bare, hmatch.resolved, ?_, hagree _ _ hmatch.answer⟩
  · simp only [bind_run, pure_run, List.append_nil, hmatch.trace]
  · change Moves s _ trees (after' (f _))
    rw [hafter]
    exact hmatch.moves

theorem mirrors_pure {a : α} {b : β} (hafter : after b = trees) (hagree : agree a b) :
    Mirrors path trees after agree (pure a) (pure b) := by
  intro s hs
  refine ⟨rfl, rfl, by simp, ?_, hagree⟩
  change Moves s s trees (after b)
  rw [hafter]
  exact ⟨rfl, hs.holds, fun _ _ => rfl⟩

/-- What a node does by itself is the same on a stage without nodes. -/
theorem mirrors_own {id : NodeId} {m : Ticking H α} (hown : Own id m) (hblind : Blind m) :
    Mirrors path trees (fun _ => trees) Eq m m := by
  intro s hs
  obtain ⟨hnodes, htrace⟩ := hown s
  rw [hblind s]
  refine ⟨rfl, rfl, ?_, ⟨rfl, ?_, ?_⟩, rfl⟩
  · intro c hc
    exact htrace _ hc c rfl
  · intro N hN n hn
    exact (Stage.node?_of_nodes hnodes n.id).trans (hs.holds N hN n hn)
  · intro id _
    exact Stage.node?_of_nodes hnodes id

theorem mirrors_warn {w : Warning} (hw : ∀ child, w ≠ .unresolved child) :
    Mirrors path trees (fun _ => trees) Eq (warn w) (warn w) := by
  have hown : Own (default : NodeId) (warn w : Ticking H Unit) := own_warn hw
  exact mirrors_own hown (blind_emit _)

theorem mirrors_draw32 :
    Mirrors (H := H) path trees (fun _ => trees) Eq draw32 draw32 := by
  have hown : Own (default : NodeId) (draw32 : Ticking H UInt32) := own_draw32
  exact mirrors_own hown blind_draw32

theorem mirrors_leaf {Leaf : Type} (node : NodeId) (hook : α → LeafHook)
    (call : H.Shared → LeafStep Leaf H.Shared H.Note α) :
    Mirrors path trees (fun _ => trees) Eq (leaf node hook call) (leaf node hook call) :=
  mirrors_own (own_leaf hook call) (blind_leaf node hook call)

/-- Trees beside those that a computation works on stay what they are. -/
theorem Mirrors.beside (h : Mirrors path trees after agree m m')
    (before behind : List (Nested H levels)) :
    Mirrors path (before ++ trees ++ behind) (fun b => before ++ after b ++ behind) agree m m' := by
  intro s hs
  have hnodup := hs.nodup
  simp only [List.flatMap_append, List.nodup_append] at hnodup
  obtain ⟨⟨-, hmid, hleft⟩, -, hright⟩ := hnodup
  have hsub : ∀ N ∈ trees, N ∈ before ++ trees ++ behind := by
    intro N hN
    simp [hN]
  have hmatch := h s ⟨fun N hN => hs.holds N (hsub N hN), hmid, fun id hid => hs.idle id (by
    obtain ⟨N, hN, hid⟩ := List.mem_flatMap.mp hid
    exact List.mem_flatMap.mpr ⟨N, hsub N hN, hid⟩)⟩
  refine ⟨hmatch.trace, hmatch.bare, hmatch.resolved, ⟨?_, ?_, ?_⟩, hmatch.answer⟩
  · simp only [List.map_append, hmatch.moves.ids]
  · intro N hN n hn
    have hn' : n.id ∈ N.ids := List.mem_map_of_mem hn
    -- A node of a tree beside is none of those that moved.
    have hstay (hN : N ∈ before ++ trees ++ behind) (hout : n.id ∉ trees.flatMap Nested.ids) :
        (m s).stage.node? n.id = some n :=
      (hmatch.moves.rest n.id hout).trans (hs.holds N hN n hn)
    rcases List.mem_append.mp hN with hN | hN
    · rcases List.mem_append.mp hN with hN | hN
      · refine hstay (by simp [hN]) fun hin => ?_
        exact hleft n.id (List.mem_flatMap.mpr ⟨N, hN, hn'⟩) n.id hin rfl
      · exact hmatch.moves.holds N hN n hn
    · refine hstay (by simp [hN]) fun hin => ?_
      exact hright n.id (List.mem_append_right _ hin) n.id (List.mem_flatMap.mpr ⟨N, hN, hn'⟩) rfl
  · intro id hid
    refine hmatch.moves.rest id fun hin => hid ?_
    obtain ⟨N, hN, hin⟩ := List.mem_flatMap.mp hin
    exact List.mem_flatMap.mpr ⟨N, hsub N hN, hin⟩

end Ticking

end BehaviourTree
