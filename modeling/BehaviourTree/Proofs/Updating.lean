import BehaviourTree.Proofs.Ticking

/-!
What the update of a node does, given what the updates do that it asks for.
-/

namespace BehaviourTree

open Ticking

variable {H : Host} {P : (α : Type) → Ticking H α → Ticking H α → Prop} {id : NodeId}
  {ask ask' : NodeId → Ticking H Status}

/-! ### Composites -/

theorem pollGuards_congr (hP : Compositional P) (guards : List NodeId)
    (hask : ∀ c ∈ guards, P Status (ask c) (ask' c)) :
    P Bool (pollGuards ask guards) (pollGuards ask' guards) := by
  induction guards with
  | nil => exact hP.pure true
  | cons g guards ih =>
    obtain ⟨hg, hguards⟩ := List.forall_mem_cons.mp hask
    refine hP.bind hg fun answer => ?_
    cases answer with
    | success => exact ih hguards
    | fail => exact hP.pure false
    | running => exact hP.bind (hP.warn trivial) fun _ => hP.pure false

theorem Series.advance_congr (hP : Compositional P) (pass : Status) (s : Series)
    (hask : ∀ c ∈ s.children, P Status (ask c) (ask' c)) :
    P (Status × Series) (s.advance ask pass) (s.advance ask' pass) := by
  unfold Series.advance
  split
  · exact hP.pure _
  next child hchild =>
    refine hP.bind (hask child (List.mem_of_getElem? hchild)) fun answer => ?_
    split
    · exact hP.pure _
    · exact hP.pure _

theorem Series.update_congr (hP : Compositional P) (pass : Status) {empty : Warning}
    (hempty : empty.OfControl) (s : Series)
    (hask : ∀ c ∈ s.children ++ s.guards, P Status (ask c) (ask' c)) :
    P (Status × Series) (s.update ask pass empty) (s.update ask' pass empty) := by
  obtain ⟨hchildren, hguards⟩ := List.forall_mem_append.mp hask
  unfold Series.update
  split
  · exact hP.bind (hP.warn hempty) fun _ => hP.pure _
  · refine hP.bind (pollGuards_congr hP s.guards hguards) fun holds => ?_
    split
    · exact Series.advance_congr hP pass s hchildren
    · exact hP.pure _

theorem updateAll_congr (hP : Compositional P) (children : List NodeId) (result : Status)
    (hask : ∀ c ∈ children, P Status (ask c) (ask' c)) :
    P Status (updateAll ask children result) (updateAll ask' children result) := by
  induction children generalizing result with
  | nil => exact hP.pure result
  | cons c children ih =>
    obtain ⟨hc, hchildren⟩ := List.forall_mem_cons.mp hask
    refine hP.bind hc fun answer => ?_
    cases answer with
    | success => exact ih result hchildren
    | running => exact ih .running hchildren
    | fail => exact hP.pure Status.fail

theorem pickChild_congr (hP : Compositional P) (hdraw : P UInt32 draw32 draw32)
    (children : List NodeId) : P (Option NodeId) (pickChild children) (pickChild children) := by
  unfold pickChild
  split
  · exact hP.bind (hP.warn trivial) fun _ => hP.pure none
  · exact hP.bind hdraw fun _ => hP.pure _

/-! ### Nodes -/

namespace NodeKind

/-- The child that a random choice has picked. -/
def pinned? : NodeKind H → Option NodeId
  | randomChoice _ selected => selected
  | _ => none

/-- The identifiers that a node keeps, each for a node that it may ask. -/
def kept (k : NodeKind H) : List NodeId := k.links ++ k.guards ++ k.pinned?.toList

/-- To begin a run, a leaf is called or a child is drawn. -/
theorem enter_congr {context : LeafContext} (hP : Compositional P)
    (hdraw : P UInt32 draw32 draw32)
    (hleaf : ∀ a, P (Unit × H.Action) (leaf context.node (fun _ => .enter) (H.enter context a))
      (leaf context.node (fun _ => .enter) (H.enter context a)))
    (flagged : NodeId → Bool) (k : NodeKind H) :
    P (NodeKind H) (k.enter context flagged) (k.enter context flagged) := by
  cases k with
  | action a => exact hP.bind (hleaf a) fun _ => hP.pure _
  | randomChoice cs _ => exact hP.bind (pickChild_congr hP hdraw cs) fun _ => hP.pure _
  | root _ | condition _ | repeater _ | sequence _ | selector _ | parallel _ => exact hP.pure _

theorem settle_congr {context : LeafContext} (hP : Compositional P)
    (hleaf : ∀ a, P (Unit × H.Action) (leaf context.node (fun _ => .exit) (H.exit context a))
      (leaf context.node (fun _ => .exit) (H.exit context a)))
    (status : Status) (k : NodeKind H) :
    P (NodeKind H) (k.settle context status) (k.settle context status) := by
  unfold settle
  split
  · cases k with
    | action a => exact hP.bind (hleaf a) fun _ => hP.pure _
    | root _ | condition _ | repeater _ | sequence _ | selector _ | parallel _
    | randomChoice _ _ => exact hP.pure _
  · exact hP.pure k

/-- A control node does nothing but warn and ask, and asks what it keeps. -/
theorem updateControl_congr {context : LeafContext} (hP : Compositional P) {k : NodeKind H}
    (hask : ∀ c ∈ k.kept, P Status (ask c) (ask' c)) (hk : k.shape ≠ .noChildren) :
    P (Status × NodeKind H) (k.update context ask) (k.update context ask') := by
  cases k with
  | action a => exact absurd rfl hk
  | condition c => exact absurd rfl hk
  | root child | repeater child =>
    cases child with
    | none => exact hP.bind (hP.warn trivial) fun _ => hP.pure _
    | some c => exact hP.bind (hask c List.mem_cons_self) fun _ => hP.pure _
  | sequence s | selector s =>
    refine hP.bind (s.update_congr hP _ (by trivial) fun c hc => ?_) fun _ => hP.pure _
    exact hask c (List.mem_append_left _ hc)
  | parallel cs =>
    refine hP.bind (updateAll_congr hP cs _ fun c hc => ?_) fun _ => hP.pure _
    exact hask c (List.mem_append_left _ (List.mem_append_left _ hc))
  | randomChoice cs selected =>
    cases selected with
    | none => exact hP.pure _
    | some c =>
      exact hP.bind (hask c (List.mem_append_right _ List.mem_cons_self)) fun _ => hP.pure _

/-- A leaf is called, and a control node asks. -/
theorem update_congr {context : LeafContext} (hP : Compositional P)
    (haction : ∀ a, P (Status × H.Action) (leaf context.node .update (H.update context a))
      (leaf context.node .update (H.update context a)))
    (hcondition : ∀ c, P (Bool × H.Condition) (leaf context.node .check (H.check context c))
      (leaf context.node .check (H.check context c)))
    (k : NodeKind H) (hask : ∀ c ∈ k.kept, P Status (ask c) (ask' c)) :
    P (Status × NodeKind H) (k.update context ask) (k.update context ask') := by
  cases k with
  | action a => exact hP.bind (haction a) fun _ => hP.pure _
  | condition c => exact hP.bind (hcondition c) fun _ => hP.pure _
  | root _ | repeater _ | sequence _ | selector _ | parallel _ | randomChoice _ _ =>
    exact updateControl_congr hP hask nofun

theorem enter_own (context : LeafContext) (flagged : NodeId → Bool) (k : NodeKind H) :
    Own context.node (k.enter context flagged) :=
  @enter_congr H (fun _ m _ => Own context.node m) context (own_compositional _) own_draw32
    (fun _ => own_leaf _ _) flagged k

theorem settle_own (context : LeafContext) (status : Status) (k : NodeKind H) :
    Own context.node (k.settle context status) :=
  @settle_congr H (fun _ m _ => Own context.node m) context (own_compositional _)
    (fun _ => own_leaf _ _) status k

end NodeKind

namespace Node

theorem begin_own {context : LeafContext} (n : Node H) (hn : context.node = n.id)
    (flagged : Stage H → NodeId → Bool) : Own n.id (n.begin context flagged) := by
  unfold Node.begin
  split
  · exact own_pure _
  · refine own_bind (own_emit rfl) fun _ => own_bind own_stage fun s => ?_
    exact hn ▸ n.kind.enter_own context (flagged s)

theorem update_congr (frame : TickContext) (flagged : Stage H → NodeId → Bool) (n : Node H)
    (hP : Congruent n.id P) (hask : ∀ c, P Status (ask c) (ask' c)) :
    P (Status × Node H) (n.update frame flagged ask) (n.update frame flagged ask') := by
  -- Only the update of the kind asks; entry, announcement and exit are the node's own.
  refine hP.bind (hP.own (n.begin_own rfl flagged)) fun kind => ?_
  refine hP.bind (kind.update_congr hP.compositional (fun _ => hP.own (own_leaf _ _))
    (fun _ => hP.own (own_leaf _ _)) fun c _ => hask c) fun answer => ?_
  obtain ⟨status, kind⟩ := answer
  refine hP.bind (hP.own (own_announce rfl n.observers)) fun observers => ?_
  refine hP.bind (hP.own (kind.settle_own ⟨frame, n.id, n.owner⟩ status)) fun _ => ?_
  exact hP.own (own_pure _)

/-- A node keeps what the updates that it asks for keep. -/
theorem update_keeps {R : Stage H → Trace H → Stage H → Prop} (frame : TickContext)
    (flagged : Stage H → NodeId → Bool) (n : Node H) (hR : Steady n.id R)
    (hask : ∀ c, Keeps R (ask c)) : Keeps R (n.update frame flagged ask) := by
  have h := @update_congr H (fun _ m _ => Keeps R m) ask ask frame flagged n hR.congruent
  exact h hask

end Node

/-! ### Looking nodes up -/

section Lookup

variable (nodes : List (Node H))

/-- A node that takes the place of another with its identifier is found there, and others are found
as before. -/
theorem find?_replace (n : Node H) (id : NodeId) :
    (nodes.map fun m => if m.id = n.id then n else m).find? (·.id = id) =
      if id = n.id then (nodes.find? (·.id = id)).map fun _ => n else nodes.find? (·.id = id) := by
  -- What is put in the place of a node has its identifier, so the search ends where it did.
  have hkeys : ((fun m : Node H => decide (m.id = id)) ∘ fun m => if m.id = n.id then n else m) =
      fun m => decide (m.id = id) := by
    funext m
    by_cases hm : m.id = n.id
    · simp [hm]
    · simp [hm]
  rw [List.find?_map, hkeys]
  cases hfind : nodes.find? fun m => decide (m.id = id) with
  | none => simp
  | some m =>
    have hm : m.id = id := by simpa using List.find?_some hfind
    by_cases hid : id = n.id
    · simp [hm, hid]
    · simp [hm, hid]

theorem find?_without (gone id : NodeId) :
    (nodes.filter (·.id ≠ gone)).find? (·.id = id) =
      if id = gone then none else nodes.find? (·.id = id) := by
  rw [List.find?_filter]
  by_cases hid : id = gone
  · rw [if_pos hid, List.find?_eq_none]
    intro m _
    simp [hid]
  · have hsame : (fun m : Node H => decide ((decide (m.id ≠ gone)) = true ∧
        (decide (m.id = id)) = true)) = fun m => decide (m.id = id) := by
      funext m
      by_cases hm : m.id = id
      · simp [hm, hid]
      · simp [hm]
    rw [if_neg hid, hsame]

end Lookup

/-! ### The step from a node to the nodes below it -/

section Step

variable {path : List NodeId} {s : Stage H} {n : Node H}

/-- What a question leaves in the trace when it leads nowhere. -/
def refusal (path : List NodeId) (id : NodeId) : Trace H :=
  [.asked path.head? id, .warning (.unresolved id), .answered path.head? id .fail]

/-- The update that a question leads to. -/
abbrev stepUpdate (frame : TickContext) (path : List NodeId) (ask : NodeId → Ticking H Status)
    (n : Node H) : Ticking H (Status × Node H) :=
  n.update frame (fun s c => s.isGuard (n.id :: path) c) ask

theorem updateStep_none (frame : TickContext) (ask : NodeId → Ticking H Status)
    (h : s.find? path id = none) :
    updateStep frame path id ask s = ⟨.fail, s, refusal path id⟩ := by
  simp [updateStep, asking, unresolved, refusal, h]

theorem find?_some (h : s.find? path id = some n) : n ∈ s.nodes ∧ n.id = id ∧ id ∉ path := by
  unfold Stage.find? at h
  split at h
  · simp at h
  · next hid =>
    have hmem := List.mem_of_find?_eq_some h
    have heq := List.find?_some h
    exact ⟨hmem, by simpa using heq, hid⟩

theorem updateStep_some (frame : TickContext) (ask : NodeId → Ticking H Status)
    (h : s.find? path id = some n) :
    updateStep frame path id ask s =
      ⟨(stepUpdate frame path ask n s).answer.1,
        (stepUpdate frame path ask n s).stage.restore (stepUpdate frame path ask n s).answer.2,
        .asked path.head? id :: (stepUpdate frame path ask n s).trace ++
          [.answered path.head? id (stepUpdate frame path ask n s).answer.1]⟩ := by
  obtain ⟨-, rfl, -⟩ := find?_some h
  simp [updateStep, asking, stepUpdate, h]

/-- Induction over a run of updates: a family of relations, one for every path of updates in
progress, holds of all questions that are in place if it holds of those that lead nowhere, and of
those that lead to a node whose own questions keep it as far as they are in place. -/
theorem updateNode_induct_of {frame : TickContext} {A : List NodeId → NodeId → Prop}
    {R : List NodeId → Stage H → Trace H → Stage H → Prop}
    (refused : ∀ path id s, A path id → R path s (refusal path id) s)
    (found : ∀ path id s n (ask : NodeId → Ticking H Status), A path id →
      s.find? path id = some n → (∀ c, A (id :: path) c → Keeps (R (id :: path)) (ask c)) →
      R path s (updateStep frame path id ask s).trace (updateStep frame path id ask s).stage)
    (depth : Nat) {path : List NodeId} {id : NodeId} (hid : A path id) :
    Keeps (R path) (updateNode frame depth path id) := by
  induction depth generalizing path id with
  | zero =>
    intro s
    exact refused path id s hid
  | succ depth ih =>
    intro s
    cases h : s.find? path id with
    | none =>
      have hrun := updateStep_none frame (updateNode frame depth (id :: path)) h
      simp only [updateNode, hrun]
      exact refused path id s hid
    -- The questions of the node that is found are those of the longer path, with less depth.
    | some n => exact found path id s n _ hid h fun c hc => ih hc

/-- The same of all questions, wherever they lead. -/
theorem updateNode_induct {frame : TickContext}
    {R : List NodeId → Stage H → Trace H → Stage H → Prop}
    (refused : ∀ path id s, R path s (refusal path id) s)
    (found : ∀ path id s n (ask : NodeId → Ticking H Status), s.find? path id = some n →
      (∀ c, Keeps (R (id :: path)) (ask c)) →
      R path s (updateStep frame path id ask s).trace (updateStep frame path id ask s).stage)
    (depth : Nat) (path : List NodeId) (id : NodeId) :
    Keeps (R path) (updateNode frame depth path id) := by
  apply updateNode_induct_of (A := fun _ _ => True) (R := R)
  · exact fun path id s _ => refused path id s
  · exact fun path id s n ask _ hfind hask => found path id s n ask hfind fun c => hask c trivial
  · trivial

end Step

end BehaviourTree
