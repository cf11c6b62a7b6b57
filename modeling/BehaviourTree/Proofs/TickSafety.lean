import BehaviourTree.Demo.Registry
import BehaviourTree.Proofs.Arena

/-!
A tick is safe on every graph of links, with whatever cycles, shared nodes and dead ends: it comes
to an end, no node is updated within its own update, and the nodes stay what and where they were.
-/

namespace BehaviourTree

open Ticking

variable {H : Host} {α : Type}

/-! ### The depth never runs out -/

/-- Updates like `updateNode`, with `exhausted` in place of an update that there is no depth for. -/
def updateNodeElse (exhausted : List NodeId → NodeId → Ticking H Status) (frame : TickContext) :
    Nat → List NodeId → NodeId → Ticking H Status
  | 0, path, id => exhausted path id
  | depth+1, path, id =>
    updateStep frame path id (updateNodeElse exhausted frame depth (id :: path))

namespace Ticking

/-- Two computations are the same wherever the nodes have the identifiers `ids`, which stay. -/
def SameOn (ids : List NodeId) (m m' : Ticking H α) : Prop :=
  ∀ s, s.ids = ids → m s = m' s ∧ (m s).stage.ids = ids

theorem sameOn_congruent (ids : List NodeId) (id : NodeId) :
    Congruent (H := H) id fun _ => SameOn ids := by
  refine ⟨?_, ?_⟩
  · intro _ _ m m' f f' hm hf s hs
    obtain ⟨hrun, hids⟩ := hm s hs
    -- The first parts end on one stage with one answer, from which the second parts go on.
    obtain ⟨hrun', hids'⟩ := hf (m s).answer (m s).stage hids
    refine ⟨?_, hids'⟩
    simp only [bind_run, ← hrun, ← hrun']
  · intro _ m hm s hs
    refine ⟨rfl, ?_⟩
    rw [← hs]
    exact Stage.ids_eq_of_nodes (hm s).1

end Ticking

theorem updateStep_sameOn {ids path : List NodeId} {id : NodeId} {frame : TickContext}
    {ask ask' : NodeId → Ticking H Status}
    (hask : id ∈ ids → id ∉ path → ∀ c, SameOn ids (ask c) (ask' c)) :
    SameOn ids (updateStep frame path id ask) (updateStep frame path id ask') := by
  intro s hs
  cases h : s.find? path id with
  | none =>
    rw [updateStep_none frame ask h, updateStep_none frame ask' h]
    exact ⟨rfl, hs⟩
  | some n =>
    obtain ⟨hmem, hid, hpath⟩ := find?_some h
    have hlive : id ∈ ids := by
      rw [← hs, ← hid]
      exact List.mem_map_of_mem hmem
    obtain ⟨hrun, hids⟩ := n.update_congr frame (fun s c => s.isGuard (n.id :: path) c)
      (sameOn_congruent ids n.id) (hask hlive hpath) s hs
    rw [updateStep_some frame ask h, updateStep_some frame ask' h, stepUpdate, stepUpdate, ← hrun]
    exact ⟨rfl, (Stage.restore_ids _ _).trans hids⟩

/-- The identifiers whose updates are not in progress. -/
def idle (ids path : List NodeId) : List NodeId := ids.filter (· ∉ path)

/-- An update that begins leaves fewer nodes for the updates below it. -/
theorem idle_cons_length_lt {ids path : List NodeId} {id : NodeId} (hid : id ∈ ids)
    (hpath : id ∉ path) : (idle ids (id :: path)).length < (idle ids path).length := by
  -- Idle on the longer path are the idle ones of the shorter but for the node itself.
  have hsplit : idle ids (id :: path) = (idle ids path).filter (· ≠ id) := by
    simp [idle, List.filter_filter]
  rw [hsplit]
  apply List.length_filter_lt_length_iff_exists.mpr
  exact ⟨id, by simp [idle, hid, hpath], by simp⟩

/-- Nobody is idle: an update finds no node that it could begin. -/
theorem refused_of_exhausted {ids path : List NodeId} (h : (idle ids path).length = 0)
    (id : NodeId) : id ∈ path ∨ id ∉ ids := by
  by_contra hcon
  have hmem : id ∈ idle ids path := by simpa [idle, not_or, and_comm] using hcon
  rw [List.eq_nil_of_length_eq_zero h] at hmem
  simp at hmem

theorem Stage.find?_eq_none_iff {s : Stage H} {path : List NodeId} {id : NodeId} :
    s.find? path id = none ↔ id ∈ path ∨ id ∉ s.ids := by
  unfold Stage.find?
  split
  · next hpath => exact iff_of_true rfl (Or.inl hpath)
  · next hpath =>
    rw [or_iff_right hpath, List.find?_eq_none, ids, List.mem_map, not_exists]
    refine forall_congr' fun n => ?_
    simp

/-- An update of a node that is not there, or in progress, answers `fail` and does nothing else. -/
theorem updateNode_refused {s : Stage H} {path : List NodeId} {id : NodeId}
    (h : id ∈ path ∨ id ∉ s.ids) (frame : TickContext) (depth : Nat) :
    updateNode frame depth path id s = ⟨.fail, s, refusal path id⟩ := by
  cases depth with
  | zero => rfl
  | succ depth => exact updateStep_none frame _ (Stage.find?_eq_none_iff.mpr h)

/-- However deep updates may go, and whatever happens where they may not go deeper: with more depth
than there are idle nodes they are the same. -/
theorem updateNodeElse_sameOn (exhausted : List NodeId → NodeId → Ticking H Status)
    (frame : TickContext) {ids path : List NodeId} {depth depth' : Nat} (id : NodeId)
    (hdepth : (idle ids path).length < depth) (hdepth' : (idle ids path).length ≤ depth') :
    SameOn ids (updateNodeElse exhausted frame depth path id)
      (updateNode frame depth' path id) := by
  induction depth' generalizing path depth id with
  | zero =>
    obtain ⟨depth, rfl⟩ := Nat.exists_eq_add_one_of_ne_zero (Nat.ne_zero_of_lt hdepth)
    have hnone := refused_of_exhausted (Nat.le_zero.mp hdepth') id
    intro s hs
    have hstep : updateNodeElse exhausted frame (depth+1) path id s = _ :=
      updateStep_none frame _ (Stage.find?_eq_none_iff.mpr (hs ▸ hnone))
    rw [hstep, updateNode_refused (hs ▸ hnone)]
    exact ⟨rfl, hs⟩
  | succ depth' ih =>
    obtain ⟨depth, rfl⟩ := Nat.exists_eq_add_one_of_ne_zero (Nat.ne_zero_of_lt hdepth)
    apply updateStep_sameOn
    -- A node that begins is idle no more, so both depths are enough for what it asks.
    intro hid hpath c
    have hlt := idle_cons_length_lt hid hpath
    exact ih c (by omega) (by omega)

/-! ### Questions within questions -/

namespace Trace

/-- The nodes that have been asked and have not answered by the end of a trace, the innermost first;
`path` lists those at its start. -/
def pending : List NodeId → Trace H → List NodeId
  | path, [] => path
  | path, .asked _ id :: rest => pending (id :: path) rest
  | path, .answered _ _ _ :: rest => pending path.tail rest
  | path, _ :: rest => pending path rest

/-- What follows a question about `id` by `caller` if it is refused at once. -/
def Refused (caller : Option NodeId) (id : NodeId) (after : Trace H) : Prop :=
  ∃ rest, after = .warning (.unresolved id) :: .answered caller id .fail :: rest

/-- Every question about a node that is not among `ids`, or has itself been asked and has not
answered, is refused at once. -/
def Guarded (ids : List NodeId) : List NodeId → Trace H → Prop
  | _, [] => True
  | path, .asked caller id :: rest =>
    (id ∈ path ∨ id ∉ ids → Refused caller id rest) ∧ Guarded ids (id :: path) rest
  | path, .answered _ _ _ :: rest => Guarded ids path.tail rest
  | path, _ :: rest => Guarded ids path rest

theorem pending_append (path : List NodeId) (τ τ' : Trace H) :
    pending path (τ ++ τ') = pending (pending path τ) τ' := by
  induction τ generalizing path with
  | nil => rfl
  | cons i τ ih => cases i <;> exact ih _

variable {ids path : List NodeId}

theorem Guarded.append {τ τ' : Trace H} (h : Guarded ids path τ)
    (h' : Guarded ids (pending path τ) τ') : Guarded ids path (τ ++ τ') := by
  induction τ generalizing path with
  | nil => exact h'
  | cons i τ ih =>
    cases i with
    | asked caller id =>
      refine ⟨?_, ih h.2 h'⟩
      intro hid
      obtain ⟨rest, hrest⟩ := h.1 hid
      exact ⟨rest ++ τ', by simp [hrest]⟩
    | answered _ _ _ | entered _ | called _ _ | note _ | event _ | warning _ => exact ih h h'

/-- What a node does by itself asks nothing. -/
theorem pending_own {id : NodeId} {τ : Trace H} (hown : ∀ i ∈ τ, i.OwnTo id) :
    pending path τ = path ∧ Guarded ids path τ := by
  induction τ with
  | nil => exact ⟨rfl, trivial⟩
  | cons i τ ih =>
    have hi : i.OwnTo id := hown i List.mem_cons_self
    have hτ := ih fun j hj => hown j (List.mem_cons_of_mem i hj)
    cases i with
    | asked _ _ | answered _ _ _ => exact hi.elim
    | entered _ | called _ _ | note _ | event _ | warning _ => exact hτ

/-- A guarded trace, read at any question in it. -/
theorem Guarded.refused {before after : Trace H} {caller : Option NodeId} {id : NodeId}
    (h : Guarded ids path (before ++ .asked caller id :: after))
    (hid : id ∈ pending path before ∨ id ∉ ids) : Refused caller id after := by
  induction before generalizing path with
  | nil => exact h.1 hid
  | cons i before ih =>
    cases i with
    | asked _ _ => exact ih h.2 hid
    | answered _ _ _ | entered _ | called _ _ | note _ | event _ | warning _ => exact ih h hid

end Trace

/-- Updates answer every question that they ask, and refuse those about nodes in progress. -/
theorem updateNode_guarded (frame : TickContext) (depth : Nat) (path : List NodeId) (id : NodeId) :
    Keeps (fun s τ s' => s'.ids = s.ids ∧ Trace.pending path τ = path ∧ Trace.Guarded s.ids path τ)
      (updateNode (H := H) frame depth path id) := by
  apply updateNode_induct (R := fun path s τ s' =>
    s'.ids = s.ids ∧ Trace.pending path τ = path ∧ Trace.Guarded s.ids path τ)
  · intro path id s
    exact ⟨rfl, rfl, fun _ => ⟨[], rfl⟩, trivial⟩
  · intro path id s n ask hfind hask
    obtain ⟨hmem, rfl, hpath⟩ := find?_some hfind
    have hsteady : Steady n.id fun (s : Stage H) τ s' => s'.ids = s.ids ∧
        Trace.pending (n.id :: path) τ = n.id :: path ∧ Trace.Guarded s.ids (n.id :: path) τ := by
      refine ⟨?_, ?_⟩
      -- All questions of the first part have been answered when the second one begins.
      · intro s τ s' τ' s'' ⟨hids, hpend, hguard⟩ ⟨hids', hpend', hguard'⟩
        refine ⟨hids'.trans hids, by rw [Trace.pending_append, hpend, hpend'], ?_⟩
        exact hguard.append (by rw [hpend, ← hids]; exact hguard')
      · intro s τ s' hnodes hown
        exact ⟨Stage.ids_eq_of_nodes hnodes, Trace.pending_own hown⟩
    obtain ⟨hids, hpend, hguard⟩ :=
      n.update_keeps frame (fun s c => s.isGuard (n.id :: path) c) hsteady hask s
    have hlive : n.id ∈ s.ids := List.mem_map_of_mem hmem
    rw [updateStep_some frame ask hfind]
    refine ⟨(Stage.restore_ids _ _).trans hids, ?_, ?_⟩
    · change Trace.pending (n.id :: path) (_ ++ _) = path
      rw [Trace.pending_append, hpend]
      rfl
    · -- The question that led here is about a node that is there and was not in progress.
      refine ⟨fun hid => (hid.elim hpath (· hlive)).elim, hguard.append ?_⟩
      rw [hpend]
      trivial

/-! ### Safety -/

/-- A tick of a tree with any links comes to an end: no update goes deeper than there are nodes. A
question about a node that is not there, or whose update is in progress, is answered `fail` at once,
so no update of a node begins within another, and it changes nothing. On an arena, every node that
is taken out for its update is back after the tick. Then all nodes are in their places and are what
they were but for the state of their runs. Nodes are stored under their identifiers, so no two share
one. -/
theorem tick_safe (t : Tree H) (hkeys : t.ids.Nodup) (frame : TickContext) (world : H.World)
    (audience : H.Audience) :
    (∀ exhausted depth, t.size < depth →
      updateNodeElse exhausted frame depth [] t.root (t.stage world audience) =
        updateNode frame t.size [] t.root (t.stage world audience)) ∧
    (∀ before caller id after,
      (t.tick frame world audience).trace = before ++ .asked caller id :: after →
      id ∈ Trace.pending [] before ∨ id ∉ t.ids → Trace.Refused caller id after) ∧
    (∀ (s : Stage H) path id depth, id ∈ path ∨ id ∉ s.ids →
      updateNode frame depth path id s = ⟨.fail, s, refusal path id⟩) ∧
    t.tickTaking frame world audience = t.tick frame world audience ∧
    (t.tick frame world audience).tree.nodes.map Node.profile = t.nodes.map Node.profile := by
  refine ⟨?_, ?_, ?_, t.tickTaking_eq hkeys frame world audience,
    t.tick_profiles hkeys frame world audience⟩
  · intro exhausted depth hdepth
    have hidle : (idle t.ids []).length = t.size := by simp [idle, Tree.ids, Tree.size]
    exact (updateNodeElse_sameOn exhausted frame t.root (hidle ▸ hdepth) (Nat.le_of_eq hidle)
      (t.stage world audience) rfl).1
  · intro before caller id after htrace hid
    obtain ⟨-, -, hguard⟩ :=
      updateNode_guarded frame t.size [] t.root (t.stage world audience)
    change Trace.Guarded t.ids [] (t.tick frame world audience).trace at hguard
    rw [htrace] at hguard
    exact hguard.refused hid
  · intro s path id depth hid
    exact updateNode_refused hid frame depth

/-- A tree with every kind of bad link: the sequence below its root links to itself, twice to a node
that links back to both, and to nobody. -/
def Demo.tangle : Tree Demo.smallHost where
  root := .ofNat 1
  nodes := [.make (.ofNat 1) "Root" (.root (some (.ofNat 2))),
    .make (.ofNat 2) "Sequence" (.sequence (.idle [.ofNat 3, .ofNat 2, .ofNat 9, .ofNat 3])),
    .make (.ofNat 3) "Parallel" (.parallel [.ofNat 2, .ofNat 1])]
  blackboard := .empty default
  owner := none
  registry := .builtin
  seed := 0
  rng := ⟨0⟩
  status := .running
  observers := []

theorem tick_safe_tangle : Demo.tangle.ids.Nodup ∧ ∀ frame,
    (∀ before caller id after,
      (Demo.tangle.tick frame .empty .empty).trace = before ++ .asked caller id :: after →
      id ∈ Trace.pending [] before ∨ id ∉ Demo.tangle.ids → Trace.Refused caller id after) ∧
    Demo.tangle.tickTaking frame .empty .empty = Demo.tangle.tick frame .empty .empty ∧
    (Demo.tangle.tick frame .empty .empty).tree.nodes.map Node.profile =
      Demo.tangle.nodes.map Node.profile := by
  have hkeys : Demo.tangle.ids.Nodup := by decide
  refine ⟨hkeys, fun frame => ?_⟩
  obtain ⟨-, hrefused, -, htaking, hprofiles⟩ := tick_safe Demo.tangle hkeys frame .empty .empty
  exact ⟨hrefused, htaking, hprofiles⟩

end BehaviourTree
