import BehaviourTree.Proofs.VisitPhases
import BehaviourTree.Proofs.WithinReach

/-!
Where links form a tree, the updates in progress are the nodes on the way up to the root, and a node
is updated when its parent asks for it, and at no other time.
-/

namespace BehaviourTree

open Relation Ticking

variable {H : Host}

/-! ### Ways -/

namespace Tree

variable {t : Tree H} {c p id : NodeId} {path : List NodeId}

/-- A way up to the root, from child to parent. -/
structure Way (t : Tree H) (way : List NodeId) : Prop where
  steps : way.IsChain fun c p => t.Links p c
  top : way.getLast? = some t.root

theorem Way.root (t : Tree H) : t.Way [t.root] := ⟨.singleton _, rfl⟩

theorem Way.cons (h : t.Way (p :: path)) (hlink : t.Links p c) : t.Way (c :: p :: path) := by
  refine ⟨.cons_cons hlink h.steps, ?_⟩
  rw [List.getLast?_cons_cons]
  exact h.top

theorem Way.parent (h : t.Way (c :: p :: path)) : t.Links p c ∧ t.Way (p :: path) := by
  obtain ⟨hlink, hsteps⟩ := List.isChain_cons_cons.mp h.steps
  refine ⟨hlink, hsteps, ?_⟩
  rw [← List.getLast?_cons_cons (a := c)]
  exact h.top

theorem Way.eq_root (h : t.Way [id]) : id = t.root := Option.some.inj h.top

/-- What lies higher leads down, and from the root everything can be reached. -/
theorem Way.leads (h : t.Way (id :: path)) :
    t.Reaches t.root id ∧ ∀ a ∈ path, TransGen t.Links a id := by
  induction path generalizing id with
  | nil => exact ⟨h.eq_root ▸ .refl, fun _ ha => absurd ha List.not_mem_nil⟩
  | cons p path ih =>
    obtain ⟨hlink, hway⟩ := h.parent
    obtain ⟨hreach, habove⟩ := ih hway
    refine ⟨hreach.tail hlink, List.forall_mem_cons.mpr ⟨.single hlink, fun a ha => ?_⟩⟩
    exact (habove a ha).tail hlink

theorem exists_way (h : t.Reaches t.root id) : ∃ path, t.Way (id :: path) := by
  induction h with
  | refl => exact ⟨[], .root t⟩
  | tail _ hlink ih =>
    obtain ⟨path, hway⟩ := ih
    exact ⟨_, hway.cons hlink⟩

namespace LinksFormTree

variable (h : t.LinksFormTree)

include h

/-- A way leads past no node twice. -/
theorem way_nodup (way : t.Way (id :: path)) : (id :: path).Nodup := by
  induction path generalizing id with
  | nil => exact List.nodup_singleton id
  | cons p path ih =>
    obtain ⟨hreach, habove⟩ := way.leads
    exact List.nodup_cons.mpr ⟨fun hid => h.acyclic id hreach (habove id hid), ih way.parent.2⟩

theorem way_live (way : t.Way (id :: path)) : ∀ a ∈ id :: path, t.contains a := by
  induction path generalizing id with
  | nil =>
    intro a ha
    exact List.mem_singleton.mp ha ▸ h.live id way.leads.1
  | cons p path ih => exact List.forall_mem_cons.mpr ⟨h.live id way.leads.1, ih way.parent.2⟩

theorem way_length_lt (way : t.Way (id :: path)) : path.length < t.size := by
  have hlive : id :: path ⊆ t.ids := fun a ha => contains_iff.mp (h.way_live way a ha)
  have hle := (List.subperm_of_subset (h.way_nodup way) hlive).length_le
  rw [List.length_cons, ids, List.length_map] at hle
  exact hle

/-- Nothing on the way to another node links to the root. -/
theorem way_root (way : t.Way (t.root :: path)) : path = [] := by
  cases path with
  | nil => rfl
  | cons p path =>
    obtain ⟨hlink, hway⟩ := way.parent
    exact absurd (TransGen.tail' hway.leads.1 hlink) (h.acyclic t.root .refl)

theorem way_unique {path' : List NodeId} (way : t.Way (id :: path)) (way' : t.Way (id :: path')) :
    path = path' := by
  induction path generalizing id path' with
  | nil => exact (h.way_root (way.eq_root ▸ way')).symm
  | cons p path ih =>
    cases path' with
    | nil => exact h.way_root (way'.eq_root ▸ way)
    | cons q path' =>
      obtain ⟨hlink, hway⟩ := way.parent
      obtain ⟨hlink', hway'⟩ := way'.parent
      obtain rfl : p = q := h.parent p q id hway.leads.1 hway'.leads.1 hlink hlink'
      rw [ih hway hway']

end LinksFormTree

/-- The links form a tree, and what nodes there recall are children of theirs. -/
structure Tidy (t : Tree H) : Prop where
  links : t.LinksFormTree
  recalled : ∀ id n, t.Reaches t.root id → t.node? id = some n → ∀ c ∈ n.recalled, c ∈ n.links

theorem LinksFormTree.tidy (h : t.LinksFormTree) (hfits : ∀ n ∈ t.nodes, n.Fits) : t.Tidy :=
  ⟨h, fun _ n _ hn _ hc => (hfits n (node?_some hn).1).mem_links hc⟩

/-- On the stage are the nodes of the tree, and they recall no more than its links. -/
structure Bounds (t : Tree H) (s : Stage H) : Prop where
  ids : s.ids = t.ids
  recalled : ∀ id n, t.Reaches t.root id → s.node? id = some n → ∀ c ∈ n.recalled, t.Links id c

theorem Tidy.bounds (h : t.Tidy) (world : H.World) (audience : H.Audience) :
    t.Bounds (t.stage world audience) := by
  refine ⟨rfl, fun id n hreach hn c hc => ?_⟩
  rw [Links, children_of_node? hn]
  exact h.recalled id n hreach hn c hc

theorem Bounds.of_nodes {s s' : Stage H} (h : t.Bounds s) (hnodes : s'.nodes = s.nodes) :
    t.Bounds s' := by
  refine ⟨(Stage.ids_eq_of_nodes hnodes).trans h.ids, fun id n hreach hn => ?_⟩
  rw [Stage.node?_of_nodes hnodes] at hn
  exact h.recalled id n hreach hn

theorem Bounds.restore {s : Stage H} (h : t.Bounds s) {n : Node H}
    (hn : ∀ c ∈ n.recalled, t.Links n.id c) : t.Bounds (s.restore n) := by
  refine ⟨(s.restore_ids n).trans h.ids, fun id m hreach hm => ?_⟩
  rw [Stage.restore_node?] at hm
  split at hm
  · next hid =>
    obtain ⟨_, -, rfl⟩ := Option.map_eq_some_iff.mp hm
    exact hid ▸ hn
  · exact h.recalled id m hreach hm

/-- Nobody on a way is asked for in vain: a node that is below itself would close a circle. -/
theorem LinksFormTree.not_refused (h : t.LinksFormTree) (way : t.Way (id :: path)) {s : Stage H}
    (hs : t.Bounds s) : ¬ (id ∈ path ∨ id ∉ s.ids) := by
  obtain ⟨hreach, habove⟩ := way.leads
  rintro (hbusy | hgone)
  · exact h.acyclic id hreach (habove id hbusy)
  · rw [hs.ids] at hgone
    exact hgone (contains_iff.mp (h.live id hreach))

/-- Its update begins, and leaves fewer nodes for the updates below it. -/
theorem LinksFormTree.exists_node (h : t.LinksFormTree) (way : t.Way (id :: path)) {s : Stage H}
    (hs : t.Bounds s) : ∃ n, s.find? path id = some n ∧ n.id = id ∧
      (idle t.ids (id :: path)).length < (idle t.ids path).length := by
  obtain ⟨n, hfind⟩ :=
    Option.ne_none_iff_exists'.mp (mt Stage.find?_eq_none_iff.mp (h.not_refused way hs))
  obtain ⟨hmem, rfl, hpath⟩ := find?_some hfind
  have hlive : n.id ∈ s.ids := List.mem_map_of_mem hmem
  exact ⟨n, hfind, rfl, idle_cons_length_lt (hs.ids ▸ hlive) hpath⟩

end Tree

/-! ### Questions go down -/

/-- Nobody is asked for in vain on the way, and all updates are of nodes that can be reached. -/
def Led (t : Tree H) (s : Stage H) (τ : Trace H) (s' : Stage H) : Prop :=
  t.Bounds s → t.Bounds s' ∧ (∀ x, .warning (.unresolved x) ∉ τ) ∧
    ∀ e, .event e ∈ τ → t.Reaches t.root e.node

/-- The answers of one among those that answer. -/
def repliesOf (c : NodeId) (answers : List (NodeId × Status)) : List Status :=
  answers.filterMap fun a => if a.1 = c then some a.2 else none

theorem repliesOf_append (c : NodeId) (answers answers' : List (NodeId × Status)) :
    repliesOf c (answers ++ answers') = repliesOf c answers ++ repliesOf c answers' :=
  List.filterMap_append

theorem repliesOf_eq_nil {c : NodeId} {answers : List (NodeId × Status)}
    (h : ∀ status, (c, status) ∉ answers) : repliesOf c answers = [] := by
  refine List.filterMap_eq_nil_iff.mpr fun a ha => if_neg ?_
  rintro rfl
  exact h a.2 ha

/-- Who answers once answers nothing else. -/
theorem repliesOf_eq_singleton {c : NodeId} {answers : List (NodeId × Status)} {status : Status}
    (honce : (answers.map (·.1)).Nodup) (h : (c, status) ∈ answers) :
    repliesOf c answers = [status] := by
  obtain ⟨before, after, rfl⟩ := List.append_of_mem h
  rw [List.map_append, List.map_cons, List.nodup_middle, List.nodup_cons, List.mem_append,
    not_or] at honce
  have hrest {part : List (NodeId × Status)} (hpart : c ∉ part.map (·.1)) :
      repliesOf c part = [] :=
    repliesOf_eq_nil fun _ hmem => hpart (List.mem_map_of_mem hmem)
  have hone : repliesOf c [(c, status)] = [status] := by simp [repliesOf]
  rw [← List.singleton_append, repliesOf_append, repliesOf_append, hrest honce.1.1,
    hrest honce.1.2, hone]
  rfl

/-- On the way all that the node `c` answers it answers to `p`. -/
def Answering (t : Tree H) (p c : NodeId) (s : Stage H) (τ : Trace H) (s' : Stage H) : Prop :=
  t.Bounds s → t.Bounds s' ∧ τ.statusesOf c = repliesOf c (τ.answersTo p)

/-- Among the nodes that can be reached nobody but `p` has `c` for a child. -/
structure Tree.SoleParent (t : Tree H) (p c : NodeId) : Prop where
  below : c ≠ t.root
  parent : ∀ q, t.Reaches t.root q → t.Links q c → q = p

theorem Tree.LinksFormTree.soleParent {t : Tree H} {p c : NodeId} (h : t.LinksFormTree)
    (hp : t.Reaches t.root p) (hlink : t.Links p c) : t.SoleParent p c := by
  refine ⟨?_, fun q hq hqc => h.parent q p c hq hp hqc hlink⟩
  rintro rfl
  exact h.acyclic t.root .refl (.tail' hp hlink)

section Ticks

variable {t : Tree H} {frame : TickContext} {depth : Nat} {path : List NodeId} {c p id : NodeId}

theorem led_steady (hid : t.Reaches t.root id) : Steady id (Led t) := by
  refine ⟨fun h h' hs => ?_, fun hnodes hown hs => ?_⟩
  · obtain ⟨hs', hnone, hevents⟩ := h hs
    obtain ⟨hs'', hnone', hevents'⟩ := h' hs'
    refine ⟨hs'', fun x hx => ?_, fun e he => ?_⟩
    · exact (List.mem_append.mp hx).elim (hnone x) (hnone' x)
    · exact (List.mem_append.mp he).elim (hevents e) (hevents' e)
  · refine ⟨hs.of_nodes hnodes, fun x hx => hown _ hx x rfl, fun e he => ?_⟩
    have hnode : e.node = id := hown _ he
    exact hnode ▸ hid

theorem answering_steady (hid : id ≠ c) : Steady id (Answering t p c) := by
  refine ⟨fun h h' hs => ?_, fun {s τ s'} hnodes hown hs => ⟨hs.of_nodes hnodes, ?_⟩⟩
  · obtain ⟨hs', heq⟩ := h hs
    obtain ⟨hs'', heq'⟩ := h' hs'
    rw [Trace.statusesOf_append, Trace.answersTo_append, repliesOf_append, heq, heq']
    exact ⟨hs'', rfl⟩
  · have hanswers : τ.answersTo p = [] := by
      refine Trace.answersTo_unanswered ?_ p
      rintro _ hi _ _ _ rfl
      exact hown _ hi
    rw [(Trace.silent_own (Ne.symm hid) hown).2, hanswers]
    rfl

/-- The step from a node to its children, for a relation that goes with the bounds of a tree. -/
theorem updateStep_bounds {R : Stage H → Trace H → Stage H → Prop} {s : Stage H} {n : Node H}
    (way : t.Way (n.id :: path)) (hfind : s.find? path n.id = some n) (hs : t.Bounds s)
    (hR : Steady n.id fun s τ s' => t.Bounds s → t.Bounds s' ∧ R s τ s')
    (hask : ∀ c, t.Way (c :: n.id :: path) →
      Keeps (fun s τ s' => t.Bounds s → t.Bounds s' ∧ R s τ s')
        (updateNode frame depth (n.id :: path) c)) :
    let q := stepUpdate frame path (updateNode frame depth (n.id :: path)) n s
    t.Bounds (q.stage.restore q.answer.2) ∧ R s q.trace q.stage := by
  intro q
  obtain ⟨hreach, -⟩ := way.leads
  obtain ⟨-, -, hpath⟩ := find?_some hfind
  have hlinks : ∀ c ∈ n.recalled, t.Links n.id c := by
    rw [Stage.find?_eq_node? hpath] at hfind
    exact hs.recalled n.id n hreach hfind
  obtain ⟨hafter, hbelow⟩ := n.update_keeps_recalled frame
    (fun s c => s.isGuard (n.id :: path) c) hR (fun c hc => hask c (way.cons (hlinks c hc))) s hs
  obtain ⟨hid, hrecalled⟩ := n.update_recalled frame (fun s c => s.isGuard (n.id :: path) c)
    (updateNode frame depth (n.id :: path)) s
  refine ⟨hafter.restore fun c hc => ?_, hbelow⟩
  exact hid.symm ▸ hlinks c (hrecalled c hc)

/-- Questions lead from a node to its children, and no further. -/
theorem updateNode_led (h : t.LinksFormTree) (frame : TickContext) (way : t.Way (id :: path))
    (hdepth : (idle t.ids path).length ≤ depth) :
    Keeps (Led t) (updateNode frame depth path id) := by
  induction depth generalizing path id with
  | zero =>
    intro s hs
    have hrefused := refused_of_exhausted (Nat.le_zero.mp hdepth) id
    exact absurd (hs.ids ▸ hrefused) (h.not_refused way hs)
  | succ depth ih =>
    intro s hs
    obtain ⟨n, hfind, rfl, hlt⟩ := h.exists_node way hs
    obtain ⟨hafter, hnone, hevents⟩ := updateStep_bounds way hfind hs (led_steady way.leads.1)
      fun c hway => ih hway (by omega)
    rw [updateNode, updateStep_some frame _ hfind]
    refine ⟨hafter, fun x hx => hnone x ?_, fun e he => hevents e ?_⟩
    · simpa using hx
    · simpa using he

/-- A node whose only parent is `p` answers nobody else. -/
theorem updateNode_answering (h : t.LinksFormTree) (hsole : t.SoleParent p c)
    (frame : TickContext) (way : t.Way (id :: path))
    (hdepth : (idle t.ids path).length ≤ depth) :
    Keeps (Answering t p c) (updateNode frame depth path id) := by
  induction depth generalizing path id with
  | zero =>
    intro s hs
    have hrefused := refused_of_exhausted (Nat.le_zero.mp hdepth) id
    exact absurd (hs.ids ▸ hrefused) (h.not_refused way hs)
  | succ depth ih =>
    intro s hs
    obtain ⟨n, hfind, rfl, hlt⟩ := h.exists_node way hs
    let v : Visit H := ⟨frame, depth, path, s, n⟩
    have hfound : v.Found := hfind
    refine ⟨(updateNode_led h frame way hdepth s hs).1, ?_⟩
    change v.whole.trace.statusesOf c = repliesOf c (v.whole.trace.answersTo p)
    by_cases hid : n.id = c
    · -- It is the parent that asks.
      cases path with
      | nil => exact absurd (hid.symm.trans way.eq_root) hsole.below
      | cons q path =>
        obtain ⟨hlink, hway⟩ := way.parent
        obtain rfl : q = p := hsole.parent q hway.leads.1 (hid ▸ hlink)
        have hanswers : v.whole.trace.answersTo q = [(n.id, v.whole.answer)] :=
          updateNode_answersTo frame (depth+1) q path n.id s
        rw [← hid, (Visit.told hfound).1, hanswers, Visit.whole_eq hfound]
        simp [repliesOf]
    · obtain ⟨-, heq⟩ := updateStep_bounds way hfind hs (answering_steady hid)
        fun c hway => ih hway (by omega)
      change v.play.trace.statusesOf c = repliesOf c (v.play.trace.answersTo p) at heq
      have hlast : repliesOf c (Trace.answersTo p (H := H) [.answered path.head? n.id v.status]) =
          [] := by
        cases path with
        | nil => rfl
        | cons q path =>
          by_cases hq : q = p <;> simp [Trace.answersTo, repliesOf, hq, hid]
      rw [Visit.whole_eq hfound]
      change Trace.statusesOf c (v.play.trace ++ _) =
        repliesOf c (Trace.answersTo p (v.play.trace ++ _))
      rw [Trace.statusesOf_append, Trace.answersTo_append, repliesOf_append, heq, hlast]
      rfl

end Ticks

namespace Tree

variable {t : Tree H}

theorem idle_nil (t : Tree H) : (idle t.ids []).length ≤ t.size := by simp [idle, ids, size]

/-- In a tick of a tidy tree nobody is asked for in vain, only what can be reached is updated, and
what a node answers it answers to its parent. -/
theorem Tidy.tick (h : t.Tidy) (frame : TickContext) (world : H.World) (audience : H.Audience) :
    let r := t.tick frame world audience
    (∀ x, .warning (.unresolved x) ∉ r.trace) ∧
    (∀ e, .event e ∈ r.trace → t.Reaches t.root e.node) ∧
    ∀ p c, t.SoleParent p c → r.trace.statusesOf c = repliesOf c (r.trace.answersTo p) := by
  intro r
  have hbounds := h.bounds world audience
  obtain ⟨-, hnone, hevents⟩ := updateNode_led h.links frame (.root t) t.idle_nil _ hbounds
  refine ⟨hnone, hevents, fun p c hsole => ?_⟩
  exact (updateNode_answering h.links hsole frame (.root t) t.idle_nil _ hbounds).2

/-- Only what can be reached has an answer. -/
theorem Tidy.reaches_of_status (h : t.Tidy) (frame : TickContext) (world : H.World)
    (audience : H.Audience) {id : NodeId} {status : Status}
    (hstatus : status ∈ (t.tick frame world audience).trace.statusesOf id) :
    t.Reaches t.root id := by
  obtain ⟨i, hi, hmatch⟩ := List.mem_filterMap.mp hstatus
  cases i with
  | event e =>
    obtain ⟨rfl, -⟩ := Option.ite_none_right_eq_some.mp hmatch
    exact (h.tick frame world audience).2.1 e hi
  | asked _ _ | answered _ _ _ | entered _ | called _ _ | note _ | warning _ => cases hmatch

/-- A root that is there is updated once. -/
theorem tick_root (h : t.contains t.root) (frame : TickContext) (world : H.World)
    (audience : H.Audience) :
    let r := t.tick frame world audience
    r.trace.statusesOf t.root = [r.tree.status] := by
  intro r
  obtain ⟨n, hn⟩ := Option.isSome_iff_exists.mp h
  obtain ⟨hmem, hid⟩ := node?_some hn
  obtain ⟨depth, hdepth⟩ : ∃ depth, t.size = depth+1 :=
    Nat.exists_eq_add_one_of_ne_zero (List.ne_nil_of_mem hmem ∘ List.eq_nil_of_length_eq_zero)
  let v : Visit H := ⟨frame, depth, [], t.stage world audience, n⟩
  have hfound : v.Found := by
    change (if _ then none else _) = some n
    rw [if_neg List.not_mem_nil, hid]
    exact hn
  have hrun : updateNode frame t.size [] t.root (t.stage world audience) = v.whole := by
    rw [hdepth, ← hid]
    rfl
  have hstatus : r.tree.status = v.status :=
    (congrArg Play.answer hrun).trans (congrArg Play.answer (Visit.whole_eq hfound))
  have htrace : r.trace = v.whole.trace := congrArg Play.trace hrun
  rw [htrace, hstatus, ← hid]
  exact (Visit.told hfound).1

end Tree

/-! ### Histories -/

/-- The tree has the property at each of the ticks. -/
def Session.AtTicks (P : Tree H → Prop) (s : Session H) : List (Operation H) → Prop
  | [] => True
  | op :: ops => (∀ frame, op = .tick frame → P s.tree) ∧ (s.step op).1.AtTicks P ops

theorem Session.AtTicks.imp {P Q : Tree H → Prop} (hPQ : ∀ t, P t → Q t) {s : Session H}
    {ops : List (Operation H)} (h : s.AtTicks P ops) : s.AtTicks Q ops := by
  induction ops generalizing s with
  | nil => trivial
  | cons op ops ih => exact ⟨fun frame hop => hPQ _ (h.1 frame hop), ih h.2⟩

/-- Whatever else is done to a tree, a node answers its parent and nobody else as long as the tree
is tidy whenever it is ticked, and the node has no other parent then. -/
theorem Session.run_answers {p c : NodeId} {s : Session H} {ops : List (Operation H)}
    (h : s.AtTicks (fun t => t.Tidy ∧ t.SoleParent p c) ops) :
    (s.run ops).2.statusesOf c = repliesOf c ((s.run ops).2.answersTo p) := by
  induction ops generalizing s with
  | nil => rfl
  | cons op ops ih =>
    have hfirst : (s.step op).2.statusesOf c = repliesOf c ((s.step op).2.answersTo p) := by
      cases op with
      | tick frame =>
        obtain ⟨htidy, hsole⟩ := h.1 frame rfl
        exact (htidy.tick frame s.world s.audience).2.2 p c hsole
      | create _ | add _ | delete _ | attach _ _ | detach _ _ | rename _ _ | move _ _
      | setAlwaysCheck _ _ | sortChildren _ | subscribe _ _ | subscribeAll _ | setOwner _
      | setSeed _ | editBlackboard _ | elsewhere _ _ _ => rfl
    have hrun : (s.run (op :: ops)).2 = (s.step op).2 ++ ((s.step op).1.run ops).2 := rfl
    rw [hrun, Trace.statusesOf_append, Trace.answersTo_append, repliesOf_append, hfirst, ih h.2]

/-- A node of a tidy tree is found with each of its children once. -/
theorem Session.Followed.links_nodup {id : NodeId} {s : Session H} {ops : List (Operation H)}
    {vs : List (Visit H)} (followed : s.Followed id ops vs) (h : s.AtTicks Tree.Tidy ops) :
    ∀ v ∈ vs, v.node.links.Nodup := by
  induction followed with
  | nil => exact fun _ hv => absurd hv List.not_mem_nil
  | @tick s frame ops vs vs' visited _ ih =>
    obtain ⟨hnow, hlater⟩ := h
    refine List.forall_mem_append.mpr ⟨fun v hv => ?_, ih hlater⟩
    have htidy := hnow frame rfl
    -- A visit is told of in an event, and events are about nodes that can be reached.
    have hreach : s.tree.Reaches s.tree.root id := by
      have hstatus : v.status ∈ (s.step (.tick frame)).2.statusesOf id :=
        visited.statuses ▸ List.mem_map_of_mem hv
      exact htidy.reaches_of_status frame s.world s.audience hstatus
    refine visited.handed.keeps (P := fun n => n.links.Nodup) (fun v hv => ?_) (fun m hm => ?_) v hv
    · have hlinks : v.left.links = v.node.links := congrArg Profile.links v.left_profile
      exact hlinks ▸ hv
    · have hm : s.tree.node? id = some m := hm
      exact Tree.children_of_node? hm ▸ htidy.links.once id hreach
  | edit _ _ ih => exact ih h.2

end BehaviourTree
