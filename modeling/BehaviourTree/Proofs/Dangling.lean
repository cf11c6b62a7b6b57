import BehaviourTree.Proofs.Lifecycle
import BehaviourTree.Proofs.TickSafety

/-!
Who is asked for in vain: questions follow the identifiers that nodes keep, and those are the links
of a node, the guards that it has collected, and while it runs the child that it has picked. Where a
child is detached and deleted it may still be kept in one of these ways, and then be asked for.
-/

namespace BehaviourTree

open Relation Ticking

variable {H : Host}

/-! ### What a node keeps -/

/-- The nodes that a node may ask for. A random choice that is idle picks anew before it asks. -/
def Node.recalled (n : Node H) : List NodeId :=
  n.links ++ n.kind.guards ++ if n.running then n.kind.pinned?.toList else []

/-- Guards are collected among the children. -/
theorem mem_collectGuards {flagged : NodeId → Bool} {children guards : List NodeId} {c : NodeId}
    (h : c ∈ collectGuards flagged children guards) : c ∈ children ∨ c ∈ guards := by
  induction children generalizing guards with
  | nil => exact Or.inr h
  | cons child children ih =>
    rcases ih h with hc | hc
    · exact Or.inl (List.mem_cons_of_mem child hc)
    · dsimp only at hc
      split at hc
      · rcases List.mem_append.mp hc with hc | hc
        · exact Or.inr hc
        · exact Or.inl (List.mem_singleton.mp hc ▸ List.mem_cons_self)
      · exact Or.inr hc

theorem pickChild_mem (children : List NodeId) :
    Answers (H := H) (fun picked => ∀ c ∈ picked.toList, c ∈ children) (pickChild children) := by
  unfold pickChild
  split
  · exact answers_bind (answers_any _) fun _ _ => answers_pure (by simp)
  · refine answers_bind (answers_any _) fun w _ => answers_pure fun c hc => ?_
    exact List.mem_of_getElem? (Option.mem_toList.mp hc)

namespace NodeKind

theorem mem_kept {k : NodeKind H} {c : NodeId} :
    c ∈ k.kept ↔ c ∈ k.links ∨ c ∈ k.guards ∨ k.pinned? = some c := by
  simp [kept, Option.mem_toList]

/-- To begin a run, a node collects guards and picks among its children. -/
theorem enter_kept (context : LeafContext) (flagged : NodeId → Bool) (k : NodeKind H) :
    Answers (fun k' => ∀ c ∈ k'.kept, c ∈ k.links ∨ c ∈ k.guards) (k.enter context flagged) := by
  cases k with
  | action a => exact answers_bind (answers_any _) fun _ _ => answers_pure nofun
  | sequence s | selector s =>
    refine answers_pure fun c hc => ?_
    rcases mem_kept.mp hc with hc | hc | hc
    · exact Or.inl hc
    · exact mem_collectGuards hc
    · cases hc
  | randomChoice cs _ =>
    refine answers_bind (pickChild_mem cs) fun picked hpicked => answers_pure fun c hc => ?_
    rcases mem_kept.mp hc with hc | hc | hc
    · exact Or.inl hc
    · cases hc
    · exact Or.inl (hpicked c (Option.mem_toList.mpr hc))
  | root _ | condition _ | repeater _ | parallel _ =>
    refine answers_pure fun c hc => ?_
    rcases mem_kept.mp hc with hc | hc | hc
    · exact Or.inl hc
    · cases hc
    · cases hc

/-- An update of a node that has been entered changes nothing of what it keeps. -/
theorem update_kept (context : LeafContext) (ask : NodeId → Ticking H Status) (k : NodeKind H) :
    Answers (fun r => r.2.kept = k.kept) (k.update context ask) := by
  cases k with
  | root child => cases child <;> exact fun _ => rfl
  | repeater child => cases child <;> exact fun _ => rfl
  | randomChoice cs selected => cases selected <;> exact fun _ => rfl
  | sequence series | selector series =>
    refine answers_bind (series.update_turn ask _ _) ?_
    rintro ⟨status, _⟩ ⟨turn, rfl⟩
    exact answers_pure rfl
  | action _ | condition _ | parallel _ => exact fun _ => rfl

theorem settle_kept (context : LeafContext) (status : Status) (k : NodeKind H) :
    Answers (fun k' => k'.kept = k.kept) (k.settle context status) := by
  intro s
  rcases k.settle_cases context status s with hsame | ⟨a, a', rfl, haction⟩
  · rw [hsame]
  · rw [haction]
    rfl

end NodeKind

namespace Node

theorem mem_recalled {n : Node H} {c : NodeId} : c ∈ n.recalled ↔
    c ∈ n.links ∨ c ∈ n.kind.guards ∨ n.running ∧ n.kind.pinned? = some c := by
  unfold recalled
  split
  · next hrunning => simp [hrunning, Option.mem_toList]
  · next hidle => simp [hidle]

/-- Once it has begun its run, a node keeps nothing but what it recalled. -/
theorem begin_kept (context : LeafContext) (flagged : Stage H → NodeId → Bool) (n : Node H) :
    Answers (fun k => ∀ c ∈ k.kept, c ∈ n.recalled) (n.begin context flagged) := by
  unfold Node.begin
  split
  · next hrunning =>
    refine answers_pure fun c hc => mem_recalled.mpr ?_
    rcases NodeKind.mem_kept.mp hc with hc | hc | hc
    · exact Or.inl hc
    · exact Or.inr (Or.inl hc)
    · exact Or.inr (Or.inr ⟨hrunning, hc⟩)
  · refine answers_bind (answers_any _) fun _ _ => answers_bind (answers_any _) fun s _ => ?_
    intro s' c hc
    have hbefore := n.kind.enter_kept context (flagged s) s' c hc
    exact mem_recalled.mpr (hbefore.imp_right Or.inl)

variable {ask : NodeId → Ticking H Status}

/-- A node recalls no more after an update than before it. -/
theorem update_recalled (frame : TickContext) (flagged : Stage H → NodeId → Bool)
    (ask : NodeId → Ticking H Status) (n : Node H) :
    Answers (fun r => r.2.id = n.id ∧ ∀ c ∈ r.2.recalled, c ∈ n.recalled)
      (n.update frame flagged ask) := by
  refine answers_bind (n.begin_kept _ flagged) fun kind hbegin => ?_
  refine answers_bind (kind.update_kept _ ask) fun r hupdate => ?_
  obtain ⟨status, kind'⟩ := r
  refine answers_bind (answers_any _) fun observers _ => ?_
  refine answers_bind (kind'.settle_kept _ status) fun kind'' hsettle => ?_
  refine answers_pure ⟨rfl, fun c hc => hbegin c ?_⟩
  rw [← hupdate, ← hsettle, NodeKind.mem_kept]
  exact (mem_recalled.mp hc).imp_right (Or.imp_right And.right)

/-- An update keeps what the updates keep that the node may ask for. -/
theorem update_keeps_recalled {R : Stage H → Trace H → Stage H → Prop} (frame : TickContext)
    (flagged : Stage H → NodeId → Bool) (n : Node H) (hR : Steady n.id R)
    (hask : ∀ c ∈ n.recalled, Keeps R (ask c)) : Keeps R (n.update frame flagged ask) := by
  have hown {α : Type} {m : Ticking H α} (hm : Own n.id m) : Keeps R m := hR.congruent.own hm
  let context : LeafContext := ⟨frame, n.id, n.owner⟩
  have hbegin : Keeps R (n.begin context flagged) := hown (n.begin_own rfl flagged)
  refine keeps_bind hR hbegin (n.begin_kept context flagged) fun kind hkept => ?_
  have hupdate := @NodeKind.update_congr H (fun _ m _ => Keeps R m) ask ask context
    hR.congruent.compositional (fun _ => hown (own_leaf _ _)) (fun _ => hown (own_leaf _ _))
    kind fun c hc => hask c (hkept c hc)
  refine keeps_bind hR hupdate (answers_any _) fun answer _ => ?_
  obtain ⟨status, kind⟩ := answer
  refine hown (own_bind (own_announce rfl n.observers) fun observers => ?_)
  exact own_bind (kind.settle_own context status) fun _ => own_pure _

end Node

/-! ### Where questions lead -/

section Ticks

variable {ids : List NodeId} {K : NodeId → NodeId → Prop} {root : NodeId}

/-- Nodes under the identifiers `ids`, of which each recalls at most what `K` says. -/
def Within (ids : List NodeId) (K : NodeId → NodeId → Prop) (nodes : List (Node H)) : Prop :=
  nodes.map (·.id) = ids ∧ ∀ n ∈ nodes, ∀ c ∈ n.recalled, K n.id c

/-- Following `K` from the root leads to an identifier that no question can find a node for: it is
nobody's, or it leads back to itself. -/
def Stray (ids : List NodeId) (K : NodeId → NodeId → Prop) (root id : NodeId) : Prop :=
  ReflTransGen K root id ∧ (TransGen K id id ∨ id ∉ ids)

/-- Nodes stay within bounds, and questions are refused about strays only. -/
def Bounded (ids : List NodeId) (K : NodeId → NodeId → Prop) (root : NodeId) (s : Stage H)
    (τ : Trace H) (s' : Stage H) : Prop :=
  Within ids K s.nodes →
    Within ids K s'.nodes ∧ ∀ id, .warning (.unresolved id) ∈ τ → Stray ids K root id

theorem bounded_steady (id : NodeId) : Steady id (Bounded (H := H) ids K root) := by
  refine ⟨?_, ?_⟩
  · intro s τ s' τ' s'' h h' hbefore
    obtain ⟨hbetween, hfirst⟩ := h hbefore
    obtain ⟨hafter, hsecond⟩ := h' hbetween
    refine ⟨hafter, fun x hx => ?_⟩
    rcases List.mem_append.mp hx with hx | hx
    · exact hfirst x hx
    · exact hsecond x hx
  · intro s τ s' hnodes hown hbefore
    refine ⟨hnodes ▸ hbefore, fun x hx => ?_⟩
    exact absurd rfl (hown _ hx x)

theorem Within.restore {s : Stage H} (h : Within ids K s.nodes) {n : Node H}
    (hn : ∀ c ∈ n.recalled, K n.id c) : Within ids K (s.restore n).nodes := by
  refine ⟨(s.restore_ids n).trans h.1, fun m hm => ?_⟩
  obtain ⟨m', hm', rfl⟩ := List.mem_map.mp hm
  split
  · exact hn
  · exact h.2 m' hm'

/-- A question about a stray is refused within bounds. -/
theorem bounded_refusal {path : List NodeId} {id : NodeId} (hroot : ReflTransGen K root id)
    (hpath : ∀ a ∈ path, TransGen K a id) {s : Stage H} (h : id ∈ path ∨ id ∉ s.ids) :
    Bounded ids K root s (refusal path id) s := by
  intro hwithin
  have hids : s.ids = ids := hwithin.1
  have hstray : Stray ids K root id := ⟨hroot, h.imp (hpath id) (hids ▸ ·)⟩
  refine ⟨hwithin, fun x hx => ?_⟩
  obtain rfl : x = id := by simpa [refusal] using hx
  exact hstray

/-- Questions lead from the root along `K`, and from every update in progress to the one that is
next. So a node whose update is in progress is asked for again only on a circle. -/
theorem updateNode_bounded (frame : TickContext) {depth : Nat} {path : List NodeId} {id : NodeId}
    (hroot : ReflTransGen K root id) (hpath : ∀ a ∈ path, TransGen K a id)
    (hdepth : (idle ids path).length ≤ depth) :
    Keeps (Bounded (H := H) ids K root) (updateNode frame depth path id) := by
  induction depth generalizing path id with
  | zero =>
    intro s hwithin
    have hids : s.ids = ids := hwithin.1
    have hrefused := refused_of_exhausted (Nat.le_zero.mp hdepth) id
    rw [← hids] at hrefused
    rw [updateNode_refused hrefused]
    exact bounded_refusal hroot hpath hrefused hwithin
  | succ depth ih =>
    intro s hwithin
    cases hfind : s.find? path id with
    | none =>
      rw [updateNode, updateStep_none frame _ hfind]
      exact bounded_refusal hroot hpath (Stage.find?_eq_none_iff.mp hfind) hwithin
    | some n =>
      obtain ⟨hmem, rfl, hout⟩ := find?_some hfind
      have hask : ∀ c ∈ n.recalled, Keeps (Bounded (H := H) ids K root)
          (updateNode frame depth (n.id :: path) c) := by
        intro c hc
        -- Every update in progress leads on to this node, and this node to `c`.
        have hlink : K n.id c := hwithin.2 n hmem c hc
        have hlive : n.id ∈ ids := hwithin.1 ▸ List.mem_map_of_mem hmem
        have hlt := idle_cons_length_lt hlive hout
        refine ih (hroot.tail hlink) ?_ (by omega)
        exact List.forall_mem_cons.mpr ⟨.single hlink, fun a ha => (hpath a ha).tail hlink⟩
      let ask := updateNode (H := H) frame depth (n.id :: path)
      obtain ⟨hbelow, hstray⟩ := n.update_keeps_recalled frame
        (fun s c => s.isGuard (n.id :: path) c) (bounded_steady n.id) hask s hwithin
      obtain ⟨hid, hrecalled⟩ := n.update_recalled frame
        (fun s c => s.isGuard (n.id :: path) c) ask s
      rw [updateNode, updateStep_some frame ask hfind]
      refine ⟨hbelow.restore fun c hc => ?_, fun x hx => hstray x (by simpa using hx)⟩
      rw [stepUpdate, hid]
      exact hwithin.2 n hmem c (hrecalled c hc)

/-- In a tick, questions lead from the root of the tree. -/
theorem Tree.tick_bounded {t : Tree H} (h : Within ids K t.nodes) (frame : TickContext)
    (world : H.World) (audience : H.Audience) :
    let r := t.tick frame world audience
    Within ids K r.tree.nodes ∧
      ∀ id, .warning (.unresolved id) ∈ r.trace → Stray ids K t.root id := by
  have hdepth : (idle ids []).length ≤ t.size := by
    rw [← h.1]
    simp [idle, Tree.size]
  have hpath : ∀ a ∈ [], TransGen K a t.root := by simp
  exact updateNode_bounded frame .refl hpath hdepth (t.stage world audience) h

end Ticks

/-- A node of the tree recalls another one. -/
def Tree.Recalls (t : Tree H) (a b : NodeId) : Prop := ∃ n ∈ t.nodes, n.id = a ∧ b ∈ n.recalled

/-- What is picked from a trace is in it as the item that it was picked from. -/
theorem Trace.mem_filterMap_iff {α : Type} {pick : TraceItem H → Option α} {item : α → TraceItem H}
    (hpick : ∀ i a, pick i = some a ↔ i = item a) {τ : Trace H} {a : α} :
    a ∈ τ.filterMap pick ↔ item a ∈ τ := by
  simp only [List.mem_filterMap, hpick, exists_eq_right]

theorem Trace.mem_warnings {τ : Trace H} {w : Warning} : w ∈ τ.warnings ↔ .warning w ∈ τ := by
  apply mem_filterMap_iff
  intro i v
  cases i <;> simp

theorem Trace.mem_events {τ : Trace H} {e : StatusEvent} : e ∈ τ.events ↔ .event e ∈ τ := by
  apply mem_filterMap_iff
  intro i e'
  cases i <;> simp

/-- Ticks apart, the operation leaves the nodes alone. -/
def Operation.SparesNodes : Operation H → Prop
  | .tick _ | .subscribeAll _ | .setSeed _ | .editBlackboard _ | .elsewhere _ _ _ => True
  | _ => False

namespace Session

/-- In ticks without edits, questions are refused about strays only. -/
theorem run_strays {s : Session H} {ops : List (Operation H)} (hops : ∀ op ∈ ops, op.SparesNodes)
    {id : NodeId} (h : .unresolved id ∈ (s.run ops).2.warnings) :
    Stray s.tree.ids s.tree.Recalls s.tree.root id := by
  let P (s' : Session H) (τ : Trace H) : Prop :=
    Within s.tree.ids s.tree.Recalls s'.tree.nodes ∧ s'.tree.root = s.tree.root ∧
      ∀ x, .warning (.unresolved x) ∈ τ → Stray s.tree.ids s.tree.Recalls s.tree.root x
  have hstep : ∀ s' τ, ∀ op ∈ ops, P s' τ → P (s'.step op).1 (τ ++ (s'.step op).2) := by
    intro s' τ op hop ⟨hwithin, hroot, hstrays⟩
    cases op with
    | tick frame =>
      obtain ⟨hafter, hnew⟩ := Tree.tick_bounded hwithin frame s'.world s'.audience
      refine ⟨hafter, hroot, fun x hx => ?_⟩
      rcases List.mem_append.mp hx with hx | hx
      · exact hstrays x hx
      · exact hroot ▸ hnew x hx
    | subscribeAll _ | setSeed _ | editBlackboard _ | elsewhere _ _ _ =>
      refine ⟨hwithin, hroot, fun x hx => hstrays x ?_⟩
      simpa [step] using hx
    | create _ | add _ | delete _ | attach _ _ | detach _ _ | rename _ _ | move _ _
    | setAlwaysCheck _ _ | sortChildren _ | subscribe _ _ | setOwner _ => exact (hops _ hop).elim
  have hstart : P s [] :=
    ⟨⟨rfl, fun n hn c hc => ⟨n, hn, rfl, hc⟩⟩, rfl, fun _ hx => absurd hx List.not_mem_nil⟩
  exact (run_induct hstep hstart).2.2 id (Trace.mem_warnings.mp h)

end Session

/-! ### Removal -/

/-- A child is detached from its parent and then deleted, both with success. -/
def Session.Removes (s : Session H) (parent child : NodeId) (s' : Session H) : Prop :=
  ∃ t₁ t₂ supply, s.tree.detach? parent child = some t₁ ∧
    t₁.delete? child s.supply = (some t₂, supply) ∧ s' = { s with tree := t₂, supply := supply }

/-- Some link leads to the child beside the one from its parent that a detachment removes. -/
def Tree.LinkedTwice (t : Tree H) (parent child : NodeId) : Prop :=
  2 ≤ (t.children parent).count child ∨ ∃ n ∈ t.nodes, n.id ≠ parent ∧ child ∈ n.links

namespace Session.Removes

variable {s s' : Session H} {parent child id : NodeId}

theorem tree_eq (h : s.Removes parent child s') :
    s'.tree = (((s.tree.relink parent ((s.tree.children parent).erase child)).without
      child).ensureRoot s.supply).1 := by
  obtain ⟨t₁, t₂, supply, hdetach, hdelete, rfl⟩ := h
  unfold Tree.detach? at hdetach
  split at hdetach
  · obtain rfl := Option.some.inj hdetach
    unfold Tree.delete? at hdelete
    split at hdelete
    · exact (Option.some.inj (congrArg Prod.fst hdelete)).symm
    · cases congrArg Prod.fst hdelete
  · cases hdetach

/-- Any child that is there can be removed. -/
theorem of_run (hchild : child ∈ s.tree.children parent) (hlive : s.tree.contains child) :
    s.Removes parent child (s.run [.detach parent child, .delete child]).1 := by
  let t := s.tree.relink parent ((s.tree.children parent).erase child)
  let rooted := (t.without child).ensureRoot s.supply
  have hdetach : s.tree.detach? parent child = some t := if_pos hchild
  have hdelete : t.delete? child s.supply = (some rooted.1, rooted.2) := by
    have hstill : t.contains child := by
      rw [Tree.contains_iff_life, (s.tree.touches_relink _ _).life]
      exact Tree.contains_iff_life.mp hlive
    exact congrFun (if_pos hstill) s.supply
  refine ⟨t, _, _, hdetach, hdelete, ?_⟩
  simp only [Session.run, Session.step, Session.edited, hdetach, hdelete, Option.getD_some]

theorem live (h : s.Removes parent child s') : s'.tree.contains s'.tree.root := by
  rw [h.tree_eq]
  exact Tree.ensureRoot_live _ _

/-- Nobody else is lost. -/
theorem contains (h : s.Removes parent child s') (hid : id ≠ child) (hlive : s.tree.contains id) :
    s'.tree.contains id := by
  let t := s.tree.relink parent ((s.tree.children parent).erase child)
  have hlife : lifeIn (t.without child).nodes id = lifeIn s.tree.nodes id := by
    rw [Tree.without_life, if_neg hid, (s.tree.touches_relink _ _).life]
  rw [Tree.contains_iff_life, h.tree_eq]
  rcases (t.without child).ensureRoot_life s.supply id with hsame | ⟨-, -, hroot⟩
  · rw [hsame, hlife]
    exact Tree.contains_iff_life.mp hlive
  · rw [hroot]
    rfl

/-- Links are those that there were, and one less from the parent to the child. -/
theorem links (h : s.Removes parent child s') {n : Node H} (hn : n ∈ s'.tree.nodes)
    (hid : id ∈ n.links) :
    (∃ m ∈ s.tree.nodes, id ∈ m.links) ∧ (id = child → s.tree.LinkedTwice parent child) := by
  let t := s.tree.relink parent ((s.tree.children parent).erase child)
  have hold : n ∈ t.nodes := by
    rw [h.tree_eq] at hn
    rcases (t.without child).ensureRoot_spec s.supply with
      ⟨-, hrun⟩ | ⟨m, -, -, -, hnone, -, hrun⟩
    · rw [hrun] at hn
      exact List.mem_of_mem_filter hn
    · rw [hrun] at hn
      -- A root that takes the place of the one that is gone has no links.
      rcases Tree.mem_of_insert hn with rfl | hn
      · simp [hnone] at hid
      · exact List.mem_of_mem_filter hn
  rw [Tree.relink_nodes] at hold
  obtain ⟨m, hm, rfl⟩ := List.mem_map.mp hold
  split at hid
  -- What the parent has left is what it had, less one place of the child.
  · rw [Node.links, (NodeKind.setLinks_links _ _).2] at hid
    have hleft := (NodeType.fit_sublist _ _).subset hid
    obtain ⟨m', hm', hbefore⟩ := Tree.Links.exists_node (List.mem_of_mem_erase hleft)
    refine ⟨⟨m', (Tree.node?_some hm').1, hbefore⟩, ?_⟩
    rintro rfl
    have hcount := List.count_pos_iff.mpr hleft
    rw [List.count_erase_self] at hcount
    exact Or.inl (by omega)
  · next hother =>
    refine ⟨⟨m, hm, hid⟩, ?_⟩
    rintro rfl
    exact Or.inr ⟨m, hm, hother, hid⟩

end Session.Removes

/-- A child is detached from its parent and deleted, in a tree of which all links lead to nodes. If
the tree is only ticked from then on, an identifier is asked for in vain only if nodes that are
there recall it, step by step from the root on, and it lies on a circle of such steps or its node is
gone. In that case a node keeps it as a guard that it once collected, or as the choice of a run that
still goes on, or it is the deleted child and some link beside the one that was removed led to it. -/
theorem removed_child_unresolved {s s' : Session H} {parent child : NodeId}
    (hlinks : ∀ n ∈ s.tree.nodes, ∀ id ∈ n.links, s.tree.contains id)
    (hremoves : s.Removes parent child s') {ops : List (Operation H)}
    (hops : ∀ op ∈ ops, op.SparesNodes) {id : NodeId}
    (h : .unresolved id ∈ (s'.run ops).2.warnings) :
    ReflTransGen s'.tree.Recalls s'.tree.root id ∧
      (TransGen s'.tree.Recalls id id ∨ ¬ s'.tree.contains id ∧
        ∃ n ∈ s'.tree.nodes, ReflTransGen s'.tree.Recalls s'.tree.root n.id ∧
          (id ∈ n.kind.guards ∨ n.running ∧ n.kind.pinned? = some id ∨
            id = child ∧ id ∈ n.links ∧ s.tree.LinkedTwice parent child)) := by
  obtain ⟨hreach, hcircle | hgone⟩ := Session.run_strays hops h
  · exact ⟨hreach, Or.inl hcircle⟩
  · have hdead : ¬ s'.tree.contains id := fun hlive => hgone (Tree.contains_iff.mp hlive)
    refine ⟨hreach, Or.inr ⟨hdead, ?_⟩⟩
    rcases hreach.cases_tail with heq | ⟨a, ha, n, hn, rfl, hid⟩
    · exact absurd (heq ▸ hremoves.live) hdead
    · refine ⟨n, hn, ha, ?_⟩
      rcases Node.mem_recalled.mp hid with hlink | hguard | hpinned
      · obtain ⟨⟨m, hm, hbefore⟩, htwice⟩ := hremoves.links hn hlink
        have hchild : id = child := by
          by_contra hne
          exact hdead (hremoves.contains hne (hlinks m hm id hbefore))
        exact Or.inr (Or.inr ⟨hchild, hlink, htwice hchild⟩)
      · exact Or.inl hguard
      · exact Or.inr (Or.inl hpinned)

namespace Demo

/-- A child to be removed after some operations on a new tree, and who is then asked for in vain. -/
structure Removal where
  before : List (Operation smallHost)
  parent : NodeId
  child : NodeId
  missed : NodeId

def Removal.start (r : Removal) : Session smallHost := (sapling.run r.before).1

/-- All links lead to nodes, the child is removed, and the next tick asks for somebody in vain. -/
def Removal.Misses (r : Removal) : Prop :=
  Reached .builtin (fun _ => True) (2^128) r.start (sapling.run r.before).2 ∧
    (∀ n ∈ r.start.tree.nodes, ∀ id ∈ n.links, r.start.tree.contains id) ∧
    ∃ s, r.start.Removes r.parent r.child s ∧
      .unresolved r.missed ∈ (s.run [.tick ⟨1, 0, 0⟩]).2.warnings

theorem Removal.Misses.of_run {r : Removal}
    (hlinks : ∀ n ∈ r.start.tree.nodes, ∀ id ∈ n.links, r.start.tree.contains id)
    (hchild : r.child ∈ r.start.tree.children r.parent) (hlive : r.start.tree.contains r.child)
    (hmissed : .unresolved r.missed ∈ ((r.start.run [.detach r.parent r.child,
      .delete r.child]).1.run [.tick ⟨1, 0, 0⟩]).2.warnings) : r.Misses := by
  have hnew : Reached .builtin (fun _ => True) (2^128) sapling [] :=
    Reached.new (H := smallHost) counted_fresh _ _
  exact ⟨hnew.run fun _ _ => trivial, hlinks, _, .of_run hchild hlive, hmissed⟩

/-- The child is a guard of a sequence that runs. -/
def guardRemoval : Removal where
  before := [.add (.sequence (.idle [])), .attach (.ofNat 2) (.ofNat 3),
    .add (.action (Action.wait 3 3)), .attach (.ofNat 3) (.ofNat 4),
    .add (.action Action.succeed), .setAlwaysCheck (.ofNat 5) true,
    .attach (.ofNat 3) (.ofNat 5), .tick ⟨0, 0, 0⟩]
  parent := .ofNat 3
  child := .ofNat 5
  missed := .ofNat 5

/-- The child has been picked by a random choice that runs. -/
def pickRemoval : Removal where
  before := [.add (.randomChoice [] none), .attach (.ofNat 2) (.ofNat 3),
    .add (.action (Action.wait 3 3)), .attach (.ofNat 3) (.ofNat 4), .tick ⟨0, 0, 0⟩]
  parent := .ofNat 3
  child := .ofNat 4
  missed := .ofNat 4

/-- A sequence was made with the child in two places. -/
def pairRemoval : Removal where
  before := [.add (.action Action.succeed), .add (.sequence (.idle [.ofNat 3, .ofNat 3])),
    .attach (.ofNat 2) (.ofNat 4)]
  parent := .ofNat 4
  child := .ofNat 3
  missed := .ofNat 3

/-- A parallel node links to a sequence that links back to it, and has another child. -/
def circleRemoval : Removal where
  before := [.add (.parallel []), .attach (.ofNat 2) (.ofNat 3),
    .add (.sequence (.idle [.ofNat 3])), .attach (.ofNat 3) (.ofNat 4),
    .add (.action Action.succeed), .attach (.ofNat 3) (.ofNat 5)]
  parent := .ofNat 3
  child := .ofNat 5
  missed := .ofNat 3

end Demo

/-- A guard that has been removed is asked for by a node that still keeps it. -/
theorem removed_child_unresolved_guard :
    let r := Demo.guardRemoval
    ∃ s, r.start.Removes r.parent r.child s ∧
      .unresolved r.missed ∈ (s.run [.tick ⟨1, 0, 0⟩]).2.warnings ∧
      ∃ n ∈ s.tree.nodes, ReflTransGen s.tree.Recalls s.tree.root n.id ∧
        r.missed ∈ n.kind.guards := by
  intro r
  let s := (r.start.run [.detach r.parent r.child, .delete r.child]).1
  have hlinks : ∀ n ∈ r.start.tree.nodes, ∀ id ∈ n.links, r.start.tree.contains id := by
    decide +kernel
  have hremoves : r.start.Removes r.parent r.child s :=
    .of_run (by decide +kernel) (by decide +kernel)
  have hops : ∀ op ∈ [(.tick ⟨1, 0, 0⟩ : Operation Demo.smallHost)], op.SparesNodes :=
    List.forall_mem_singleton.mpr trivial
  have hmissed : .unresolved r.missed ∈ (s.run [.tick ⟨1, 0, 0⟩]).2.warnings := by
    decide +kernel
  obtain ⟨-, hcircle | ⟨-, n, hn, hreach, hkept⟩⟩ :=
    removed_child_unresolved hlinks hremoves hops hmissed
  · have hall : ∀ n ∈ s.tree.nodes, ∀ c ∈ n.recalled, n.id.uuid.bits < c.uuid.bits := by
      decide +kernel
    -- Identifiers grow along what nodes recall.
    have hgrows {a b : NodeId} (hab : TransGen s.tree.Recalls a b) : a.uuid.bits < b.uuid.bits := by
      induction hab with
      | single hlast =>
        obtain ⟨n, hn, rfl, hb⟩ := hlast
        exact hall n hn _ hb
      | tail _ hlast ih =>
        obtain ⟨n, hn, rfl, hc⟩ := hlast
        exact BitVec.lt_trans ih (hall n hn _ hc)
    exact absurd (hgrows hcircle) (BitVec.lt_irrefl _)
  · have hnone : ∀ n ∈ s.tree.nodes, n.kind.pinned? = none ∧ r.missed ∉ n.links := by
      decide +kernel
    obtain ⟨hpinned, hlink⟩ := hnone n hn
    rcases hkept with hguard | ⟨-, hpin⟩ | ⟨-, hleft, -⟩
    · exact ⟨s, hremoves, hmissed, n, hn, hreach, hguard⟩
    · rw [hpinned] at hpin
      cases hpin
    · exact absurd hleft hlink

theorem removed_child_missed : Demo.guardRemoval.Misses ∧ Demo.pickRemoval.Misses ∧
    Demo.pairRemoval.Misses ∧ Demo.circleRemoval.Misses := by
  refine ⟨.of_run ?_ ?_ ?_ ?_, .of_run ?_ ?_ ?_ ?_, .of_run ?_ ?_ ?_ ?_, .of_run ?_ ?_ ?_ ?_⟩
  all_goals decide +kernel

end BehaviourTree
