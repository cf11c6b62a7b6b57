import BehaviourTree.Proofs.Dangling
import BehaviourTree.Proofs.GuardHistory
import BehaviourTree.Proofs.Reachability

/-!
As long as nobody edits the links of a tree that has not been ticked before, what its nodes remember
of their children fits the children they have. So a tick asks for what can be reached from the root
and for nothing else.
-/

namespace BehaviourTree

open Ticking

variable {H : Host}

/-! ### What nodes remember fits their children -/

/-- Whose turn it is, in a node that takes its children in turn. -/
def NodeKind.turn? : NodeKind H → Option Nat
  | sequence s | selector s => some s.current
  | root _ | action _ | condition _ | repeater _ | parallel _ | randomChoice _ _ => none

/-- The guards are some of the children, each once, and a picked child is a child. -/
structure NodeKind.Fits (k : NodeKind H) : Prop where
  distinct : k.guards.Nodup
  guards : ∀ c ∈ k.guards, c ∈ k.links
  pinned : ∀ c, k.pinned? = some c → c ∈ k.links

/-- It is the turn of some child. -/
def NodeKind.InRange (k : NodeKind H) : Prop := ∀ turn, k.turn? = some turn → turn < k.links.length

/-- In a run it is also some child's turn. -/
structure Node.Fits (n : Node H) : Prop where
  kind : n.kind.Fits
  turn : n.running → n.kind.InRange

theorem collectGuards_nodup {flagged : NodeId → Bool} {children guards : List NodeId}
    (h : guards.Nodup) : (collectGuards flagged children guards).Nodup := by
  induction children generalizing guards with
  | nil => exact h
  | cons c children ih =>
    apply ih
    dsimp only
    split
    · next hc =>
      have hnew : c ∉ guards := by
        simp only [Bool.and_eq_true, Bool.not_eq_true', List.contains_eq_mem,
          decide_eq_false_iff_not] at hc
        exact hc.2
      simpa using h.concat hnew
    · exact h

namespace Series

/-- A run that goes on hands over to a child that there is. -/
theorem advance_inRange (ask : NodeId → Ticking H Status) {pass : Status} (hpass : pass ≠ .running)
    (s : Series) : Answers (fun r => r.1 = .running → r.2.current < r.2.children.length)
      (s.advance ask pass) := by
  unfold advance
  split
  · exact answers_pure nofun
  · next child hchild =>
    refine answers_bind (answers_any _) fun answer _ => ?_
    split
    · refine answers_pure fun hrunning => ?_
      split at hrunning
      · assumption
      · exact absurd hrunning hpass
    · exact answers_pure fun _ => (List.getElem?_eq_some_iff.mp hchild).1

theorem update_inRange (ask : NodeId → Ticking H Status) {pass : Status} (hpass : pass ≠ .running)
    (empty : Warning) (s : Series) :
    Answers (fun r => r.1 = .running → r.2.current < r.2.children.length)
      (s.update ask pass empty) := by
  unfold update
  split
  · exact answers_bind (answers_any _) fun _ _ => answers_pure nofun
  · refine answers_bind (answers_any _) fun holds _ => ?_
    split
    · exact s.advance_inRange ask hpass
    · exact answers_pure nofun

end Series

namespace NodeKind

theorem Fits.congr {k k' : NodeKind H} (h : k.Fits) (hlinks : k'.links = k.links)
    (hguards : k'.guards = k.guards) (hpinned : k'.pinned? = k.pinned?) : k'.Fits := by
  refine ⟨hguards ▸ h.distinct, ?_, ?_⟩
  · rw [hguards, hlinks]
    exact h.guards
  · rw [hpinned, hlinks]
    exact h.pinned

theorem Unentered.fits {k : NodeKind H} (h : k.Unentered) : k.Fits := by
  refine ⟨h.guards ▸ List.nodup_nil, fun c hc => ?_, fun c hc => ?_⟩
  · rw [h.guards] at hc
    cases hc
  · rw [h.pinned] at hc
    cases hc

theorem enter_fits (context : LeafContext) (flagged : NodeId → Bool) {k : NodeKind H}
    (h : k.Fits) : Answers Fits (k.enter context flagged) := by
  cases k with
  | action a => exact answers_bind (answers_any _) fun _ _ => answers_pure ⟨.nil, nofun, nofun⟩
  | sequence s | selector s =>
    refine answers_pure ⟨collectGuards_nodup h.distinct, fun c hc => ?_, nofun⟩
    rcases mem_collectGuards hc with hchild | hold
    · exact hchild
    · exact h.guards c hold
  | randomChoice cs _ =>
    refine answers_bind (pickChild_mem cs) fun picked hpicked => answers_pure ⟨.nil, nofun, ?_⟩
    exact fun c hc => hpicked c (Option.mem_toList.mpr hc)
  | root _ | condition _ | repeater _ | parallel _ => exact answers_pure h

theorem update_inRange (context : LeafContext) (ask : NodeId → Ticking H Status) (k : NodeKind H) :
    Answers (fun r => r.1 = .running → r.2.InRange) (k.update context ask) := by
  cases k with
  | root child => cases child <;> exact fun _ _ => nofun
  | repeater child => cases child <;> exact fun _ _ => nofun
  | randomChoice cs selected => cases selected <;> exact fun _ _ => nofun
  | sequence series | selector series =>
    refine answers_bind (series.update_inRange ask (by decide) _) ?_
    rintro ⟨status, series'⟩ hturn
    refine answers_pure fun hrunning turn hsome => ?_
    cases hsome
    exact hturn hrunning
  | action _ | condition _ | parallel _ => exact fun _ _ => nofun

theorem settle_fits (context : LeafContext) (status : Status) {k : NodeKind H} (h : k.Fits) :
    Answers (fun k' => k'.Fits ∧ (k.InRange → k'.InRange)) (k.settle context status) := by
  intro s
  rcases k.settle_cases context status s with hsame | ⟨a, a', rfl, haction⟩
  · rw [hsame]
    exact ⟨h, id⟩
  · rw [haction]
    exact ⟨⟨.nil, nofun, nofun⟩, fun _ => nofun⟩

end NodeKind

namespace Node

theorem Unentered.fits {n : Node H} (h : n.Unentered) : n.Fits :=
  ⟨h.1.fits, fun hrunning => by rw [h.2] at hrunning; cases hrunning⟩

theorem Fits.mem_links {n : Node H} (h : n.Fits) {c : NodeId} (hc : c ∈ n.recalled) :
    c ∈ n.links := by
  rcases mem_recalled.mp hc with hlink | hguard | ⟨-, hpinned⟩
  · exact hlink
  · exact h.kind.guards c hguard
  · exact h.kind.pinned c hpinned

/-- A run goes on only with a turn in range, whatever the turn was before. -/
theorem update_fits (frame : TickContext) (flagged : Stage H → NodeId → Bool)
    (ask : NodeId → Ticking H Status) {n : Node H} (h : n.Fits) :
    Answers (fun r => r.2.Fits) (n.update frame flagged ask) := by
  let context : LeafContext := ⟨frame, n.id, n.owner⟩
  have hbegin : Answers NodeKind.Fits (n.begin context flagged) := by
    unfold Node.begin
    split
    · exact answers_pure h.kind
    · refine answers_bind (answers_any _) fun _ _ => answers_bind (answers_any _) fun s _ => ?_
      exact n.kind.enter_fits context (flagged s) h.kind
  refine answers_bind hbegin fun kind hkind => ?_
  -- Of what the node remembers only the turn moves, and a run that goes on leaves it in range.
  have hupdate : Answers (fun r => r.2.Fits ∧ (r.1 = .running → r.2.InRange))
      (kind.update context ask) := by
    intro s
    obtain ⟨-, hlinks⟩ := kind.update_alike context ask s
    obtain ⟨hguards, hpinned⟩ := kind.update_gathered context ask s
    exact ⟨hkind.congr hlinks hguards hpinned, kind.update_inRange context ask s⟩
  refine answers_bind hupdate ?_
  rintro ⟨status, kind'⟩ ⟨hfits, hturn⟩
  refine answers_bind (answers_any _) fun observers _ => ?_
  refine answers_bind (kind'.settle_fits context status hfits) fun kind'' hsettled => ?_
  refine answers_pure ⟨hsettled.1, fun hrunning => hsettled.2 (hturn ?_)⟩
  cases status with
  | running => rfl
  | success | fail => cases hrunning

end Node

/-! ### Ticks -/

/-- All nodes fit their children, and no link leads out of `inside`. -/
structure Closed (inside : NodeId → Prop) (nodes : List (Node H)) : Prop where
  fits : ∀ n ∈ nodes, n.Fits
  links : ∀ id n, nodes.find? (·.id = id) = some n → inside id → ∀ c ∈ n.links, inside c

/-- Events are about nodes inside. -/
def Confined (inside : NodeId → Prop) (s : Stage H) (τ : Trace H) (s' : Stage H) : Prop :=
  Closed inside s.nodes → Closed inside s'.nodes ∧ ∀ e, .event e ∈ τ → inside e.node

section Ticks

variable {inside : NodeId → Prop}

theorem confined_steady {id : NodeId} (hid : inside id) :
    Steady id (Confined (H := H) inside) := by
  refine ⟨?_, ?_⟩
  · intro s τ s' τ' s'' h h' hbefore
    obtain ⟨hbetween, hfirst⟩ := h hbefore
    obtain ⟨hafter, hsecond⟩ := h' hbetween
    exact ⟨hafter, fun e he => (List.mem_append.mp he).elim (hfirst e) (hsecond e)⟩
  · intro s τ s' hnodes hown hbefore
    refine ⟨hnodes ▸ hbefore, fun e he => ?_⟩
    have hnode : e.node = id := hown _ he
    exact hnode ▸ hid

theorem Closed.restore {s : Stage H} (h : Closed inside s.nodes) {n : Node H} (hn : n.Fits)
    (hlinks : ∀ c ∈ n.links, inside c) : Closed inside (s.restore n).nodes := by
  refine ⟨fun m hm => ?_, fun id m hm hid => ?_⟩
  · obtain ⟨m', hm', rfl⟩ := List.mem_map.mp hm
    split
    · exact hn
    · exact h.fits m' hm'
  · change (s.restore n).node? id = some m at hm
    rw [Stage.restore_node?] at hm
    split at hm
    · obtain ⟨_, -, rfl⟩ := Option.map_eq_some_iff.mp hm
      exact hlinks
    · exact h.links id m hm hid

/-- Questions that start inside stay inside: what a node asks for is among its links. -/
theorem updateNode_confined (frame : TickContext) (depth : Nat) (path : List NodeId) {id : NodeId}
    (hid : inside id) : Keeps (Confined (H := H) inside) (updateNode frame depth path id) := by
  apply updateNode_induct_of (A := fun _ id => inside id) (R := fun _ => Confined (H := H) inside)
  · exact fun _ _ _ _ hclosed => ⟨hclosed, fun e he => by simp [refusal] at he⟩
  · intro path id s n ask hid hfind hask hclosed
    obtain ⟨hmem, rfl, hpath⟩ := find?_some hfind
    have hlinks : ∀ c ∈ n.links, inside c := by
      rw [Stage.find?_eq_node? hpath] at hfind
      exact hclosed.links n.id n hfind hid
    have hfits : n.Fits := hclosed.fits n hmem
    have hrecalled : ∀ c ∈ n.recalled, Keeps (Confined (H := H) inside) (ask c) :=
      fun c hc => hask c (hlinks c (hfits.mem_links hc))
    obtain ⟨hbelow, hevents⟩ := n.update_keeps_recalled frame
      (fun s c => s.isGuard (n.id :: path) c) (confined_steady hid) hrecalled s hclosed
    have hprofile : (stepUpdate frame path ask n s).answer.2.profile = n.profile :=
      n.update_profile frame _ ask s
    have hsame : (stepUpdate frame path ask n s).answer.2.links = n.links :=
      congrArg Profile.links hprofile
    rw [updateStep_some frame ask hfind]
    refine ⟨hbelow.restore (n.update_fits frame _ ask hfits s) (hsame ▸ hlinks), fun e he => ?_⟩
    exact hevents e (by simpa using he)
  · exact hid

end Ticks

/-! ### Trees with the same links -/

namespace Tree

variable {t t' : Tree H} {id : NodeId}

/-- The second tree has the nodes and the links of the first. -/
structure LinkedAs (t t' : Tree H) : Prop where
  root : t'.root = t.root
  links : ∀ id, (t'.node? id).map (·.links) = (t.node? id).map (·.links)

theorem LinkedAs.trans {t'' : Tree H} (h : t.LinkedAs t') (h' : t'.LinkedAs t'') :
    t.LinkedAs t'' :=
  ⟨h'.root.trans h.root, fun id => (h'.links id).trans (h.links id)⟩

theorem LinkedAs.links_eq (h : t.LinkedAs t') : t'.Links = t.Links := by
  funext p c
  rw [Links, Links, children, children, h.links]

theorem LinkedAs.contains_eq (h : t.LinkedAs t') (id : NodeId) :
    t'.contains id = t.contains id := by
  simpa only [contains, Option.isSome_map] using congrArg Option.isSome (h.links id)

theorem LinkedAs.mem_reachable (h : t.LinkedAs t') : id ∈ t'.reachable ↔ id ∈ t.reachable := by
  rw [mem_reachable_iff, mem_reachable_iff, Reaches, Reaches, h.links_eq, h.root, h.contains_eq]

theorem LinkedAs.linksFormTree (h : t.LinkedAs t') (htree : t.LinksFormTree) :
    t'.LinksFormTree := by
  have hchildren (p : NodeId) : t'.children p = t.children p := by
    rw [children, children, h.links]
  refine ⟨?_, ?_, ?_, ?_⟩
  · rw [Reaches, h.links_eq, h.root]
    exact fun id hid => h.contains_eq id ▸ htree.live id hid
  · rw [Reaches, h.links_eq, h.root]
    exact fun p hp => hchildren p ▸ htree.once p hp
  · rw [Reaches, h.links_eq, h.root]
    exact htree.parent
  · rw [Reaches, h.links_eq, h.root]
    exact htree.acyclic

theorem LinkedAs.of_map {f : Node H → Node H} (hroot : t'.root = t.root)
    (hnodes : t'.nodes = t.nodes.map f) (hf : ∀ n, (f n).id = n.id ∧ (f n).links = n.links) :
    t.LinkedAs t' := by
  refine ⟨hroot, fun id => ?_⟩
  rw [node?_map (fun n => (hf n).1) hnodes id, Option.map_map]
  exact Option.map_congr fun n _ => (hf n).2

/-- Where what nodes remember fits their children, a tick stays among the nodes that can be reached,
and leaves the others as they are. -/
theorem tick_within (hfits : ∀ n ∈ t.nodes, n.Fits) (frame : TickContext) (world : H.World)
    (audience : H.Audience) :
    let r := t.tick frame world audience
    (∀ n ∈ r.tree.nodes, n.Fits) ∧ t.LinkedAs r.tree ∧
      (∀ e ∈ r.trace.events, e.node ∈ t.reachable) ∧
      ∀ id ∉ t.reachable, r.tree.node? id = t.node? id := by
  intro r
  let stage := t.stage world audience
  have hclosed : Closed (t.Reaches t.root) stage.nodes := by
    refine ⟨hfits, fun id n hn hid c hc => hid.tail ?_⟩
    rw [Links, children_of_node? hn]
    exact hc
  have hroot : t.Reaches t.root t.root := .refl
  obtain ⟨hafter, hinside⟩ := updateNode_confined frame t.size [] hroot stage hclosed
  have htells : Tells frame [] stage r.trace _ := updateNode_tells frame t.size [] t.root stage
  have hevents : ∀ e ∈ r.trace.events, e.node ∈ t.reachable := by
    intro e he
    -- An event is about a node that is there, and questions lead to it from the root.
    obtain ⟨n, hn, -⟩ := Option.map_eq_some_iff.mp (htells.events e he).2.1
    have hlive : t.contains e.node := Option.isSome_iff_exists.mpr ⟨n, hn⟩
    exact mem_reachable_iff.mpr ⟨hinside e (Trace.mem_events.mp he), hlive⟩
  refine ⟨hafter.fits, ⟨rfl, fun id => ?_⟩, hevents, fun id hid => htells.others id ?_⟩
  · have hprofile := (updateNode_notices frame id t.size [] t.root stage).passes.1 id
    have hlinks := congrArg (Option.map Profile.links) hprofile
    simp only [profileIn, Option.map_map] at hlinks
    exact hlinks
  · intro e he hsame
    exact hid (hsame ▸ hevents e he)

end Tree

/-! ### Runs without edits of the structure -/

/-- The operation makes a node or takes one away, or changes the links of one. -/
def Operation.Structural : Operation H → Prop
  | .create _ | .add _ | .delete _ | .attach _ _ | .detach _ _ | .sortChildren _ => True
  | .rename _ _ | .move _ _ | .setAlwaysCheck _ _ | .subscribe _ _ | .subscribeAll _ | .setOwner _
  | .setSeed _ | .editBlackboard _ | .tick _ | .elsewhere _ _ _ => False

/-- The operation gives the node another name, place or flag, or an observer of its own. -/
def Operation.Labels (id : NodeId) : Operation H → Prop
  | .rename d _ | .move d _ | .setAlwaysCheck d _ | .subscribe d _ => d = id
  | _ => False

/-- Who a node is, its kind and its run are what they were. -/
structure Node.Relabelled (n n' : Node H) : Prop where
  id : n'.id = n.id
  kind : n'.kind = n.kind
  running : n'.running = n.running

theorem Node.Relabelled.refl (n : Node H) : n.Relabelled n := ⟨rfl, rfl, rfl⟩

theorem Node.Relabelled.fits {n n' : Node H} (h : n.Relabelled n') (hn : n.Fits) : n'.Fits := by
  refine ⟨h.kind ▸ hn.kind, fun hrunning => ?_⟩
  rw [h.kind]
  exact hn.turn (h.running ▸ hrunning)

namespace Tree

variable {t t' : Tree H} {op : Operation H}

/-- Only the labels of nodes are changed, and only where the operation says so or, since owners hold
what can be reached, where the root leads to. -/
structure LabelledBy (op : Operation H) (t t' : Tree H) : Prop where
  root : t'.root = t.root
  nodes : ∃ f : Node H → Node H, t'.nodes = t.nodes.map f ∧
    ∀ n, n.Relabelled (f n) ∧ (¬ op.Labels n.id → n.id ∉ t.reachable → f n = n)

theorem LabelledBy.of_same (hroot : t'.root = t.root) (hnodes : t'.nodes = t.nodes) :
    t.LabelledBy op t' :=
  ⟨hroot, id, by rw [hnodes, List.map_id], fun n => ⟨.refl n, fun _ _ => rfl⟩⟩

theorem labelledBy_editNode {f : Node H → Node H} (t : Tree H) {id : NodeId}
    (hid : op.Labels id) (hf : ∀ n : Node H, n.Relabelled (f n)) :
    t.LabelledBy op ((t.editNode? id f).getD t) := by
  unfold editNode?
  split
  · refine ⟨rfl, _, rfl, fun n => ⟨?_, fun hnot _ => if_neg ?_⟩⟩
    · split
      · exact hf n
      · exact .refl n
    · rintro rfl
      exact hnot hid
  · exact .of_same rfl rfl

theorem labelledBy_setOwner (t : Tree H) (agent : AgentHandle) :
    t.LabelledBy op (t.setOwner agent) := by
  refine ⟨rfl, _, rfl, fun n => ⟨?_, fun _ hout => if_neg hout⟩⟩
  split
  · exact ⟨rfl, rfl, rfl⟩
  · exact .refl n

end Tree

namespace Session

variable {s : Session H} {op : Operation H} {ops : List (Operation H)}

/-- Between its ticks nothing is done to a tree but that labels are changed. -/
theorem step_labelled (hop : ¬ op.Structural) (htick : ∀ frame, op ≠ .tick frame) :
    s.tree.LabelledBy op (s.step op).1.tree ∧ (s.step op).2 = [] := by
  cases op with
  | tick frame => exact absurd rfl (htick frame)
  | rename id name | move id position | setAlwaysCheck id alwaysCheck | subscribe id o =>
    exact ⟨s.tree.labelledBy_editNode rfl fun _ => ⟨rfl, rfl, rfl⟩, rfl⟩
  | setOwner agent => exact ⟨s.tree.labelledBy_setOwner agent, rfl⟩
  | subscribeAll _ | setSeed _ | editBlackboard _ | elsewhere _ _ _ => exact ⟨.of_same rfl rfl, rfl⟩
  | create _ | add _ | delete _ | attach _ _ | detach _ _ | sortChildren _ =>
    exact absurd trivial hop

/-- What holds of a session, after a trace, that came of another one without a structural edit. -/
structure Maintained (first : Session H) (ops : List (Operation H)) (s : Session H) (τ : Trace H) :
    Prop where
  fits : ∀ n ∈ s.tree.nodes, n.Fits
  linked : first.tree.LinkedAs s.tree
  events : ∀ e ∈ τ.events, e.node ∈ first.tree.reachable
  others : ∀ id ∉ first.tree.reachable, (∀ op ∈ ops, ¬ op.Labels id) →
    s.tree.node? id = first.tree.node? id

section Maintained

variable {first : Session H} {τ : Trace H}

theorem Maintained.tick (h : Maintained first ops s τ) (frame : TickContext) :
    Maintained first ops (s.step (.tick frame)).1 (τ ++ (s.step (.tick frame)).2) := by
  obtain ⟨hfits, hlinked, hevents, hothers⟩ := Tree.tick_within h.fits frame s.world s.audience
  refine ⟨hfits, h.linked.trans hlinked, fun e he => ?_, fun id hid hnone => ?_⟩
  · rw [Trace.events_append] at he
    rcases List.mem_append.mp he with he | he
    · exact h.events e he
    · exact h.linked.mem_reachable.mp (hevents e he)
  · exact (hothers id (mt h.linked.mem_reachable.mp hid)).trans (h.others id hid hnone)

theorem Maintained.labelled {s' : Session H} (h : Maintained first ops s τ) (hop : op ∈ ops)
    (hlabelled : s.tree.LabelledBy op s'.tree) : Maintained first ops s' τ := by
  obtain ⟨f, hnodes, hf⟩ := hlabelled.nodes
  have hlinks (n : Node H) : (f n).links = n.links := congrArg NodeKind.links (hf n).1.kind
  refine ⟨fun n' hn' => ?_, ?_, h.events, fun id hid hnone => ?_⟩
  · rw [hnodes] at hn'
    obtain ⟨n, hn, rfl⟩ := List.mem_map.mp hn'
    exact (hf n).1.fits (h.fits n hn)
  · exact h.linked.trans (.of_map hlabelled.root hnodes fun n => ⟨(hf n).1.id, hlinks n⟩)
  -- No label of the node is changed, and it cannot be reached, so it is not given an owner either.
  · rw [← h.others id hid hnone, Tree.node?_map (fun n => (hf n).1.id) hnodes id]
    cases hn : s.tree.node? id with
    | none => rfl
    | some n =>
      obtain ⟨-, rfl⟩ := Tree.node?_some hn
      exact congrArg some ((hf n).2 (hnone op hop) (mt h.linked.mem_reachable.mp hid))

theorem Maintained.step (h : Maintained first ops s τ) (hop : op ∈ ops)
    (hstructure : ¬ op.Structural) : Maintained first ops (s.step op).1 (τ ++ (s.step op).2) := by
  by_cases htick : ∃ frame, op = .tick frame
  · obtain ⟨frame, rfl⟩ := htick
    exact h.tick frame
  · rw [not_exists] at htick
    obtain ⟨hlabelled, htrace⟩ := step_labelled (s := s) hstructure htick
    rw [htrace, List.append_nil]
    exact h.labelled hop hlabelled

end Maintained

theorem run_maintained (hfits : ∀ n ∈ s.tree.nodes, n.Fits) (hops : ∀ op ∈ ops, ¬ op.Structural) :
    Maintained s ops (s.run ops).1 (s.run ops).2 := by
  have hstart : Maintained s ops s [] :=
    ⟨hfits, ⟨rfl, fun _ => rfl⟩, fun e he => absurd he List.not_mem_nil, fun _ _ _ => rfl⟩
  exact run_induct (fun _ _ op hop h => h.step hop (hops op hop)) hstart

end Session

/-- A tree as it has just been made of a template, with children searched for loops in any order, or
as a copy of any tree. -/
inductive Tree.FreshlyBuilt : Tree H → Prop where
  | ofTemplate {registry : Registry H} {visit : List NodeId → List NodeId} {a : TreeTemplate}
      {supply supply' : IdSupply} {t : Tree H} (unentered : registry.Unentered)
      (built : Tree.ofTemplateVia visit registry a supply = (.ok t, supply')) : FreshlyBuilt t
  | instantiate (t : Tree H) (supply : IdSupply) : FreshlyBuilt (t.instantiate supply).1

theorem Tree.FreshlyBuilt.fits {t : Tree H} (h : t.FreshlyBuilt) : ∀ n ∈ t.nodes, n.Fits := by
  cases h with
  | ofTemplate unentered built =>
    exact fun n hn => (Tree.ofTemplateVia_unentered unentered built n hn).fits
  | instantiate t supply => exact fun n hn => (t.instantiate_unentered supply n hn).fits

namespace Demo

/-- A sequence of a wait and a guard, and a node that is not attached. -/
def grove : TreeTemplate where
  nodes := [⟨.ofNat 1, "Root", none, false, .zero, [.ofNat 2]⟩,
    ⟨.ofNat 2, "Sequence", none, false, .zero, [.ofNat 3, .ofNat 4]⟩,
    ⟨.ofNat 3, "Wait", none, false, .zero, []⟩, ⟨.ofNat 4, "Succeed", none, true, .zero, []⟩,
    ⟨.ofNat 5, "Succeed", none, false, .zero, []⟩]

def groveKinds : Registry smallHost :=
  (Registry.builtin.register "Wait" (.action (Action.wait 3 3))).register "Succeed"
    (.action Action.succeed)

def planted : Except TreeError (Tree smallHost) × IdSupply :=
  Tree.ofTemplateVia List.reverse groveKinds grove (counted.skip 10)

end Demo

end BehaviourTree
