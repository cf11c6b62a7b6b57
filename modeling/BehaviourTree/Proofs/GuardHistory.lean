import BehaviourTree.Proofs.Beginnings
import BehaviourTree.Proofs.TickEvents

/-!
Where guards come from. Sequences and selectors look through their children for flags whenever they
begin a run, and at no other time; what they have noticed they never forget.
-/

namespace BehaviourTree

open Ticking

variable {H : Host} {id : NodeId} {path : List NodeId}

/-- The nodes that take their children in turn, and poll some of them as guards. -/
def NodeType.InTurn (type : NodeType) : Prop := type = .sequence ∨ type = .selector

/-! ### Collecting -/

/-- To go on collecting is to keep each of a longer list at its first occurrence. -/
theorem collectGuards_eraseDups (flagged : NodeId → Bool) (children seen : List NodeId) :
    collectGuards flagged children seen.eraseDups =
      (seen ++ children.filter flagged).eraseDups := by
  induction children generalizing seen with
  | nil => simp [collectGuards]
  | cons c children ih =>
    have hstep : collectGuards flagged (c :: children) seen.eraseDups =
        collectGuards flagged children
          (if flagged c && !seen.eraseDups.contains c then seen.eraseDups ++ [c]
            else seen.eraseDups) := rfl
    -- A flagged child extends what has been seen, or has been seen before.
    cases hflag : flagged c with
    | false =>
      rw [hstep, hflag, Bool.false_and, if_neg Bool.false_ne_true, ih,
        List.filter_cons_of_neg (by simp [hflag])]
    | true =>
      have hone : (if true && !seen.eraseDups.contains c then seen.eraseDups ++ [c]
          else seen.eraseDups) = (seen ++ [c]).eraseDups := by
        rw [List.eraseDups_append]
        by_cases hc : c ∈ seen
        · simp [hc, List.removeAll]
        · simp [hc, List.removeAll, List.eraseDups_cons]
      rw [hstep, hflag, hone, ih, List.filter_cons_of_pos hflag, List.append_assoc,
        List.singleton_append]

/-- What can be known of a node while runs go on. -/
def profileIn (nodes : List (Node H)) (id : NodeId) : Option Profile :=
  (nodes.find? (·.id = id)).map Node.profile

/-- The children of a node that carry the flag, in the order of their list, without those that
cannot be found because they are not there or are on `path`, the nodes in the midst of updates. -/
def flaggedChildren (nodes : List (Node H)) (path : List NodeId) (id : NodeId) : List NodeId :=
  (((nodes.find? (·.id = id)).map (·.links)).getD []).filter fun c =>
    c ∉ path && (nodes.find? (·.id = c)).any (·.alwaysCheck)

theorem flaggedChildren_congr {nodes nodes' : List (Node H)}
    (h : ∀ c, profileIn nodes' c = profileIn nodes c) (path : List NodeId) (id : NodeId) :
    flaggedChildren nodes' path id = flaggedChildren nodes path id := by
  have hflaggedChildren (nodes : List (Node H)) : flaggedChildren nodes path id =
      (((profileIn nodes id).map (·.links)).getD []).filter fun c =>
        c ∉ path && (profileIn nodes c).any (·.alwaysCheck) := by
    simp only [flaggedChildren, profileIn, Option.map_map, Option.any_map]
    rfl
  simp only [hflaggedChildren, h]

/-! ### Entries -/

namespace Trace

/-- The entries of a node, each with the nodes whose updates are in progress at that moment; `path`
lists those at the start of the trace. -/
def entries (id : NodeId) : List NodeId → Trace H → List (List NodeId)
  | _, [] => []
  | path, .asked _ child :: rest => entries id (child :: path) rest
  | path, .answered _ _ _ :: rest => entries id path.tail rest
  | path, .entered node :: rest =>
    if node = id then path :: entries id path rest else entries id path rest
  | path, _ :: rest => entries id path rest

theorem entries_append (id : NodeId) (path : List NodeId) (τ τ' : Trace H) :
    entries id path (τ ++ τ') = entries id path τ ++ entries id (pending path τ) τ' := by
  induction τ generalizing path with
  | nil => rfl
  | cons i τ ih =>
    cases i with
    | entered node =>
      simp only [List.cons_append, entries, pending]
      split
      · rw [ih, List.cons_append]
      · exact ih path
    | asked _ _ | answered _ _ _ | called _ _ | note _ | event _ | warning _ => exact ih _

theorem entries_eq_nil {τ : Trace H} (h : .entered id ∉ τ) (path : List NodeId) :
    entries id path τ = [] := by
  induction τ generalizing path with
  | nil => rfl
  | cons i τ ih =>
    have hτ : .entered id ∉ τ := fun hmem => h (List.mem_cons_of_mem i hmem)
    cases i with
    | entered node =>
      have hne : node ≠ id := fun heq => h (heq ▸ List.mem_cons_self)
      rw [entries, if_neg hne]
      exact ih hτ path
    | asked _ _ | answered _ _ _ | called _ _ | note _ | event _ | warning _ => exact ih hτ _

end Trace

/-! ### One update -/

namespace NodeKind

theorem setLinks_guards (k : NodeKind H) (cs : List NodeId) :
    (k.setLinks cs).guards = k.guards := by
  cases k <;> rfl

/-- What is collected or drawn on an entry is kept for the run. -/
theorem update_gathered (context : LeafContext) (ask : NodeId → Ticking H Status)
    (k : NodeKind H) : Answers (fun r => r.2.guards = k.guards ∧ r.2.pinned? = k.pinned?)
      (k.update context ask) := by
  cases k with
  | root child => cases child <;> exact fun _ => ⟨rfl, rfl⟩
  | repeater child => cases child <;> exact fun _ => ⟨rfl, rfl⟩
  | randomChoice cs selected => cases selected <;> exact fun _ => ⟨rfl, rfl⟩
  | sequence series | selector series =>
    refine answers_bind (series.update_turn ask _ _) ?_
    rintro ⟨status, _⟩ ⟨turn, rfl⟩
    exact answers_pure ⟨rfl, rfl⟩
  | action _ | condition _ | parallel _ => exact fun _ => ⟨rfl, rfl⟩

theorem settle_memory (context : LeafContext) (status : Status) (k : NodeKind H) :
    Answers (fun k' => k'.memory = k.memory) (k.settle context status) := by
  intro s
  rcases k.settle_cases context status s with hsame | ⟨a, a', rfl, haction⟩
  · rw [hsame]
  · rw [haction]
    rfl

/-- Once it has been entered, a node enters nobody but through those it asks. -/
theorem update_entered {context : LeafContext} {ask : NodeId → Ticking H Status}
    (hask : ∀ c, Keeps (fun _ τ _ => .entered id ∉ τ) (ask c)) (k : NodeKind H) :
    Keeps (fun _ τ _ => .entered id ∉ τ) (k.update context ask) := by
  have hP : Compositional (H := H) fun _ m _ => Keeps (fun _ τ _ => .entered id ∉ τ) m := by
    refine ⟨fun hm hf s => ?_, fun _ _ => List.not_mem_nil, fun _ _ => by simp⟩
    exact fun hmem => (List.mem_append.mp hmem).elim (hm s) (hf _ _)
  have hleaf {Leaf α : Type} (hook : α → LeafHook)
      (call : H.Shared → LeafStep Leaf H.Shared H.Note α) :
      Keeps (fun _ τ _ => .entered id ∉ τ) (leaf context.node hook call) := by
    intro s
    simp [leaf]
  exact @update_congr H (fun _ m _ => Keeps (fun _ τ _ => .entered id ∉ τ) m) ask ask context hP
    (fun _ => hleaf _ _) (fun _ => hleaf _ _) k fun c _ => hask c

end NodeKind

namespace Node

/-- A node that takes its children in turn is entered unless it runs, and collects guards then. -/
theorem begin_inTurn (context : LeafContext) (flagged : Stage H → NodeId → Bool) {n : Node H}
    (hn : n.nodeType.InTurn) (s : Stage H) :
    let p := n.begin context flagged s
    p.trace = (if n.running then [] else [.entered n.id]) ∧
      p.answer.guards =
        if n.running then n.kind.guards else collectGuards (flagged s) n.links n.kind.guards := by
  intro p
  by_cases hrunning : n.running
  · have hrun : p = ⟨n.kind, s, []⟩ := by simp [p, Node.begin, hrunning]
    rw [hrun, if_pos hrunning, if_pos hrunning]
    exact ⟨rfl, rfl⟩
  · have hrun : p = ⟨(n.kind.enter context (flagged s) s).answer,
        (n.kind.enter context (flagged s) s).stage,
        .entered n.id :: (n.kind.enter context (flagged s) s).trace⟩ := by
      simp [p, Node.begin, hrunning]
    rw [hrun, if_neg hrunning, if_neg hrunning]
    unfold nodeType at hn
    unfold links
    cases hkind : n.kind with
    | sequence _ | selector _ => exact ⟨rfl, rfl⟩
    | root _ | action _ | condition _ | repeater _ | parallel _ | randomChoice _ _ =>
      rw [hkind] at hn
      simp [NodeType.InTurn, NodeKind.nodeType] at hn

theorem update_inTurn (frame : TickContext) (flagged : Stage H → NodeId → Bool)
    {ask : NodeId → Ticking H Status} {n : Node H} (hn : n.nodeType.InTurn)
    (hask : ∀ c, Keeps (fun _ τ _ => .entered n.id ∉ τ) (ask c)) (s : Stage H) :
    let p := n.update frame flagged ask s
    (∃ τ, p.trace = (if n.running then [] else [.entered n.id]) ++ τ ∧ .entered n.id ∉ τ) ∧
      p.answer.2.kind.guards =
        if n.running then n.kind.guards else collectGuards (flagged s) n.links n.kind.guards := by
  intro p
  let context : LeafContext := ⟨frame, n.id, n.owner⟩
  let begun := n.begin context flagged s
  let updated := begun.answer.update context ask begun.stage
  let status := updated.answer.1
  let announced := announce ⟨frame.tick, n.id, n.guid, status⟩ n.observers updated.stage
  let settled := updated.answer.2.settle context status announced.stage
  obtain ⟨hentry, hguards⟩ := begin_inTurn context flagged hn s
  have hupdated : .entered n.id ∉ updated.trace :=
    NodeKind.update_entered hask begun.answer begun.stage
  obtain ⟨-, -, behind, hannounced, hbehind⟩ :=
    announce_hear ⟨frame.tick, n.id, n.guid, status⟩ n.observers updated.stage
  obtain ⟨-, -, -, hsettled⟩ := updated.answer.2.settle_writes context status announced.stage
  refine ⟨⟨updated.trace ++ (announced.trace ++ settled.trace), ?_, fun hmem => ?_⟩, ?_⟩
  · rw [← hentry]
    change begun.trace ++ (updated.trace ++ (announced.trace ++ (settled.trace ++ []))) = _
    rw [List.append_nil]
  -- Behind its event a node enters nobody either.
  · rcases List.mem_append.mp hmem with hmem | hmem
    · exact hupdated hmem
    · rcases List.mem_append.mp hmem with hmem | hmem
      · rw [show announced.trace = _ from hannounced] at hmem
        rcases List.mem_cons.mp hmem with heq | hmem
        · cases heq
        · exact hbehind _ hmem
      · exact hsettled _ hmem
  · calc settled.answer.guards
      _ = updated.answer.2.guards := by
        rw [NodeKind.guards_eq, updated.answer.2.settle_memory context status announced.stage,
          ← NodeKind.guards_eq]
      _ = begun.answer.guards := (begun.answer.update_gathered context ask begun.stage).1
      _ = _ := hguards

end Node

/-! ### Ticks -/

theorem profileIn_restore {s : Stage H} {n : Node H} (h : profileIn s.nodes n.id = some n.profile)
    (c : NodeId) : profileIn (s.restore n).nodes c = profileIn s.nodes c := by
  have hfound : profileIn (s.restore n).nodes c =
      if c = n.id then (profileIn s.nodes c).map fun _ => n.profile else profileIn s.nodes c := by
    change ((s.restore n).node? c).map Node.profile = _
    rw [Stage.restore_node?, apply_ite (Option.map Node.profile), Option.map_map]
    unfold profileIn
    rw [Option.map_map]
    rfl
  rw [hfound]
  split
  · next hc => rw [hc, h, Option.map_some]
  · rfl

/-- The guards of the node, if it takes its children in turn, are the nodes it has ever seen flagged
on an entry, each where it was first seen. -/
def Remembers (nodes : List (Node H)) (id : NodeId) (seen : List NodeId) : Prop :=
  ∀ n, nodes.find? (·.id = id) = some n → n.nodeType.InTurn → n.kind.guards = seen.eraseDups

/-- Below the updates of the nodes on the path, no node becomes another and all questions are
answered. -/
def Passes (path : List NodeId) (s : Stage H) (τ : Trace H) (s' : Stage H) : Prop :=
  (∀ c, profileIn s'.nodes c = profileIn s.nodes c) ∧ Trace.pending path τ = path

/-- In addition the node is entered only if its update is not in progress, and at every entry it
notices the children that are flagged. -/
structure Notices (id : NodeId) (path : List NodeId) (s : Stage H) (τ : Trace H) (s' : Stage H) :
    Prop where
  passes : Passes path s τ s'
  entered : id ∈ path → .entered id ∉ τ
  remembers : ∀ seen, Remembers s.nodes id seen → Remembers s'.nodes id
    (seen ++ (τ.entries id path).flatMap fun busy => flaggedChildren s.nodes busy id)

theorem Passes.append {s s' s'' : Stage H} {τ τ' : Trace H} (h : Passes path s τ s')
    (h' : Passes path s' τ' s'') : Passes path s (τ ++ τ') s'' := by
  refine ⟨fun c => (h'.1 c).trans (h.1 c), ?_⟩
  rw [Trace.pending_append, h.2, h'.2]

theorem passes_own {caller : NodeId} {s s' : Stage H} {τ : Trace H} (hnodes : s'.nodes = s.nodes)
    (hown : ∀ i ∈ τ, i.OwnTo caller) : Passes path s τ s' := by
  refine ⟨fun c => ?_, (@Trace.pending_own H [] path caller τ hown).1⟩
  rw [hnodes]

/-- Whatever another node does by itself, the node is not entered. -/
theorem notices_steady {caller : NodeId} (hcaller : caller ≠ id) :
    Steady caller (Notices (H := H) id path) := by
  refine ⟨?_, ?_⟩
  · intro s τ s' τ' s'' h h'
    refine ⟨h.passes.append h'.passes, fun hid hmem => ?_, fun seen hseen => ?_⟩
    · exact (List.mem_append.mp hmem).elim (h.entered hid) (h'.entered hid)
    · have hafter := h'.remembers _ (h.remembers seen hseen)
      simp only [flaggedChildren_congr h.passes.1] at hafter
      rwa [Trace.entries_append, h.passes.2, List.flatMap_append, ← List.append_assoc]
  · intro s τ s' hnodes hown
    have hnone : .entered id ∉ τ := fun hmem => hcaller (hown _ hmem).symm
    refine ⟨passes_own hnodes hown, fun _ => hnone, fun seen hseen => ?_⟩
    rw [Trace.entries_eq_nil hnone, List.flatMap_nil, List.append_nil, hnodes]
    exact hseen

section Step

variable {frame : TickContext} {s : Stage H} {n : Node H} {ask : NodeId → Ticking H Status}

theorem profileIn_of_find? {id : NodeId} (hfind : s.find? path id = some n) :
    profileIn s.nodes id = some n.profile := by
  obtain ⟨-, -, hpath⟩ := find?_some hfind
  rw [Stage.find?_eq_node? hpath] at hfind
  exact congrArg (Option.map Node.profile) hfind

/-- A node that has been updated is put back as the one that was found. -/
theorem stepUpdate_profileIn (hfind : s.find? path n.id = some n)
    (h : ∀ c, profileIn (stepUpdate frame path ask n s).stage.nodes c = profileIn s.nodes c)
    (c : NodeId) :
    let q := stepUpdate frame path ask n s
    profileIn (q.stage.restore q.answer.2).nodes c = profileIn s.nodes c := by
  intro q
  have hprofile : q.answer.2.profile = n.profile := n.update_profile frame _ ask s
  have hid : q.answer.2.id = n.id := congrArg Profile.id hprofile
  have hplace : profileIn q.stage.nodes q.answer.2.id = some q.answer.2.profile := by
    rw [hid, hprofile, h, profileIn_of_find? hfind]
  exact (profileIn_restore hplace c).trans (h c)

theorem stepUpdate_passes (hfind : s.find? path n.id = some n)
    (hask : ∀ c, Keeps (Passes (n.id :: path)) (ask c)) :
    Passes path s (updateStep frame path n.id ask s).trace
      (updateStep frame path n.id ask s).stage := by
  let q := stepUpdate frame path ask n s
  have hsteady : Steady n.id (Passes (H := H) (n.id :: path)) := ⟨Passes.append, passes_own⟩
  have hbelow : Passes (n.id :: path) s q.trace q.stage := n.update_keeps frame _ hsteady hask s
  rw [updateStep_some frame ask hfind]
  refine ⟨stepUpdate_profileIn hfind hbelow.1, ?_⟩
  change Trace.pending (n.id :: path) (q.trace ++ _) = path
  rw [Trace.pending_append, hbelow.2]
  rfl

/-- While a node is updated it is not found, nor are those in whose updates it is asked. -/
theorem flaggedChildren_of_find (hfind : s.find? path n.id = some n) :
    flaggedChildren s.nodes (n.id :: path) n.id = n.links.filter (s.isGuard (n.id :: path)) := by
  obtain ⟨-, -, hpath⟩ := find?_some hfind
  rw [Stage.find?_eq_node? hpath] at hfind
  change List.filter _ (((s.node? n.id).map (·.links)).getD []) = _
  rw [hfind]
  refine List.filter_congr fun c _ => ?_
  unfold Stage.isGuard Stage.find?
  split
  · next hbusy => simp [hbusy]
  · next hfree => simp [hfree]

/-- A node is entered at the beginning of its update or not at all, and notices what is flagged. -/
theorem stepUpdate_remembers (hfind : s.find? path n.id = some n)
    (hask : ∀ c, Keeps (fun _ τ _ => .entered n.id ∉ τ) (ask c)) {seen : List NodeId}
    (hseen : Remembers s.nodes n.id seen) :
    let q := stepUpdate frame path ask n s
    Remembers (q.stage.restore q.answer.2).nodes n.id (seen ++
      (q.trace.entries n.id (n.id :: path)).flatMap fun busy =>
        flaggedChildren s.nodes busy n.id) := by
  intro q m hm htype
  have hprofile : q.answer.2.profile = n.profile := n.update_profile frame _ ask s
  have hput : m = q.answer.2 := by
    have hid : q.answer.2.id = n.id := congrArg Profile.id hprofile
    change (q.stage.restore q.answer.2).node? n.id = some m at hm
    rw [Stage.restore_node?, if_pos hid.symm] at hm
    obtain ⟨_, -, heq⟩ := Option.map_eq_some_iff.mp hm
    exact heq.symm
  have hturn : n.nodeType.InTurn := by
    have hkeep : q.answer.2.nodeType = n.nodeType := congrArg Profile.type hprofile
    rwa [hput, hkeep] at htype
  have hbefore : n.kind.guards = seen.eraseDups := by
    obtain ⟨-, -, hpath⟩ := find?_some hfind
    exact hseen n ((Stage.find?_eq_node? hpath).symm.trans hfind) hturn
  obtain ⟨⟨τ, htrace, hrest⟩, hguards⟩ := Node.update_inTurn frame
    (fun s c => s.isGuard (n.id :: path) c) hturn hask s
  change q.trace = _ at htrace
  change q.answer.2.kind.guards = _ at hguards
  rw [hput, hguards, htrace]
  -- In the midst of a run nothing is collected. Otherwise there is one entry, at the beginning.
  split
  · rw [List.nil_append, Trace.entries_eq_nil hrest, List.flatMap_nil, List.append_nil, hbefore]
  · have hone : Trace.entries n.id (n.id :: path) ([.entered n.id] ++ τ) = [n.id :: path] := by
      rw [Trace.entries_append, Trace.entries_eq_nil hrest, List.append_nil]
      simp [Trace.entries]
    rw [hone, List.flatMap_singleton, flaggedChildren_of_find hfind, hbefore]
    exact collectGuards_eraseDups _ _ _

end Step

theorem updateNode_notices (frame : TickContext) (id : NodeId) (depth : Nat) (path : List NodeId)
    (asked : NodeId) : Keeps (Notices id path) (updateNode (H := H) frame depth path asked) := by
  apply updateNode_induct (R := Notices id)
  · intro path asked s
    have hnone : .entered id ∉ refusal (H := H) path asked := by simp [refusal]
    refine ⟨⟨fun _ => rfl, rfl⟩, fun _ => hnone, fun seen hseen => ?_⟩
    rw [Trace.entries_eq_nil hnone, List.flatMap_nil, List.append_nil]
    exact hseen
  · intro path asked s n ask hfind hask
    obtain ⟨-, rfl, hpath⟩ := find?_some hfind
    have hpasses : Passes path s (updateStep frame path n.id ask s).trace
        (updateStep frame path n.id ask s).stage :=
      stepUpdate_passes hfind fun c s => (hask c s).passes
    let q := stepUpdate frame path ask n s
    rw [updateStep_some frame ask hfind] at hpasses ⊢
    -- The question and its answer frame the update.
    have hentries (id : NodeId) : Trace.entries id path (.asked path.head? n.id :: q.trace ++
        [.answered path.head? n.id q.answer.1]) = Trace.entries id (n.id :: path) q.trace := by
      change Trace.entries id (n.id :: path) (q.trace ++ _) = _
      rw [Trace.entries_append]
      exact List.append_nil _
    by_cases hsame : n.id = id
    · subst hsame
      refine ⟨hpasses, fun hmem => absurd hmem hpath, fun seen hseen => ?_⟩
      rw [hentries]
      exact stepUpdate_remembers hfind (fun c s => (hask c s).entered List.mem_cons_self) hseen
    -- The node is noticed by those that another one asks, if at all.
    · have hothers : Notices id (n.id :: path) s q.trace q.stage :=
        n.update_keeps frame _ (notices_steady hsame) hask s
      refine ⟨hpasses, fun hmem => ?_, fun seen hseen m hm htype => ?_⟩
      · have hnot := hothers.entered (List.mem_cons_of_mem n.id hmem)
        simpa using hnot
      · rw [hentries]
        refine hothers.remembers seen hseen m ?_ htype
        have hprofile : q.answer.2.profile = n.profile := n.update_profile frame _ ask s
        have hid : q.answer.2.id = n.id := congrArg Profile.id hprofile
        have hother : id ≠ q.answer.2.id := fun heq => hsame (heq.trans hid).symm
        change (q.stage.restore q.answer.2).node? id = some m at hm
        rwa [Stage.restore_node?, if_neg hother] at hm

/-! ### Histories -/

namespace Tree

theorem insert_node? (t : Tree H) (n : Node H) (id : NodeId) :
    (t.insert n).node? id = if id = n.id then some n else t.node? id := by
  unfold insert
  split
  · next hlive =>
    refine (find?_replace t.nodes n id).trans ?_
    by_cases hid : id = n.id
    · obtain ⟨m, hm⟩ := Option.isSome_iff_exists.mp hlive
      rw [if_pos hid, if_pos hid, hid]
      exact congrArg (Option.map fun _ => n) hm
    · rw [if_neg hid, if_neg hid]
      rfl
  · next hnone =>
    change (t.nodes ++ [n]).find? _ = _
    rw [List.find?_append]
    by_cases hid : id = n.id
    · have habsent : t.nodes.find? (fun m => decide (m.id = id)) = none := by
        rw [hid]
        exact Option.not_isSome_iff_eq_none.mp hnone
      rw [if_pos hid, habsent]
      simp [hid]
    · have hother : [n].find? (fun m => decide (m.id = id)) = none := by
        simpa using fun h => hid h.symm
      rw [if_neg hid, hother, Option.or_none]
      rfl

/-- What is found after a deletion was there before, or is a root that has been put in place. -/
theorem ensureRoot_node? {t : Tree H} {supply : IdSupply} {n : Node H}
    (h : (t.ensureRoot supply).1.node? id = some n) : t.node? id = some n ∨
      n.nodeType = .root ∧ id = ⟨supply.draw.1⟩ ∧ (t.ensureRoot supply).2 = supply.draw.2 := by
  rcases t.ensureRoot_spec supply with ⟨-, hrun⟩ | ⟨root, hid, -, htype, -, -, hrun⟩
  · rw [hrun] at h
    exact Or.inl h
  · rw [hrun] at h ⊢
    have hinsert := t.insert_node? root id
    by_cases hroot : id = root.id
    · rw [if_pos hroot] at hinsert
      have hsame : root = n := Option.some.inj (hinsert.symm.trans h)
      exact Or.inr ⟨hsame ▸ htype, hroot.trans hid, rfl⟩
    · rw [if_neg hroot] at hinsert
      exact Or.inl (hinsert.symm.trans h)

/-- The children of a node that carry the flag, at each of its entries in a tick of the tree. -/
def noticed (t : Tree H) (id : NodeId) (τ : Trace H) : List NodeId :=
  (τ.entries id []).flatMap fun busy => flaggedChildren t.nodes busy id

theorem noticed_eq_nil (t : Tree H) {τ : Trace H} (h : .entered id ∉ τ) : t.noticed id τ = [] := by
  rw [noticed, Trace.entries_eq_nil h, List.flatMap_nil]

theorem noticed_of_gone {t : Tree H} (h : ¬ t.contains id) (τ : Trace H) : t.noticed id τ = [] := by
  have hnone : t.nodes.find? (·.id = id) = none := Option.not_isSome_iff_eq_none.mp h
  refine List.flatMap_eq_nil_iff.mpr fun busy _ => ?_
  rw [flaggedChildren, hnone]
  rfl

end Tree

/-- The flagged children that a node notices at its entries during some operations, in the order of
the entries and at each of them in the order of the children. In a tick they are those of the tree
before it, for a tick changes neither flags nor links. -/
def Session.noticed (s : Session H) (id : NodeId) : List (Operation H) → List NodeId
  | [] => []
  | op :: ops => s.tree.noticed id (s.step op).2 ++ (s.step op).1.noticed id ops

/-- `seen` is all that the node has noticed so far; its identifier is not drawn again. -/
structure Chronicled (limit : Nat) (id : NodeId) (s : Session H) (seen : List NodeId) : Prop where
  fresh : s.supply.Fresh limit fun _ => False
  kinds : s.tree.registry.Unentered
  used : s.tree.contains id ∨ seen ≠ [] → s.supply.Fresh limit (· = id.uuid)
  remembers : Remembers s.tree.nodes id seen

section Chronicled

variable {registry : Registry H} {limit : Nat} {s s' : Session H} {op : Operation H} {τ : Trace H}
  {seen : List NodeId}

theorem Operation.Makes.unentered {n : Node H} (h : op.Makes registry n)
    (hkinds : registry.Unentered) (hop : op.Unentered) : n.kind.Unentered := by
  cases h with
  | create _ registered => exact hkinds _ _ registered
  | add _ given => exact given ▸ hop

theorem Chronicled.tick (h : Chronicled limit id s seen) (frame : TickContext) :
    Chronicled limit id (s.step (.tick frame)).1
      (seen ++ s.tree.noticed id (s.step (.tick frame)).2) := by
  have hnotices : Notices id [] (s.tree.stage s.world s.audience) _ _ :=
    updateNode_notices frame id s.tree.size [] s.tree.root (s.tree.stage s.world s.audience)
  have hlive : (s.step (.tick frame)).1.tree.contains id → s.tree.contains id := by
    have hsome := congrArg Option.isSome (hnotices.passes.1 id)
    unfold profileIn at hsome
    rw [Option.isSome_map, Option.isSome_map] at hsome
    exact fun hlive => hsome.symm.trans hlive
  refine ⟨h.fresh, h.kinds, fun hused => h.used ?_, hnotices.remembers seen h.remembers⟩
  rcases hused with hthere | hseen
  · exact Or.inl (hlive hthere)
  -- Only a node that is there notices anything.
  · by_cases hthere : s.tree.contains id
    · exact Or.inl hthere
    · rw [Tree.noticed_of_gone hthere, List.append_nil] at hseen
      exact Or.inr hseen

/-- An operation in which nothing is noticed. What it leaves under the identifier was there before
and still has its guards, or has just been made, with no guards and an identifier drawn for it. -/
theorem Chronicled.quiet (h : Chronicled limit id s seen) (he : s.Effect op s' [])
    (hlimit : s'.supply.drawn ≤ limit)
    (hfound : ∀ n, s'.tree.node? id = some n →
      (∃ m, s.tree.node? id = some m ∧ n.nodeType = m.nodeType ∧ n.kind.guards = m.kind.guards) ∨
        s'.supply = s.supply.draw.2 ∧ id = ⟨s.supply.draw.1⟩ ∧ n.kind.guards = []) :
    Chronicled limit id s' seen := by
  have hused (hbefore : s.tree.contains id ∨ seen ≠ []) := (h.used hbefore).later he.precedes
  refine ⟨h.fresh.later he.precedes, he.registry ▸ h.kinds, ?_, fun n hn htype => ?_⟩
  · rintro (hthere | hseen)
    · obtain ⟨n, hn⟩ := Option.isSome_iff_exists.mp hthere
      rcases hfound n hn with ⟨m, hm, -⟩ | ⟨hdraw, hid, -⟩
      · exact hused (Or.inl (Option.isSome_iff_exists.mpr ⟨m, hm⟩))
      · rw [hdraw]
        exact h.fresh.draw.mono fun u hu => Or.inr (hu.trans (congrArg NodeId.uuid hid))
    · exact hused (Or.inr hseen)
  · rcases hfound n hn with ⟨m, hm, hsame, hguards⟩ | ⟨hdraw, hid, hguards⟩
    · rw [hguards]
      exact h.remembers m hm (hsame ▸ htype)
    -- Whoever has noticed something has another identifier than the one that is drawn now.
    · have hnothing : seen = [] := by
        by_contra hseen
        rw [hdraw] at hlimit
        exact (h.used (Or.inr hseen)).draw_unused hlimit (congrArg NodeId.uuid hid).symm
      rw [hnothing, hguards]
      rfl

theorem Chronicled.effect (h : Chronicled limit id s seen) (he : s.Effect op s' τ)
    (hop : op.Unentered) (hlimit : s'.supply.drawn ≤ limit) :
    Chronicled limit id s' (seen ++ s.tree.noticed id τ) := by
  have heffect := he
  cases he with
  | tick frame => exact h.tick frame
  | touch touches _ =>
    rw [Tree.noticed_eq_nil _ List.not_mem_nil, List.append_nil]
    obtain ⟨f, hnodes, hf⟩ := touches.nodes
    refine h.quiet heffect hlimit fun n hn => ?_
    rw [Tree.node?_map (fun n => (hf n).id) hnodes id] at hn
    obtain ⟨m, hm, rfl⟩ := Option.map_eq_some_iff.mp hn
    obtain ⟨cs, hkind⟩ := (hf m).kind
    refine Or.inl ⟨m, hm, (hf m).type, ?_⟩
    rw [hkind, NodeKind.setLinks_guards]
  | insert made hid _ makes tree supply =>
    rw [Tree.noticed_eq_nil _ List.not_mem_nil, List.append_nil]
    refine h.quiet heffect hlimit fun n hn => ?_
    rw [tree, Tree.insert_node?] at hn
    split at hn
    · next hsame =>
      obtain rfl : made = n := Option.some.inj hn
      exact Or.inr ⟨supply, hsame.trans hid, (makes.unentered h.kinds hop).guards⟩
    · exact Or.inl ⟨n, hn, rfl, rfl⟩
  | delete gone tree supply =>
    rw [Tree.noticed_eq_nil _ List.not_mem_nil, List.append_nil]
    refine h.quiet heffect hlimit fun n hn => ?_
    rw [tree] at hn
    rcases Tree.ensureRoot_node? hn with hn | ⟨hroot, hid, hdraw⟩
    · have hwithout : (s.tree.without gone).node? id =
          if id = gone then none else s.tree.node? id := find?_without s.tree.nodes gone id
      rw [hwithout] at hn
      split at hn
      · cases hn
      · exact Or.inl ⟨n, hn, rfl, rfl⟩
    · exact Or.inr ⟨supply.trans hdraw, hid, (NodeKind.unentered_of_root hroot).guards⟩

theorem Chronicled.run (h : Chronicled limit id s seen) {ops : List (Operation H)}
    (hops : ∀ op ∈ ops, op.Unentered) (hlimit : (s.run ops).1.supply.drawn ≤ limit) :
    Chronicled limit id (s.run ops).1 (seen ++ s.noticed id ops) := by
  induction ops generalizing s seen with
  | nil =>
    rw [Session.noticed, List.append_nil]
    exact h
  | cons op ops ih =>
    obtain ⟨hop, hops⟩ := List.forall_mem_cons.mp hops
    have hfirst := ((s.step op).1.run_precedes ops).within hlimit
    have hrest := ih (h.effect (s.step_effect op) hop hfirst) hops hlimit
    rwa [List.append_assoc] at hrest

end Chronicled

/-! ### What nodes have noticed -/

namespace Session

theorem run_append (s : Session H) (before after : List (Operation H)) :
    s.run (before ++ after) =
      (((s.run before).1.run after).1, (s.run before).2 ++ ((s.run before).1.run after).2) := by
  induction before generalizing s with
  | nil => rfl
  | cons op before ih =>
    change (((s.step op).1.run (before ++ after)).1,
      (s.step op).2 ++ ((s.step op).1.run (before ++ after)).2) = _
    rw [ih, ← List.append_assoc]
    rfl

theorem noticed_eq_nil {s : Session H} {ops : List (Operation H)}
    (h : .entered id ∉ (s.run ops).2) : s.noticed id ops = [] := by
  induction ops generalizing s with
  | nil => rfl
  | cons op ops ih =>
    have hfirst : .entered id ∉ (s.step op).2 := fun hmem => h (List.mem_append_left _ hmem)
    have hrest : .entered id ∉ ((s.step op).1.run ops).2 :=
      fun hmem => h (List.mem_append_right _ hmem)
    rw [noticed, Tree.noticed_eq_nil _ hfirst, ih hrest, List.append_nil]

end Session

section Guards

variable {registry : Registry H} {limit : Nat}

end Guards

end BehaviourTree
