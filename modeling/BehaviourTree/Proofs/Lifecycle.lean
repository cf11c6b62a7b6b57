import BehaviourTree.Proofs.NodeRuns
import BehaviourTree.Proofs.Structure

/-!
The life of a node: from the moment that it is made, through every tick and edit of its tree, its
leaf is called run after run, and it runs exactly if its last update says so.
-/

namespace BehaviourTree

variable {H : Host} {registry : Registry H} {limit : Nat} {id : NodeId}

/-! ### Lives across edits -/

namespace Tree

variable {t t' : Tree H} {supply : IdSupply}

theorem lifeIn_node? (t : Tree H) (id : NodeId) :
    lifeIn t.nodes id = (t.node? id).map fun n => (n.nodeType, n.running) := rfl

theorem lifeIn_of_node? {t : Tree H} {n : Node H} (h : t.node? id = some n) :
    lifeIn t.nodes id = some (n.nodeType, n.running) := by
  rw [lifeIn_node?, h]
  rfl

theorem contains_iff_life : t.contains id ↔ (lifeIn t.nodes id).isSome := by
  rw [lifeIn_node?, Option.isSome_map]
  rfl

/-- A node that is found among some nodes has its life among them. -/
theorem mem_of_lifeIn {type : NodeType} {running : Bool}
    (h : lifeIn t.nodes id = some (type, running)) :
    ∃ n ∈ t.nodes, n.id = id ∧ n.running = running := by
  obtain ⟨n, hn, hlife⟩ := Option.map_eq_some_iff.mp h
  obtain ⟨hmem, hid⟩ := node?_some hn
  exact ⟨n, hmem, hid, congrArg Prod.snd hlife⟩

theorem Touches.life (h : t.Touches t') : lifeIn t'.nodes id = lifeIn t.nodes id := by
  obtain ⟨f, hnodes, hf⟩ := h.nodes
  -- Edits keep identifiers, so the search ends at the same place.
  have hfound : t'.node? id = (t.node? id).map f := node?_map (fun m => (hf m).id) hnodes id
  rw [lifeIn_node? t', lifeIn_node? t, hfound, Option.map_map]
  apply congrArg fun g => (t.node? id).map g
  funext m
  exact Prod.ext (hf m).type (hf m).running

theorem insert_life (t : Tree H) (n : Node H) (id : NodeId) : lifeIn (t.insert n).nodes id =
    if id = n.id then some (n.nodeType, n.running) else lifeIn t.nodes id := by
  unfold insert
  split
  · next hlive =>
    -- The new node takes the place of the one that is there.
    refine (lifeIn_replace t.nodes n id).trans ?_
    by_cases hid : id = n.id
    · obtain ⟨l, hl⟩ := Option.isSome_iff_exists.mp (contains_iff_life.mp hlive)
      rw [if_pos hid, if_pos hid, hid, hl, Option.map_some]
    · rw [if_neg hid, if_neg hid]
  · next hnone =>
    change lifeIn (t.nodes ++ [n]) id = _
    unfold lifeIn
    rw [List.find?_append]
    by_cases hid : id = n.id
    · have habsent : t.node? id = none := by
        rw [hid]
        exact Option.not_isSome_iff_eq_none.mp hnone
      unfold node? at habsent
      rw [if_pos hid, habsent]
      simp [hid]
    · have hother : [n].find? (fun m => decide (m.id = id)) = none := by
        simpa using fun h => hid h.symm
      rw [if_neg hid, hother, Option.or_none]

theorem without_life (t : Tree H) (gone id : NodeId) :
    lifeIn (t.without gone).nodes id = if id = gone then none else lifeIn t.nodes id := by
  unfold lifeIn without
  rw [find?_without]
  split
  · rfl
  · rfl

/-- A root that is put in place is new and idle. -/
theorem ensureRoot_life (t : Tree H) (supply : IdSupply) (id : NodeId) :
    lifeIn (t.ensureRoot supply).1.nodes id = lifeIn t.nodes id ∨
      id = ⟨supply.draw.1⟩ ∧ (t.ensureRoot supply).2 = supply.draw.2 ∧
        lifeIn (t.ensureRoot supply).1.nodes id = some (.root, false) := by
  rcases t.ensureRoot_spec supply with ⟨-, hrun⟩ | ⟨n, hid, -, htype, -, hidle, hrun⟩
  · rw [hrun]
    exact Or.inl rfl
  · rw [hrun]
    have hlife := t.insert_life n id
    rw [htype, hidle, hid] at hlife
    split at hlife
    · next heq => exact Or.inr ⟨heq, rfl, hlife⟩
    · exact Or.inl hlife

theorem ensureRoot_live (t : Tree H) (supply : IdSupply) :
    (t.ensureRoot supply).1.contains (t.ensureRoot supply).1.root := by
  rcases t.ensureRoot_spec supply with ⟨hlive, hrun⟩ | ⟨n, -, -, -, -, -, hrun⟩
  · rw [hrun]
    exact hlive
  · rw [hrun]
    have hlife := t.insert_life n n.id
    rw [if_pos rfl] at hlife
    apply contains_iff_life.mpr
    rw [hlife]
    rfl

end Tree

/-! ### What is known of a node -/

/-- The trace tells all of the life of a node of this type, from when it was made to the present or
to when it was deleted; its identifier is never drawn again. -/
structure Known (limit : Nat) (id : NodeId) (type : NodeType) (s : Session H) (τ : Trace H) :
    Prop where
  fresh : s.supply.Fresh limit (· = id.uuid)
  life : lifeIn s.tree.nodes id = none ∨
    lifeIn s.tree.nodes id = some (type, afterwards false (τ.statusesOf id))
  calls : type = .action → τ.callsOf id = turns false (τ.statusesOf id)

/-- The node has not been there so far. -/
structure Unborn (id : NodeId) (s : Session H) (τ : Trace H) : Prop where
  life : lifeIn s.tree.nodes id = none
  silent : τ.Silent id

variable {s s' : Session H} {op : Operation H} {τ τ' : Trace H} {type : NodeType}

theorem Known.of_birth (hsilent : τ.Silent id) (hfresh : s.supply.Fresh limit (· = id.uuid))
    (hlife : lifeIn s.tree.nodes id = some (type, false)) : Known limit id type s τ := by
  obtain ⟨hcalls, hstatuses⟩ := hsilent
  refine ⟨hfresh, Or.inr ?_, fun _ => ?_⟩
  · rw [hlife, hstatuses]
    rfl
  · rw [hcalls, hstatuses]
    rfl

theorem tick_lived (s : Session H) (frame : TickContext) (id : NodeId) :
    Lived id s.tree.nodes (s.step (.tick frame)).2 (s.step (.tick frame)).1.tree.nodes :=
  (updateNode_lived id frame s.tree.size [] s.tree.root (s.tree.stage s.world s.audience)).1

theorem Known.effect (h : Known limit id type s τ) (he : s.Effect op s' τ')
    (hlimit : s'.supply.drawn ≤ limit) : Known limit id type s' (τ ++ τ') := by
  have hfresh := h.fresh.later he.precedes
  -- A node that is drawn now is another one.
  have hother (hdraw : s'.supply = s.supply.draw.2) : ¬ id = ⟨s.supply.draw.1⟩ := by
    intro heq
    rw [hdraw] at hlimit
    exact h.fresh.draw_unused hlimit (congrArg NodeId.uuid heq).symm
  cases he with
  | tick frame =>
    obtain ⟨hlife, hcalls, hsilent⟩ := tick_lived s frame id
    -- A node that was deleted is silent from then on; one that is there takes its turns.
    rcases h.life with hnone | hsome
    · obtain ⟨hcalls', hstatuses'⟩ := hsilent hnone
      refine ⟨hfresh, Or.inl ?_, fun haction => ?_⟩
      · rw [hnone] at hlife
        exact hlife
      · rw [Trace.callsOf_append, Trace.statusesOf_append, hcalls', hstatuses', List.append_nil,
          List.append_nil]
        exact h.calls haction
    · refine ⟨hfresh, Or.inr ?_, fun haction => ?_⟩
      · rw [hsome] at hlife
        rw [Trace.statusesOf_append, afterwards_append]
        exact hlife
      · rw [Trace.callsOf_append, Trace.statusesOf_append, turns_append, h.calls haction,
          hcalls _ (haction ▸ hsome)]
  | touch touches _ =>
    rw [List.append_nil]
    exact ⟨hfresh, touches.life ▸ h.life, h.calls⟩
  | insert n hid _ _ tree supply =>
    have hlife : lifeIn s'.tree.nodes id = lifeIn s.tree.nodes id := by
      rw [tree, Tree.insert_life, if_neg (hid ▸ hother supply)]
    rw [List.append_nil]
    exact ⟨hfresh, hlife ▸ h.life, h.calls⟩
  | delete gone tree supply =>
    have hrest : lifeIn s'.tree.nodes id = lifeIn (s.tree.without gone).nodes id := by
      rcases (s.tree.without gone).ensureRoot_life s.supply id with hsame | ⟨hdrawn, hdraw, -⟩
      · rw [tree, hsame]
      · exact absurd hdrawn (hother (supply.trans hdraw))
    rw [List.append_nil]
    refine ⟨hfresh, ?_, h.calls⟩
    rw [hrest, Tree.without_life]
    split
    · exact Or.inl rfl
    · exact h.life

theorem Unborn.effect (h : Unborn id s τ) (hfresh : s.supply.Fresh limit fun _ => False)
    (he : s.Effect op s' τ') :
    Unborn id s' (τ ++ τ') ∨ ∃ type, Known limit id type s' (τ ++ τ') := by
  obtain ⟨hnone, hsilent⟩ := h
  have hdrawn (hdraw : s'.supply = s.supply.draw.2) (heq : id = ⟨s.supply.draw.1⟩) :
      s'.supply.Fresh limit (· = id.uuid) := by
    rw [hdraw]
    exact hfresh.draw.mono fun u hu => Or.inr (hu.trans (congrArg NodeId.uuid heq))
  cases he with
  | tick frame =>
    have hlived := tick_lived s frame id
    have hlife := hlived.life
    rw [hnone] at hlife
    exact Or.inl ⟨hlife, hsilent.append (hlived.silent hnone)⟩
  | touch touches _ =>
    rw [List.append_nil]
    exact Or.inl ⟨touches.life.trans hnone, hsilent⟩
  | insert n hid hidle _ tree supply =>
    rw [List.append_nil]
    have hlife := s.tree.insert_life n id
    rw [← tree, hnone, hidle, hid] at hlife
    split at hlife
    · next heq => exact Or.inr ⟨n.nodeType, .of_birth hsilent (hdrawn supply heq) hlife⟩
    · exact Or.inl ⟨hlife, hsilent⟩
  | delete gone tree supply =>
    rw [List.append_nil]
    have hgone : lifeIn (s.tree.without gone).nodes id = none := by
      rw [Tree.without_life, hnone, ite_self]
    rcases (s.tree.without gone).ensureRoot_life s.supply id with hsame | ⟨heq, hdraw, hlife⟩
    · exact Or.inl ⟨tree ▸ hsame.trans hgone, hsilent⟩
    · exact Or.inr ⟨.root, .of_birth hsilent (hdrawn (supply.trans hdraw) heq) (tree ▸ hlife)⟩

/-! ### Histories -/

/-- All nodes of a tree are idle, and none has an identifier that may still be drawn. -/
structure Tree.Idle (t : Tree H) (limit : Nat) (supply : IdSupply) : Prop where
  fresh : supply.Fresh limit fun u => ∃ n ∈ t.nodes, n.id.uuid = u
  idle : ∀ n ∈ t.nodes, n.running = false

theorem Tree.mem_of_insert {t : Tree H} {n m : Node H} (h : m ∈ (t.insert n).nodes) :
    m = n ∨ m ∈ t.nodes := by
  unfold Tree.insert at h
  split at h
  · obtain ⟨k, hk, rfl⟩ := List.mem_map.mp h
    split
    · exact Or.inl rfl
    · exact Or.inr hk
  · rcases List.mem_append.mp h with h | h
    · exact Or.inr h
    · exact Or.inl (List.mem_singleton.mp h)

theorem Tree.Idle.ensureRoot {t : Tree H} {supply : IdSupply} (h : t.Idle limit supply) :
    (t.ensureRoot supply).1.Idle limit (t.ensureRoot supply).2 := by
  rcases t.ensureRoot_spec supply with ⟨-, hrun⟩ | ⟨n, hid, -, -, -, hidle, hrun⟩
  · rw [hrun]
    exact h
  · rw [hrun]
    refine ⟨h.fresh.draw.mono fun u hu => ?_, fun m hm => ?_⟩
    · obtain ⟨m, hm, rfl⟩ := hu
      rcases Tree.mem_of_insert hm with rfl | hm
      · exact Or.inr (congrArg NodeId.uuid hid)
      · exact Or.inl ⟨m, hm, rfl⟩
    · rcases Tree.mem_of_insert hm with rfl | hm
      · exact hidle
      · exact h.idle m hm

/-- What is known of a tree that has come about somehow: its root is there, and of every node all is
known since it was made. -/
structure Recorded (limit : Nat) (s : Session H) (τ : Trace H) : Prop where
  fresh : s.supply.Fresh limit fun _ => False
  root : s.tree.contains s.tree.root
  each : ∀ id, Unborn id s τ ∨ ∃ type, Known limit id type s τ

theorem Recorded.of_idle (hidle : s.tree.Idle limit s.supply)
    (hroot : s.tree.contains s.tree.root) : Recorded limit s [] := by
  refine ⟨hidle.fresh.mono fun _ => False.elim, hroot, fun id => ?_⟩
  cases hlife : lifeIn s.tree.nodes id with
  | none => exact Or.inl ⟨hlife, Trace.silent_nil id⟩
  | some l =>
    obtain ⟨type, running⟩ := l
    obtain ⟨n, hn, rfl, hrunning⟩ := Tree.mem_of_lifeIn hlife
    -- A node is born idle.
    have hnot : running = false := hrunning.symm.trans (hidle.idle n hn)
    refine Or.inr ⟨type, .of_birth (Trace.silent_nil _) ?_ (hnot ▸ hlife)⟩
    exact hidle.fresh.mono fun u hu => ⟨n, hn, hu.symm⟩

theorem Recorded.ofNodes (registry : Registry H) {supply : IdSupply} {nodes : List (Node H)}
    (root : Option NodeId) (hfresh : supply.Fresh limit fun u => ∃ n ∈ nodes, n.id.uuid = u)
    (hidle : ∀ n ∈ nodes, n.running = false) (world : H.World) (audience : H.Audience) :
    Recorded limit ⟨(Tree.ofNodes registry nodes root supply).1,
      (Tree.ofNodes registry nodes root supply).2, world, audience⟩ [] := by
  obtain ⟨id, later, hrun, hlater, -⟩ := Tree.ofNodes_spec registry nodes root supply
  have hstart : (Tree.planted registry nodes ⟨supply.draw.1⟩ id).Idle limit later := by
    refine ⟨(hfresh.later (supply.precedes_draw.trans hlater)).mono fun u hu => ?_, fun n hn => ?_⟩
    · obtain ⟨n, hn, rfl⟩ := hu
      obtain ⟨m, hm, rfl⟩ := List.mem_map.mp hn
      exact ⟨m, hm, rfl⟩
    · obtain ⟨m, hm, rfl⟩ := List.mem_map.mp hn
      exact hidle m hm
  rw [hrun]
  exact .of_idle hstart.ensureRoot (Tree.ensureRoot_live _ later)

theorem Recorded.effect (h : Recorded limit s τ) (he : s.Effect op s' τ')
    (hlimit : s'.supply.drawn ≤ limit) : Recorded limit s' (τ ++ τ') := by
  refine ⟨h.fresh.later he.precedes, ?_, fun id => ?_⟩
  · cases he with
    | tick frame =>
      have hlife := (tick_lived s frame s.tree.root).life
      apply Tree.contains_iff_life.mpr
      change (lifeIn (s.step (.tick frame)).1.tree.nodes s.tree.root).isSome
      rw [hlife, Option.isSome_map]
      exact Tree.contains_iff_life.mp h.root
    | touch touches _ =>
      rw [Tree.contains_iff_life, touches.root, touches.life]
      exact Tree.contains_iff_life.mp h.root
    | insert n _ _ _ tree _ =>
      rw [tree, Tree.contains_iff_life, Tree.insert_root, Tree.insert_life]
      split
      · rfl
      · exact Tree.contains_iff_life.mp h.root
    | delete gone tree _ =>
      rw [tree]
      exact Tree.ensureRoot_live _ _
  · rcases h.each id with hunborn | ⟨type, hknown⟩
    · exact hunborn.effect h.fresh he
    · exact Or.inr ⟨type, hknown.effect he hlimit⟩

theorem Recorded.instantiate (h : Recorded limit s τ)
    (hlimit : (s.tree.instantiate s.supply).2.drawn ≤ limit) :
    Recorded limit { s with
      tree := (s.tree.instantiate s.supply).1, supply := (s.tree.instantiate s.supply).2 } [] := by
  obtain ⟨copies, start, hcopied⟩ := Tree.instantiate_copied h.root h.fresh hlimit
  refine .of_idle ⟨hcopied.fresh_after.mono fun u hu => ?_, fun n hn => hcopied.idle hn⟩
    (Tree.ensureRoot_live _ _)
  obtain ⟨n, hn, rfl⟩ := hu
  exact Or.inl (Or.inr ⟨n.id, hcopied.mem_ids (List.mem_map_of_mem hn), rfl⟩)

theorem Reached.recorded {allowed : Operation H → Prop} (h : Reached registry allowed limit s τ)
    (hlimit : s.supply.drawn ≤ limit) : Recorded limit s τ := by
  induction h with
  | new fresh world audience =>
    refine Recorded.ofNodes registry none (fresh.mono fun u hu => ?_) (by simp) world audience
    simp at hu
  | @ofTemplate a _ _ _ _ fresh hvisit built world audience =>
    obtain ⟨nodes, root, hcheck, hbuilt⟩ := Tree.ofTemplateVia_ok built
    have hfresh := fresh.mono fun u (hu : ∃ n ∈ nodes, n.id.uuid = u) => by
      obtain ⟨n, hn, rfl⟩ := hu
      exact ⟨n.id, (TreeTemplate.check_idle hvisit hcheck hn).1, rfl⟩
    have hrecorded := Recorded.ofNodes registry root hfresh
      (fun n hn => (TreeTemplate.check_idle hvisit hcheck hn).2) world audience
    rwa [hbuilt] at hrecorded
  | @instantiate s _ _ ih =>
    have hbefore := (s.tree.instantiate_precedes s.supply).within hlimit
    exact (ih hbefore).instantiate hlimit
  | @step s _ op _ _ ih =>
    have he := s.step_effect op
    exact (ih (he.precedes.within hlimit)).effect he hlimit

/-- The root of a tree is always there, so a tick has no root to put in place. -/
theorem Reached.ensureRoot {allowed : Operation H → Prop}
    (h : Reached registry allowed limit s τ) (hlimit : s.supply.drawn ≤ limit) :
    s.tree.ensureRoot s.supply = (s.tree, s.supply) :=
  Tree.ensureRoot_of_live (h.recorded hlimit).root s.supply

theorem Known.run (h : Known limit id type s τ) (ops : List (Operation H))
    (hlimit : (s.run ops).1.supply.drawn ≤ limit) :
    Known limit id type (s.run ops).1 (τ ++ (s.run ops).2) := by
  let P (s : Session H) (τ : Trace H) : Prop :=
    s.supply.drawn ≤ limit → Known limit id type s τ
  have hstep (s : Session H) (τ : Trace H) (op : Operation H) (hbefore : P s τ) :
      P (s.step op).1 (τ ++ (s.step op).2) := by
    intro hlimit
    have he := s.step_effect op
    exact (hbefore (he.precedes.within hlimit)).effect he hlimit
  have hstart : P s τ := fun _ => h
  exact Session.run_induct (fun s τ op _ => hstep s τ op) hstart hlimit

/-! ### The life of a node -/

/-- Whatever the links of a tree are, and whatever is done to it after a node has been made: an
action is called in one run after another, each from its entry to its exit but for the last, which
may not have ended yet; and a node that is still there is running exactly if its last update
returned `running`. Nothing more is needed than that no identifier is drawn twice. -/
theorem node_lives_in_runs {allowed : Operation H → Prop}
    (reached : Reached registry allowed limit s τ) {n : Node H} (made : s.tree.node? id = some n)
    (ops : List (Operation H)) (hlimit : (s.run ops).1.supply.drawn ≤ limit) :
    (n.nodeType = .action → ∃ runs : List (List LeafHook), (∀ run ∈ runs, IsRun run) ∧
      (τ ++ (s.run ops).2).callsOf id <+: runs.flatten) ∧
    ∀ m, (s.run ops).1.tree.node? id = some m →
      (m.running ↔ ((τ ++ (s.run ops).2).statusesOf id).getLast? = some .running) := by
  have hrecorded := reached.recorded ((Session.run_precedes s ops).within hlimit)
  -- All is known of a node that is there, from its birth on.
  have hmade := Tree.lifeIn_of_node? made
  obtain ⟨type, hknown⟩ := (hrecorded.each id).resolve_left fun hunborn => by
    rw [hunborn.life] at hmade
    simp at hmade
  have htype : n.nodeType = type := by
    rcases hknown.life with hnone | hsome
    · rw [hnone] at hmade
      simp at hmade
    · rw [hsome] at hmade
      exact (congrArg Prod.fst (Option.some.inj hmade)).symm
  have hfinal := hknown.run ops hlimit
  refine ⟨fun haction => ?_, fun m hm => ?_⟩
  · rw [hfinal.calls (htype ▸ haction)]
    exact (prefix_of_turns _).1
  · have hlife := Tree.lifeIn_of_node? hm
    rcases hfinal.life with hnone | hsome
    · rw [hnone] at hlife
      simp at hlife
    · rw [hsome] at hlife
      have hrunning : _ = m.running := congrArg Prod.snd (Option.some.inj hlife)
      rw [← hrunning]
      exact afterwards_iff _

/-- A wait under a sequence under the root. -/
def Demo.planting : List (Operation Demo.smallHost) :=
  [.add (.sequence (.idle [])), .add (.action (Demo.Action.wait 3 3)),
    .attach (.ofNat 3) (.ofNat 4), .attach (.ofNat 2) (.ofNat 3)]

/-- The wait is detached while it runs, and later attached and ticked again. -/
def Demo.grafting : List (Operation Demo.smallHost) :=
  [.tick ⟨0, 0, 0⟩, .detach (.ofNat 3) (.ofNat 4), .tick ⟨1, 0, 0⟩, .attach (.ofNat 3) (.ofNat 4),
    .tick ⟨2, 0, 0⟩]

theorem node_lives_in_runs_grafting :
    let s := (Demo.sapling.run Demo.planting).1
    let later := s.run Demo.grafting
    ∃ n, s.tree.node? (.ofNat 4) = some n ∧ n.nodeType = .action ∧
      (∃ runs : List (List LeafHook), (∀ run ∈ runs, IsRun run) ∧
        ((Demo.sapling.run Demo.planting).2 ++ later.2).callsOf (.ofNat 4) <+: runs.flatten) ∧
      ∀ m, later.1.tree.node? (.ofNat 4) = some m → (m.running ↔
        (((Demo.sapling.run Demo.planting).2 ++ later.2).statusesOf (.ofNat 4)).getLast? =
          some .running) := by
  intro s later
  let n : Node Demo.smallHost :=
    { Node.make (.ofNat 4) "Action" (.action (Demo.Action.wait 3 3)) with
      blackboard := some ⟨.ofNat 0⟩ }
  have hnew : Reached .builtin (fun _ => True) (2^128) Demo.sapling [] :=
    Reached.new (H := Demo.smallHost) Demo.counted_fresh _ _
  have hreached : Reached .builtin (fun _ => True) (2^128) s (Demo.sapling.run Demo.planting).2 :=
    hnew.run fun _ _ => trivial
  have hmade : s.tree.node? (.ofNat 4) = some n := rfl
  have hdrawn : later.1.supply.drawn ≤ 2^128 := by decide +kernel
  obtain ⟨hcalls, hrunning⟩ := node_lives_in_runs hreached hmade Demo.grafting hdrawn
  exact ⟨n, hmade, rfl, hcalls rfl, hrunning⟩

end BehaviourTree
