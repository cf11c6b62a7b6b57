import BehaviourTree.Outline
import BehaviourTree.Proofs.Preorder
import BehaviourTree.Proofs.TemplateForm
import BehaviourTree.Proofs.Ways

/-!
The outline of a tree: where links form a tree, the recursion over them without a record of what has
been listed comes to an end, and it lists what a walk from the root meets.
-/

namespace BehaviourTree

open Relation

variable {H : Host}

namespace Tree

/-! ### The recursion over the links -/

/-- An outline by recursion. `Outlined depth ids entries` says that to list the nodes of `ids` one
after the other at a depth, each ahead of its children, comes to an end with these entries. Nothing
keeps count of levels, or of what has been listed. -/
inductive Outlined (t : Tree H) : Nat → List NodeId → List (OutlineEntry H) → Prop where
  | done (depth : Nat) : Outlined t depth [] []
  | missing {depth : Nat} {id : NodeId} {rest : List NodeId} {later : List (OutlineEntry H)}
      (gone : t.node? id = none) (after : Outlined t depth rest later) :
    Outlined t depth (id :: rest) (⟨depth, id, none⟩ :: later)
  | entry {depth : Nat} {id : NodeId} {rest : List NodeId} {below later : List (OutlineEntry H)}
      {n : Node H} (live : t.node? id = some n) (children : Outlined t (depth+1) n.links below)
      (after : Outlined t depth rest later) :
    Outlined t depth (id :: rest) (⟨depth, id, some n⟩ :: (below ++ later))

/-- What an outline shows: the recursion from the root ends, and it has listed the reachable nodes,
each once and as deep as there are links on the way to it, and nothing that is missing. -/
structure Shows (t : Tree H) (entries : List (OutlineEntry H)) : Prop where
  ends : ∀ es, t.Outlined 0 [t.root] es ↔ es = entries
  live : ∀ e ∈ entries, e.node = t.node? e.id ∧ e.node.isSome
  order : entries.map (·.id) = t.reachable
  once : (entries.map (·.id)).Nodup
  depth : ∀ e ∈ entries, (∃ path, t.Way (e.id :: path)) ∧
    ∀ path, t.Way (e.id :: path) → path.length = e.depth

variable {t : Tree H} {depth : Nat} {id : NodeId} {ids seen path : List NodeId}
  {es es' : List (OutlineEntry H)}

namespace Outlined

theorem unique (h : t.Outlined depth ids es) (h' : t.Outlined depth ids es') : es = es' := by
  induction h generalizing es' with
  | done =>
    cases h'
    rfl
  | missing gone _ ih =>
    cases h' with
    | missing _ after => rw [ih after]
    | entry live _ _ => simp [gone] at live
  | entry live _ _ ih ih' =>
    cases h' with
    | missing gone _ => simp [live] at gone
    | entry live' children after =>
      obtain rfl := Option.some.inj (live.symm.trans live')
      rw [ih children, ih' after]

theorem append {ids' : List NodeId} (h : t.Outlined depth ids es)
    (h' : t.Outlined depth ids' es') : t.Outlined depth (ids ++ ids') (es ++ es') := by
  induction h with
  | done => exact h'
  | missing gone _ ih => exact .missing gone (ih h')
  | entry live children _ _ ih' =>
    rw [List.cons_append, List.cons_append, List.append_assoc]
    exact .entry live children (ih' h')

theorem flatMap {f : NodeId → List (OutlineEntry H)}
    (h : ∀ id ∈ ids, t.Outlined depth [id] (f id)) : t.Outlined depth ids (ids.flatMap f) := by
  induction ids with
  | nil => exact .done depth
  | cons id ids ih =>
    obtain ⟨hid, hids⟩ := List.forall_mem_cons.mp h
    exact hid.append (ih hids)

theorem node (h : t.Outlined depth ids es) : ∀ e ∈ es, e.node = t.node? e.id := by
  induction h with
  | done => simp
  | missing gone _ ih => exact List.forall_mem_cons.mpr ⟨gone.symm, ih⟩
  | entry live _ _ ih ih' =>
    refine List.forall_mem_cons.mpr ⟨live.symm, fun e he => ?_⟩
    exact (List.mem_append.mp he).elim (ih e) (ih' e)

theorem reaches (h : t.Outlined depth ids es) :
    ∀ e ∈ es, ∃ top ∈ ids, t.Reaches top e.id := by
  induction h with
  | done => simp
  | missing _ _ ih =>
    refine List.forall_mem_cons.mpr ⟨⟨_, List.mem_cons_self, .refl⟩, fun e he => ?_⟩
    obtain ⟨top, htop, hreach⟩ := ih e he
    exact ⟨top, List.mem_cons_of_mem _ htop, hreach⟩
  | @entry _ id _ _ _ n live _ _ ih ih' =>
    refine List.forall_mem_cons.mpr ⟨⟨_, List.mem_cons_self, .refl⟩, fun e he => ?_⟩
    rcases List.mem_append.mp he with he | he
    · obtain ⟨c, hc, hreach⟩ := ih e he
      exact ⟨id, List.mem_cons_self, .head (.of_node? live hc) hreach⟩
    · obtain ⟨top, htop, hreach⟩ := ih' e he
      exact ⟨top, List.mem_cons_of_mem _ htop, hreach⟩

/-- An entry is as deep as there are links on a way to it. -/
theorem way (h : t.Outlined depth ids es)
    (hways : ∀ id ∈ ids, ∃ path, t.Way (id :: path) ∧ path.length = depth) :
    ∀ e ∈ es, ∃ path, t.Way (e.id :: path) ∧ path.length = e.depth := by
  induction h with
  | done => simp
  | missing _ _ ih =>
    obtain ⟨hid, hrest⟩ := List.forall_mem_cons.mp hways
    exact List.forall_mem_cons.mpr ⟨hid, ih hrest⟩
  | @entry _ id _ _ _ n live _ _ ih ih' =>
    obtain ⟨hid, hrest⟩ := List.forall_mem_cons.mp hways
    refine List.forall_mem_cons.mpr ⟨hid, fun e he => ?_⟩
    rcases List.mem_append.mp he with he | he
    · obtain ⟨path, hway, hlength⟩ := hid
      refine ih (fun c hc => ⟨id :: path, hway.cons (.of_node? live hc), ?_⟩) e he
      rw [List.length_cons, hlength]
    · exact ih' hrest e he

/-- An outline that lists nothing twice is a traversal that passes over nothing. -/
theorem preorder (h : t.Outlined depth ids es) (hlive : ∀ e ∈ es, e.node.isSome)
    (honce : (es.map (·.id)).Nodup) (hnew : ∀ e ∈ es, e.id ∉ seen) :
    t.Preorder seen ids (es.map (·.id)) := by
  induction h generalizing seen with
  | done => exact .done seen
  | missing gone _ _ =>
    have hsome := hlive _ List.mem_cons_self
    cases hsome
  | @entry _ id _ below later n live _ _ ih ih' =>
    rw [List.map_cons, List.map_append] at honce ⊢
    rw [List.nodup_cons, List.mem_append, not_or, List.nodup_append] at honce
    obtain ⟨⟨hbelow, hlater⟩, honce, honce', hparts⟩ := honce
    obtain ⟨hid, hnew⟩ := List.forall_mem_cons.mp hnew
    obtain ⟨-, hlive⟩ := List.forall_mem_cons.mp hlive
    rw [List.forall_mem_append] at hlive hnew
    refine .visit live hid (ih hlive.1 honce ?_) (ih' hlive.2 honce' ?_)
    · intro e he
      have hmem : e.id ∈ below.map (·.id) := List.mem_map_of_mem he
      rw [List.mem_cons, not_or]
      exact ⟨fun heq => hbelow (heq ▸ hmem), hnew.1 e he⟩
    · intro e he
      have hmem : e.id ∈ later.map (·.id) := List.mem_map_of_mem he
      rw [List.mem_append, List.mem_reverse, List.mem_cons, not_or, not_or]
      exact ⟨fun hid' => hparts e.id hid' e.id hmem rfl, fun heq => hlater (heq ▸ hmem),
        hnew.2 e he⟩

/-- Below nodes that lead to different ones, nothing is listed twice. -/
theorem nodup (h : t.Outlined depth ids es) (htree : t.LinksFormTree)
    (hreach : ∀ id ∈ ids, t.Reaches t.root id)
    (hapart : ids.Pairwise fun c d => ∀ x, t.Reaches c x → ¬ t.Reaches d x) :
    (es.map (·.id)).Nodup := by
  induction h with
  | done => exact List.nodup_nil
  | missing gone _ _ =>
    have hlive := htree.live _ (hreach _ List.mem_cons_self)
    simp [contains, gone] at hlive
  | @entry _ id rest below later n live children after ih ih' =>
    obtain ⟨hid, hrest⟩ := List.forall_mem_cons.mp hreach
    obtain ⟨hapart, hapart'⟩ := List.pairwise_cons.mp hapart
    have hlink {c : NodeId} (hc : c ∈ n.links) : t.Links id c := .of_node? live hc
    have honce : n.links.Nodup := children_of_node? live ▸ htree.once id hid
    have hbelow : ∀ e ∈ below, TransGen t.Links id e.id := by
      intro e he
      obtain ⟨c, hc, hlead⟩ := children.reaches e he
      exact .head' (hlink hc) hlead
    have hlater : ∀ e ∈ later, ¬ t.Reaches id e.id := by
      intro e he hlead
      obtain ⟨top, htop, hlead'⟩ := after.reaches e he
      exact hapart top htop e.id hlead hlead'
    rw [List.map_cons, List.map_append, List.nodup_cons, List.mem_append, List.nodup_append]
    refine ⟨?_, ih (fun c hc => hid.tail (hlink hc)) ?_, ih' hrest hapart', ?_⟩
    · rintro (hmem | hmem)
      · obtain ⟨e, he, heq⟩ := List.mem_map.mp hmem
        obtain rfl : e.id = id := heq
        exact htree.acyclic e.id hid (hbelow e he)
      · obtain ⟨e, he, heq⟩ := List.mem_map.mp hmem
        obtain rfl : e.id = id := heq
        exact hlater e he .refl
    · refine honce.imp_of_mem fun {c d} hc hd hne x hx => ?_
      exact htree.siblings_apart hid (hlink hc) (hlink hd) hne hx
    · intro x hx y hy heq
      obtain ⟨e, he, rfl⟩ := List.mem_map.mp hx
      obtain ⟨e', he', rfl⟩ := List.mem_map.mp hy
      exact hlater e' he' (heq ▸ (hbelow e he).to_reflTransGen)

end Outlined

/-! ### Outlines of trees -/

/-- As many levels as there are nodes above a node and others suffice for the outline below it. -/
theorem outlineFrom_outlined (h : t.LinksFormTree) {levels : Nat} (hway : t.Way (id :: path))
    (hlevels : t.size ≤ path.length+levels) :
    t.Outlined depth [id] (t.outlineFrom levels depth id) := by
  induction levels generalizing depth id path with
  | zero =>
    have hlength := h.way_length_lt hway
    omega
  | succ levels ih =>
    obtain ⟨n, hn⟩ := Option.isSome_iff_exists.mp (h.live id hway.leads.1)
    have hbelow : t.Outlined (depth+1) n.links
        (n.links.flatMap (t.outlineFrom levels (depth+1))) := by
      refine .flatMap fun c hc => ih (hway.cons (.of_node? hn hc)) ?_
      rw [List.length_cons]
      omega
    unfold outlineFrom
    rw [hn, children_of_node? hn, ← List.append_nil (n.links.flatMap _)]
    exact .entry hn hbelow (.done depth)

/-- Below the root of a tree the outline shows what is reachable. No number of levels that is at
least that of the nodes makes a difference to it. -/
theorem LinksFormTree.shows (h : t.LinksFormTree) {levels : Nat} (hlevels : t.size ≤ levels) :
    t.Shows (t.outlineFrom levels 0 t.root) := by
  have hends : t.Outlined 0 [t.root] (t.outlineFrom levels 0 t.root) :=
    outlineFrom_outlined h (.root t) (by rw [List.length_nil]; omega)
  have hlive : ∀ e ∈ t.outlineFrom levels 0 t.root, e.node = t.node? e.id ∧ e.node.isSome := by
    intro e he
    obtain ⟨top, htop, hreach⟩ := hends.reaches e he
    obtain rfl := List.mem_singleton.mp htop
    have hnode := hends.node e he
    exact ⟨hnode, hnode ▸ h.live e.id hreach⟩
  have honce : ((t.outlineFrom levels 0 t.root).map (·.id)).Nodup :=
    hends.nodup h (by simp [Reaches, ReflTransGen.refl]) (List.pairwise_singleton _ _)
  refine ⟨fun es => ⟨fun hes => hes.unique hends, fun heq => heq ▸ hends⟩, hlive, ?_, honce, ?_⟩
  · exact preorder_iff.mp (hends.preorder (fun e he => (hlive e he).2) honce (by simp))
  · intro e he
    have hroot : ∀ id ∈ [t.root], ∃ path, t.Way (id :: path) ∧ path.length = 0 := by
      intro id hid
      obtain rfl := List.mem_singleton.mp hid
      exact ⟨[], .root t, rfl⟩
    obtain ⟨path, hway, hlength⟩ := hends.way hroot e he
    exact ⟨⟨path, hway⟩, fun path' hway' => h.way_unique hway' hway ▸ hlength⟩

/-! ### The rest of the nodes -/

end Tree

/-! ### Trees of templates -/

end BehaviourTree
