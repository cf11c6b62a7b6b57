import BehaviourTree.Proofs.Attaching
import BehaviourTree.Proofs.LocalEdits

/-!
Attaching a child where links form a forest: everything legal is accepted, however deep the tree,
and nothing else is; and to detach the child again undoes it.
-/

namespace BehaviourTree

open Relation

variable {H : Host}

namespace Tree

/-- No two links lead to the same place, and none lead in a circle. They may lead to nodes that are
gone. -/
structure Forested (t : Tree H) : Prop where
  keyed : t.ids.Nodup
  once : (t.nodes.flatMap (·.links)).Nodup
  acyclic : ∀ id, ¬ TransGen t.Links id id

/-- An attachment that leaves a forest a forest, of nodes that are there, below a parent that takes
children. -/
structure Legal (t : Tree H) (parent child : NodeId) : Prop where
  parentLive : t.contains parent
  childLive : t.contains child
  distinct : parent ≠ child
  notRoot : child ≠ t.root
  unlinked : ∀ n ∈ t.nodes, child ∉ n.links
  notAbove : ¬ TransGen t.Links child parent
  takes : ∀ p, t.node? parent = some p → p.kind.shape ≠ .noChildren

/-- What a legal attachment does. A child that a single slot has let go of stays where it is among
the nodes, without a parent. -/
structure Attached (t : Tree H) (parent child : NodeId) (t' : Tree H) : Prop where
  children : ∀ p, t.node? parent = some p → t'.children parent = p.linksAfter child
  placed : t'.parentOf? child = some parent
  released : ∀ p, t.node? parent = some p → p.kind.shape = .oneChild → ∀ c ∈ p.links,
    t'.parentOf? c = none ∧ t'.node? c = t.node? c
  rest : t.EditedTo (.attach parent child) t'

/-- The parent has no slot that something is in. -/
def Vacant (t : Tree H) (parent : NodeId) : Prop :=
  ∀ p, t.node? parent = some p → p.kind.shape = .oneChild → p.links = []

variable {t t' : Tree H} {id target parent child : NodeId}

theorem WellFormed.forested (h : t.WellFormed) : t.Forested :=
  ⟨h.idsDistinct, h.linkedOnce, h.acyclic⟩

/-! ### Climbing -/

theorem links_of_parentOf? (hkeys : t.ids.Nodup) {p : NodeId} (h : t.parentOf? id = some p) :
    t.Links p id := by
  unfold parentOf? at h
  obtain ⟨n, hfind, rfl⟩ := Option.map_eq_some_iff.mp h
  have hlinked : id ∈ n.links := by simpa using List.find?_some hfind
  exact .of_node? (node?_of_mem hkeys (List.mem_of_find?_eq_some hfind)) hlinked

/-- The nodes that a climb passes are all different, so it comes to its end before its steps run
out. -/
theorem leads_of_climbMeets (h : t.Forested) {steps : Nat} {passed : List NodeId}
    (hlive : ∀ x ∈ id :: passed, x ∈ t.ids) (hnodup : (id :: passed).Nodup)
    (hbelow : ∀ x ∈ passed, TransGen t.Links id x) (hsteps : t.size < steps+passed.length)
    (hclimb : t.climbMeets target steps id) : TransGen t.Links target id := by
  induction steps generalizing id passed with
  | zero =>
    have hle := (List.subperm_of_subset hnodup hlive).length_le
    rw [ids, List.length_map, List.length_cons] at hle
    unfold size at hsteps
    omega
  | succ steps ih =>
    unfold climbMeets at hclimb
    cases hparent : t.parentOf? id with
    | none =>
      rw [hparent] at hclimb
      cases hclimb
    | some p =>
      have hlink := links_of_parentOf? h.keyed hparent
      rw [hparent] at hclimb
      rcases Bool.or_eq_true_iff.mp hclimb with hmet | hclimb
      · obtain rfl : p = target := by simpa using hmet
        exact .single hlink
      · have hbelow' : ∀ x ∈ id :: passed, TransGen t.Links p x := by
          intro x hx
          rcases List.mem_cons.mp hx with rfl | hx
          · exact .single hlink
          · exact .head hlink (hbelow x hx)
        -- To meet a node again would be to have climbed in a circle.
        have hnew : p ∉ id :: passed := fun hmem => h.acyclic p (hbelow' p hmem)
        obtain ⟨n, hn, -⟩ := hlink.exists_node
        have hp : p ∈ t.ids := contains_iff.mp (Option.isSome_of_eq_some hn)
        have habove : TransGen t.Links target p :=
          ih (List.forall_mem_cons.mpr ⟨hp, hlive⟩) (List.nodup_cons.mpr ⟨hnew, hnodup⟩) hbelow'
            (by rw [List.length_cons]; omega) hclimb
        exact habove.tail hlink

/-- In a forest, a node is found to be above another exactly if it leads to it. -/
theorem isAncestor_iff (h : t.Forested) (hlive : t.contains id) :
    t.isAncestor target id ↔ TransGen t.Links target id := by
  constructor
  · intro hclimb
    have hstart : ∀ x ∈ [id], x ∈ t.ids := by
      intro x hx
      rw [List.mem_singleton.mp hx]
      exact contains_iff.mp hlive
    have hnone : ∀ x ∈ ([] : List NodeId), TransGen t.Links id x := by simp
    exact leads_of_climbMeets h hstart (List.nodup_singleton id) hnone (Nat.lt_succ_self _) hclimb
  · intro hleads
    refine climbMeets_of_leads (t.linksOf_profiles.symm ▸ h.once) _ ?_
    exact TransGen.mono (fun _ _ => Links.linked) target id hleads

theorem attachable_iff_legal (h : t.Forested) :
    t.Attachable parent child ↔ t.Legal parent child := by
  constructor
  · rintro ⟨hne, hlive, hroot, hnone, hnot, p, hp, hshape⟩
    have hparent : t.contains parent := Option.isSome_of_eq_some hp
    refine ⟨hparent, hlive, hne, hroot, parentOf?_eq_none_iff.mp hnone,
      mt (isAncestor_iff h hparent).mpr hnot, fun q hq => ?_⟩
    obtain rfl : p = q := Option.some.inj (hp.symm.trans hq)
    exact hshape
  · intro hlegal
    obtain ⟨p, hp⟩ := Option.isSome_iff_exists.mp hlegal.parentLive
    exact ⟨hlegal.distinct, hlegal.childLive, hlegal.notRoot,
      parentOf?_eq_none_iff.mpr hlegal.unlinked,
      mt (isAncestor_iff h hlegal.parentLive).mp hlegal.notAbove, p, hp, hlegal.takes p hp⟩

end Tree

/-! ### What an attachment leaves -/

namespace Node

theorem withLinks_links (n : Node H) (cs : List NodeId) :
    (n.withLinks cs).links = n.nodeType.fit cs :=
  (n.kind.setLinks_links cs).2

theorem withLinks_self (n : Node H) : n.withLinks n.links = n := by
  unfold withLinks links
  rw [n.kind.setLinks_self]

theorem withLinks_withLinks (n : Node H) (cs ds : List NodeId) :
    (n.withLinks cs).withLinks ds = n.withLinks ds := by
  unfold withLinks
  simp only [n.kind.setLinks_setLinks]

/-- A parent that takes children has those that it is given. -/
theorem fit_linksAfter {n : Node H} (h : n.kind.shape ≠ .noChildren) (child : NodeId) :
    n.nodeType.fit (n.linksAfter child) = n.linksAfter child := by
  have hshape : n.nodeType.shape = n.kind.shape := rfl
  unfold NodeType.fit linksAfter
  rw [hshape]
  cases hkind : n.kind.shape with
  | noChildren => exact absurd hkind h
  | oneChild => rfl
  | manyChildren => rfl

theorem mem_linksAfter (n : Node H) (child : NodeId) : child ∈ n.linksAfter child := by
  unfold linksAfter
  split <;> simp

/-- What a node is left with when it has been given a child and that is taken away again. -/
def linksLeft (n : Node H) : List NodeId := if n.kind.shape = .oneChild then [] else n.links

theorem erase_linksAfter {n : Node H} {child : NodeId} (h : child ∉ n.links) :
    (n.linksAfter child).erase child = n.linksLeft := by
  unfold linksAfter linksLeft
  split
  · exact List.erase_cons_head child []
  · rw [List.erase_append_right _ h, List.erase_cons_head, List.append_nil]

end Node

namespace Tree

variable {t t' : Tree H} {parent child : NodeId} {before after : List (Node H)} {n m : Node H}

/-- A node that is put in the place of another, under its identifier. -/
theorem Places.put (h : t.Places before n after) (hid : m.id = n.id) :
    ({ t with nodes := before ++ m :: after } : Tree H).Places before m after :=
  ⟨rfl, fun k hk => hid ▸ h.alone k hk⟩

theorem Places.attached_children (h : t.Places before n after)
    (hshape : n.kind.shape ≠ .noChildren) :
    (t.relink n.id (n.linksAfter child)).children n.id = n.linksAfter child := by
  have hput := h.put (m := n.withLinks (n.linksAfter child)) rfl
  rw [h.relink]
  refine (children_of_node? hput.node?).trans ?_
  rw [Node.withLinks_links, Node.fit_linksAfter hshape]

theorem Places.detach_attached (h : t.Places before n after) (hshape : n.kind.shape ≠ .noChildren)
    (hfree : child ∉ n.links) :
    (t.relink n.id (n.linksAfter child)).detach? n.id child = some (t.relink n.id n.linksLeft) := by
  have hlinked := n.mem_linksAfter child
  have hput := h.put (m := n.withLinks (n.linksAfter child)) rfl
  unfold detach?
  rw [h.attached_children hshape, if_pos hlinked, Node.erase_linksAfter hfree, h.relink, h.relink]
  refine congrArg some ((hput.relink n.linksLeft).trans ?_)
  rw [Node.withLinks_withLinks]

theorem Places.relink_self (h : t.Places before n after) : t.relink n.id n.links = t := by
  rw [h.relink, Node.withLinks_self, ← h.nodes]

/-- Who has a link after an attachment had it before, or is the parent. -/
theorem Places.attached_linked (h : t.Places before n after) (hshape : n.kind.shape ≠ .noChildren)
    {c : NodeId} (hm : m ∈ (t.relink n.id (n.linksAfter child)).nodes) (hc : c ∈ m.links) :
    m.id = n.id ∧ c ∈ n.linksAfter child ∨ m.id ≠ n.id ∧ m ∈ t.nodes := by
  rw [h.relink] at hm
  have hsplit : m ∈ before ++ after ∨ m = n.withLinks (n.linksAfter child) := by
    rcases List.mem_append.mp hm with hm | hm
    · exact Or.inl (List.mem_append_left _ hm)
    · rcases List.mem_cons.mp hm with hm | hm
      · exact Or.inr hm
      · exact Or.inl (List.mem_append_right _ hm)
  rcases hsplit with hother | rfl
  · refine Or.inr ⟨h.alone m hother, ?_⟩
    rw [h.nodes]
    exact List.perm_middle.symm.subset (List.mem_cons_of_mem n hother)
  · rw [Node.withLinks_links, Node.fit_linksAfter hshape] at hc
    exact Or.inl ⟨rfl, hc⟩

theorem relink_node?_of_ne {id c : NodeId} (hne : c ≠ id) (cs : List NodeId) :
    (t.relink id cs).node? c = t.node? c := by
  rw [node?_map (f := fun n => if n.id = id then { n with kind := n.kind.setLinks cs } else n)
    (fun n => by split <;> rfl) (t.relink_nodes id cs)]
  cases hn : t.node? c with
  | none => rfl
  | some n =>
    obtain ⟨-, rfl⟩ := node?_some hn
    rw [Option.map_some, if_neg hne]

theorem attached_of_ok (h : t.Forested) (hok : t.attach parent child = .ok t') :
    t.Attached parent child t' := by
  have hlegal := (attachable_iff_legal h).mp (attach_isOk_iff.mp ⟨t', hok⟩)
  have hrest := attach_edited h.keyed hok
  obtain ⟨p, hp, hshape, rfl⟩ := attach_relink hok
  obtain ⟨rfl, before, after, hplaces⟩ := exists_places h.keyed hp
  have hmem := (node?_some hp).1
  have hchildren : (t.relink p.id (p.linksAfter child)).children p.id = p.linksAfter child :=
    hplaces.attached_children hshape
  have hsame {q : Node H} (hq : t.node? p.id = some q) : p = q := Option.some.inj (hp.symm.trans hq)
  refine ⟨fun q hq => hsame hq ▸ hchildren, ?_, fun q hq hone c hc => ?_, hrest⟩
  -- Nobody has linked to the child before.
  · have hlink : (t.relink p.id (p.linksAfter child)).Links p.id child := by
      unfold Links
      rw [hchildren]
      exact p.mem_linksAfter child
    refine parentOf?_of_only hlink.linked fun m hm hc => ?_
    rcases hplaces.attached_linked hshape hm hc with ⟨hid, -⟩ | ⟨-, hold⟩
    · exact hid
    · exact absurd hc (hlegal.unlinked m hold)
  -- What the slot held was linked to by the parent alone.
  · obtain rfl := hsame hq
    have hlink : t.Links p.id c := .of_node? hp hc
    refine ⟨parentOf?_eq_none_iff.mpr fun m hm hc' => ?_, relink_node?_of_ne ?_ _⟩
    · rcases hplaces.attached_linked hshape hm hc' with ⟨-, hnew⟩ | ⟨hne, hold⟩
      · rw [Node.linksAfter, if_pos hone] at hnew
        exact hlegal.unlinked p hmem (List.mem_singleton.mp hnew ▸ hc)
      · exact hne (congrArg Node.id (eq_of_shared_link h.once hold hmem hc' hc))
    · rintro rfl
      exact h.acyclic p.id (.single hlink)

theorem detach_of_attached (h : t.Forested) (hok : t.attach parent child = .ok t') :
    ∃ t'', t'.detach? parent child = some t'' ∧ (t.Vacant parent → t'' = t) := by
  have hlegal := (attachable_iff_legal h).mp (attach_isOk_iff.mp ⟨t', hok⟩)
  obtain ⟨p, hp, hshape, rfl⟩ := attach_relink hok
  obtain ⟨rfl, before, after, hplaces⟩ := exists_places h.keyed hp
  have hfree := hlegal.unlinked p (node?_some hp).1
  refine ⟨_, hplaces.detach_attached hshape hfree, fun hvacant => ?_⟩
  have hleft : p.linksLeft = p.links := by
    unfold Node.linksLeft
    split
    · next hone => exact (hvacant p hp hone).symm
    · rfl
  rw [hleft]
  exact hplaces.relink_self

end Tree

/-- Where links form a forest, exactly the legal attachments are accepted: a node that is there,
other than the root, that no node links to and that is not above the parent, below a node that takes
children. Climbing never gives up on a tree for its depth. The child comes last in the list of its
parent, or alone in its slot; whatever was in the slot is without a parent; nothing else changes. To
detach the child then works, and leaves the tree as it was if nothing has been pushed out of a slot.
Links may lead to nodes that are gone. -/
theorem attach_accepts_legal {t : Tree H} (h : t.Forested) (parent child : NodeId) :
    ((∃ t', t.attach parent child = .ok t') ↔ t.Legal parent child) ∧
      ∀ t', t.attach parent child = .ok t' → t.Attached parent child t' ∧
        ∃ t'', t'.detach? parent child = some t'' ∧ (t.Vacant parent → t'' = t) :=
  ⟨Tree.attach_isOk_iff.trans (Tree.attachable_iff_legal h),
    fun _ hok => ⟨Tree.attached_of_ok h hok, Tree.detach_of_attached h hok⟩⟩

/-- A sequence below the root with a child that is gone and a repeat behind it, and a wait. -/
def Demo.branching : List (Operation Demo.smallHost) :=
  [.add (.sequence (.idle [])), .attach (.ofNat 2) (.ofNat 3), .add (.parallel []),
    .attach (.ofNat 3) (.ofNat 4), .add (.repeater none), .attach (.ofNat 3) (.ofNat 5),
    .add (.action (Demo.Action.wait 3 3)), .delete (.ofNat 4)]

/-- The wait goes below the repeat, and the sequence above them does not. -/
theorem attach_accepts_legal_branching :
    let t := (Demo.sapling.run Demo.branching).1.tree
    t.Forested ∧ t.children (.ofNat 3) = [.ofNat 4, .ofNat 5] ∧ ¬ t.contains (.ofNat 4) ∧
      ¬ t.Legal (.ofNat 5) (.ofNat 3) ∧ t.Legal (.ofNat 5) (.ofNat 6) ∧
      ∃ t', t.attach (.ofNat 5) (.ofNat 6) = .ok t' ∧
        t.Attached (.ofNat 5) (.ofNat 6) t' ∧ t'.detach? (.ofNat 5) (.ofNat 6) = some t := by
  intro t
  have hnew : Reached .builtin Operation.LinkFree (2^128) Demo.sapling [] :=
    Reached.new (H := Demo.smallHost) Demo.counted_fresh _ _
  have hops : ∀ op ∈ Demo.branching, op.LinkFree := by
    intro op hop
    simp only [Demo.branching, List.mem_cons, List.not_mem_nil, or_false] at hop
    rcases hop with rfl | rfl | rfl | rfl | rfl | rfl | rfl | rfl
    exacts [rfl, trivial, rfl, trivial, rfl, trivial, rfl, trivial]
  have hdrawn : (Demo.sapling.run Demo.branching).1.supply.drawn ≤ 2^128 := by decide +kernel
  have hforested : t.Forested :=
    ((hnew.run hops).sound Registry.builtin_linkFree hdrawn).2.wellFormed.forested
  obtain ⟨hrefuses, -⟩ := attach_accepts_legal hforested (.ofNat 5) (.ofNat 3)
  obtain ⟨haccepts, hattached⟩ := attach_accepts_legal hforested (.ofNat 5) (.ofNat 6)
  obtain ⟨t', ht'⟩ : ∃ t', t.attach (.ofNat 5) (.ofNat 6) = .ok t' := ⟨_, rfl⟩
  have hrefused : t.attach (.ofNat 5) (.ofNat 3) = .error .alreadyPlaced := rfl
  refine ⟨hforested, by decide +kernel, by decide +kernel, fun hlegal => ?_,
    haccepts.mp ⟨t', ht'⟩, t', ht', (hattached t' ht').1, ?_⟩
  · obtain ⟨t'', ht''⟩ := hrefuses.mpr hlegal
    rw [hrefused] at ht''
    cases ht''
  · obtain ⟨t'', hdetach, hsame⟩ := (hattached t' ht').2
    have hvacant : t.Vacant (.ofNat 5) := by
      intro p hp _
      obtain rfl := Option.some.inj (hp.symm.trans (rfl : t.node? (.ofNat 5) = some _))
      rfl
    rw [hdetach, hsame hvacant]

end BehaviourTree
