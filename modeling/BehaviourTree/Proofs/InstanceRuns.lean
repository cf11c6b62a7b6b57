import BehaviourTree.Proofs.Structure
import BehaviourTree.Proofs.TwinRuns

/-!
Instances of one tree run alike, and like the tree itself if nothing has happened to it yet.
-/

namespace BehaviourTree

variable {H : Host} {P : Pairing}

/-! ### What an instance is a copy of -/

/-- A node as it was before it ran and before it was handed to an agent. -/
def Node.pristine (n : Node H) : Node H :=
  { n with kind := n.kind.authored, owner := none, running := false }

theorem Blackboard.eq_empty {ι : Type} {V : ι → Type} {b : Blackboard V} (h : b.isEmpty) :
    .empty b.id = b := by
  obtain ⟨id, ⟨⟨impl, wf⟩⟩⟩ := b
  cases impl with
  | leaf => rfl
  | inner size key value left right => cases h

namespace Tree

/-- A tree as it was before anything happened to it. -/
def pristine (t : Tree H) : Tree H :=
  { t with
    nodes := t.nodes.map Node.pristine, blackboard := .empty t.blackboard.id, owner := none,
    rng := choiceRng t.seed none }

/-- Nothing has happened to a tree: no node has been updated or handed to an agent, nothing is on
the blackboard, and the random stream is where the seed puts it. -/
structure Blank (t : Tree H) : Prop where
  nodes : ∀ n ∈ t.nodes, n.running = false ∧ n.kind.authored = n.kind ∧ n.owner = none
  blackboard : t.blackboard.isEmpty
  owner : t.owner = none
  rng : t.rng = choiceRng t.seed none

theorem Blank.pristine_eq {t : Tree H} (h : t.Blank) : t.pristine = t := by
  have hnode : ∀ n ∈ t.nodes, n.pristine = n := by
    intro n hn
    obtain ⟨hrunning, hkind, howner⟩ := h.nodes n hn
    unfold Node.pristine
    rw [hkind, ← howner, ← hrunning]
  have hnodes : t.nodes.map Node.pristine = t.nodes := by
    rw [List.map_congr_left hnode, List.map_id']
  unfold pristine
  rw [hnodes, Blackboard.eq_empty h.blackboard, ← h.rng, ← h.owner]

end Tree

/-- A copy of what was authored is its twin if the links of the two go together. -/
theorem NodeKind.authored_twin {k : NodeKind H} {cs : List NodeId}
    (h : List.Forall₂ P.Links k.links cs) : k.authored.Twin P (k.authored.setLinks cs) := by
  have hone {child : Option NodeId} (h : List.Forall₂ P.Links child.toList cs) :
      Option.Rel P.Links child cs.head? := by
    cases child with
    | none =>
      cases h
      exact .none
    | some c =>
      cases h with
      | cons hc _ => exact .some hc
  cases k with
  | root child => exact .root (hone h)
  | repeater child => exact .repeater (hone h)
  | action a => exact .action a
  | condition c => exact .condition c
  | sequence s => exact .sequence ⟨h, .nil, rfl⟩
  | selector s => exact .selector ⟨h, .nil, rfl⟩
  | parallel _ => exact .parallel h
  | randomChoice _ _ => exact .randomChoice h .none

namespace Tree.CopiedBy

variable {t t' : Tree H} {supply start : IdSupply} {limit : Nat} {used : Uuid → Prop}
  {copies : List (NodeId × NodeId)} (h : CopiedBy copies start limit used t t' supply)

include h

/-- What has a copy is a reachable node, and the copy is a node that comes of it. -/
theorem copied {a b : NodeId} (hab : copies.lookup a = some b) :
    ∃ n n', t.node? a = some n ∧ t'.node? b = some n' ∧ CopyOf copies (InUse copies used) n n' := by
  have hreach : a ∈ t.reachable := h.originals ▸ List.mem_map_of_mem (mem_of_lookup hab)
  obtain ⟨n, hn⟩ := Option.isSome_iff_exists.mp (contains_iff.mpr (live_of_reachable hreach))
  have hmem : n ∈ t.traverse := List.mem_filterMap.mpr ⟨a, hreach, hn⟩
  obtain ⟨n', hn', hcopy⟩ := exists_of_mem_right h.nodes.flip hmem
  obtain ⟨-, rfl⟩ := node?_some hn
  obtain rfl : n'.id = b := Option.some.inj (hcopy.id.symm.trans hab)
  exact ⟨n, n', hn, node?_of_mem h.ids_nodup hn', hcopy⟩

/-- Originals and their copies. -/
def pairing : Pairing where
  ids := t.ids
  ids' := t'.ids
  twins a b := copies.lookup a = some b
  live {a b} hab := by
    obtain ⟨n, n', hn, hn', -⟩ := h.copied hab
    exact ⟨contains_iff.mp (by simp [contains, hn]), contains_iff.mp (by simp [contains, hn'])⟩
  unique {a b c d} hab hcd := by
    constructor
    · rintro rfl
      exact Option.some.inj (hab.symm.trans hcd)
    · rintro rfl
      exact lookup_injective h.distinct a c b hab hcd

/-- A link of a reachable node that has no copy leads nowhere, and so does what stands for it. -/
theorem links_together {n n' : Node H} {a b : NodeId} (hn : t.node? a = some n)
    (hab : copies.lookup a = some b) (hcopy : CopyOf copies (InUse copies used) n n') :
    List.Forall₂ h.pairing.Links n.links n'.links := by
  have hreach : a ∈ t.reachable := h.originals ▸ List.mem_map_of_mem (mem_of_lookup hab)
  have hlinked : ∀ c ∈ n.links, t.Links a c := fun c => .of_node? hn
  have hboth := (List.forall₂_and_left n.links n'.links).mpr ⟨hlinked, hcopy.follows⟩
  refine hboth.imp ?_
  rintro c c' ⟨hlink, hcopied | ⟨hnone, hunused⟩⟩
  · exact Or.inl hcopied
  · refine Or.inr ⟨fun hlive => ?_, fun hlive => hunused (Or.inr ⟨c', h.mem_ids hlive, rfl⟩)⟩
    have hmet : c ∈ t.reachable := reachable_closed hreach hlink (contains_iff.mpr hlive)
    obtain ⟨x, hx⟩ := lookup_of_reachable h.originals hmet
    rw [hnone] at hx
    cases hx

/-- An instance is the twin of what its tree was before anything happened to it. -/
theorem twin : t.pristine.Twin h.pairing t' := by
  obtain ⟨board, hmade⟩ := h.made
  have hkeep (n : Node H) : n.pristine.id = n.id := rfl
  have hnodes : t.pristine.nodes = t.nodes.map Node.pristine := rfl
  refine ⟨h.root, ids_map hkeep hnodes, rfl, ?_, ?_, ?_, ?_, ?_⟩
  · intro a b hab
    obtain ⟨n, n', hn, hn', hcopy⟩ := h.copied hab
    obtain ⟨board, hcopied⟩ := hcopy.made
    refine ⟨n.pristine, n', ?_, hn', hcopy.id, hcopy.guid, ?_, ?_, ?_, hcopy.idle⟩
    · rw [node?_map hkeep hnodes, hn]
      rfl
    · rw [hcopied]
      exact NodeKind.authored_twin (h.links_together hn hab hcopy)
    · rw [hcopied]
      rfl
    · rw [hcopied]
      rfl
  · rw [hmade]
    rfl
  · rw [hmade]
    rfl
  · rw [hmade]
    rfl
  · rw [hmade]
    rfl

end Tree.CopiedBy

/-! ### Runs of instances -/

namespace Tree.CopiedBy

variable {t t' : Tree H} {supply start : IdSupply} {limit : Nat} {used : Uuid → Prop}
  {copies : List (NodeId × NodeId)} (h : CopiedBy copies start limit used t t' supply)

include h

theorem notMem_ids {ids : List NodeId} (hused : ∀ id ∈ ids, used id.uuid) {id : NodeId}
    (hid : id ∈ t'.ids) : id ∉ ids :=
  fun hmem => h.unused id (h.mem_ids hid) (hused id hmem)

theorem account {worlds : H.World → H.World → Prop} (hH : H.IdBlind worlds)
    (settings : List Setting) (world world' : H.World) (hworld : worlds world world')
    (audience audience' : H.Audience) (frames : List TickContext) :
    (t'.configure settings).account world' audience' frames =
      (t.pristine.configure settings).account world audience frames :=
  (h.twin.configure settings).account hH hworld audience audience' frames

end Tree.CopiedBy

/-- Instances of one tree, given the same seeds and owners, run alike in all that can be told
without identifiers, though no node of one has an identifier of the other or of the tree. This holds
whatever the links of the tree are and whatever has happened to it, if leaves look neither at
identifiers nor at anything outside of their tree. The root has to be a node, and it always is: one
that is gone is replaced at once. A tree that nothing has happened to yet runs like its instances.
-/
theorem instances_run_alike (hH : H.IdBlind fun _ _ => True) {t : Tree H}
    (hlive : t.contains t.root) {supply later : IdSupply} {limit : Nat}
    (hfresh : supply.Fresh limit fun u => ∃ id ∈ t.ids, id.uuid = u)
    (hlater : (t.instantiate supply).2.Precedes later)
    (hlimit : (t.instantiate later).2.drawn ≤ limit) (settings : List Setting)
    (frames : List TickContext) (world world' : H.World) (audience audience' : H.Audience) :
    let one := (t.instantiate supply).1
    let other := (t.instantiate later).1
    (∀ id ∈ one.ids, id ∉ t.ids) ∧ (∀ id ∈ other.ids, id ∉ t.ids ∧ id ∉ one.ids) ∧
      (one.configure settings).account world audience frames =
        (other.configure settings).account world' audience' frames ∧
      (t.Blank → (one.configure settings).account world audience frames =
        (t.configure settings).account world' audience' frames) := by
  intro one other
  have hfirst : (t.instantiate supply).2.drawn ≤ limit :=
    (hlater.trans (t.instantiate_precedes later)).within hlimit
  obtain ⟨copies, start, hone⟩ := t.instantiate_copied hlive hfresh hfirst
  -- For the second instance the identifiers of the first are in use.
  have hafter := hone.fresh_after.later hlater
  obtain ⟨copies', start', hother⟩ := t.instantiate_copied hlive hafter hlimit
  have hused : ∀ id ∈ t.ids, Tree.InUse copies (fun u => ∃ id ∈ t.ids, id.uuid = u) id.uuid :=
    fun id hid => Or.inl ⟨id, hid, rfl⟩
  have hdrawn : ∀ id ∈ one.ids, Tree.InUse copies (fun u => ∃ id ∈ t.ids, id.uuid = u) id.uuid :=
    fun id hid => Or.inr ⟨id, hone.mem_ids hid, rfl⟩
  have hrun := hone.account hH settings world' world trivial audience' audience frames
  refine ⟨?_, ?_, ?_, ?_⟩
  · exact fun id hid => hone.notMem_ids (fun id hid => ⟨id, hid, rfl⟩) hid
  · intro id hid
    exact ⟨hother.notMem_ids (fun id hid => Or.inl (hused id hid)) hid,
      hother.notMem_ids (fun id hid => Or.inl (hdrawn id hid)) hid⟩
  · have hrun' := hother.account hH settings world' world' trivial audience' audience' frames
    exact hrun.trans hrun'.symm
  · intro hblank
    rwa [hblank.pristine_eq] at hrun

/-- The tree with every kind of bad link, before its first tick. -/
def Demo.bramble : Tree Demo.smallHost := { Demo.tangle with rng := Tree.choiceRng 0 none }

theorem instances_run_alike_bramble : Demo.bramble.Blank ∧
    ∀ settings frames world world' audience audience',
      let one := (Demo.bramble.instantiate (Demo.counted.skip 10)).1
      let other := (Demo.bramble.instantiate (Demo.counted.skip 20)).1
      (∀ id ∈ other.ids, id ∉ one.ids) ∧
        (one.configure settings).account world audience frames =
          (other.configure settings).account world' audience' frames ∧
        (one.configure settings).account world audience frames =
          (Demo.bramble.configure settings).account world' audience' frames := by
  have hblank : Demo.bramble.Blank := by
    refine ⟨?_, rfl, rfl, rfl⟩
    intro n hn
    simp only [Demo.bramble, Demo.tangle, List.mem_cons, List.not_mem_nil, or_false] at hn
    rcases hn with rfl | rfl | rfl <;> exact ⟨rfl, rfl, rfl⟩
  have hblind : Demo.smallHost.IdBlind fun _ _ => True :=
    Demo.host_idBlind Demo.flagsOnly fun _ _ _ => trivial
  have hfresh : (Demo.counted.skip 10).Fresh (2^128)
      fun u => ∃ id ∈ Demo.bramble.ids, id.uuid = u := by
    apply Demo.counted_unused
    rintro u ⟨id, hid, rfl⟩
    simp only [Demo.bramble, Demo.tangle, Tree.ids, List.map_cons, List.map_nil, List.mem_cons,
      List.not_mem_nil, or_false] at hid
    rcases hid with rfl | rfl | rfl
    · exact ⟨1, by decide, rfl⟩
    · exact ⟨2, by decide, rfl⟩
    · exact ⟨3, by decide, rfl⟩
  have hlater : (Demo.bramble.instantiate (Demo.counted.skip 10)).2.Precedes
      (Demo.counted.skip 20) := ⟨rfl, by decide +kernel⟩
  have hlimit : (Demo.bramble.instantiate (Demo.counted.skip 20)).2.drawn ≤ 2^128 := by
    decide +kernel
  refine ⟨hblank, fun settings frames world world' audience audience' => ?_⟩
  obtain ⟨-, hids, halike, hown⟩ := instances_run_alike hblind (t := Demo.bramble) (by decide)
    hfresh hlater hlimit settings frames world world' audience audience'
  exact ⟨fun id hid => (hids id hid).2, halike, hown hblank⟩

end BehaviourTree
