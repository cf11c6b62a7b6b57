import BehaviourTree.Proofs.Beginnings
import BehaviourTree.Proofs.LegalAttachments
import BehaviourTree.Proofs.NumberOrder

/-!
Children in the order of their positions: they stand from left to right, those that stand alike keep
their order, and links that lead nowhere are at the end.
-/

namespace BehaviourTree

variable {H : Host}

theorem Node.withLinks_composite {n : Node H} (h : n.kind.shape = .manyChildren)
    (cs : List NodeId) :
    (n.withLinks cs).kind.shape = .manyChildren ∧ (n.withLinks cs).links = cs := by
  have hshape : n.nodeType.shape = .manyChildren := h
  constructor
  · have htype : (n.kind.setLinks cs).nodeType = n.kind.nodeType := (n.kind.setLinks_links cs).1
    change (n.kind.setLinks cs).nodeType.shape = _
    rw [htype]
    exact h
  · rw [withLinks_links]
    unfold NodeType.fit
    rw [hshape]

namespace Tree

variable {t : Tree H} {before after : List (Node H)} {n : Node H} {cs ds es : List NodeId}

/-- How far to the right a link leads. One that leads nowhere is to the right of everything. -/
def standing (t : Tree H) (id : NodeId) : Float32 :=
  match t.node? id with
  | some n => n.position.x
  | none => 1/0

/-- Links from left to right. Those that stand alike are in the order in which they were given. -/
structure LeftToRight (t : Tree H) (given sorted : List NodeId) : Prop where
  perm : sorted.Perm given
  ordered : sorted.Pairwise fun c d => t.standing c ≤ t.standing d
  stable : ∀ c ∈ given, sorted.filter (t.standing · == t.standing c) =
    given.filter (t.standing · == t.standing c)

theorem abscissa?_eq (t : Tree H) (id : NodeId) :
    t.abscissa? id = Decimal.rank? (t.standing id) := by
  have hinf : Decimal.rank? (1/0) = some (Decimal.infinityRank : ℤ) := by decide +kernel
  unfold abscissa? standing
  cases t.node? id with
  | none => exact hinf.symm
  | some n => rfl

theorem standing_number (h : ∀ c ∈ cs, ∀ n, t.node? c = some n → ¬ n.position.x.isNaN) :
    ∀ c ∈ cs, ¬ (t.standing c).isNaN := by
  have hinf : ¬ (1/0 : Float32).isNaN := by decide +kernel
  intro c hc
  unfold standing
  cases hn : t.node? c with
  | none => exact hinf
  | some n => exact h c hc n hn

/-- Numbers compare as their ranks do. -/
theorem exists_ranks (h : ∀ c ∈ cs, ¬ (t.standing c).isNaN) : ∃ rank : NodeId → ℤ,
    (∀ c ∈ cs, t.abscissa? c = some (rank c)) ∧ ∀ c ∈ cs, ∀ d ∈ cs,
      (t.standing c ≤ t.standing d ↔ rank c ≤ rank d) ∧
      (t.standing c == t.standing d ↔ rank c = rank d) := by
  have hranks : ∀ c ∈ cs, ∃ a, Decimal.rank? (t.standing c) = some a := fun c hc =>
    Decimal.exists_rank (h c hc)
  choose! rank hrank using hranks
  refine ⟨rank, fun c hc => (t.abscissa?_eq c).trans (hrank c hc), fun c hc d hd => ⟨?_, ?_⟩⟩
  · exact Decimal.le_iff_of_rank (hrank c hc) (hrank d hd)
  · exact Decimal.beq_iff_of_rank (hrank c hc) (hrank d hd)

/-- Where all positions are numbers, links are brought in order, and that is done with then. -/
theorem sortLinks_leftToRight (h : ∀ c ∈ cs, ¬ (t.standing c).isNaN) :
    ∃ ds, t.sortLinks cs = .ok ds ∧ t.LeftToRight cs ds ∧ t.sortLinks ds = .ok ds := by
  obtain ⟨rank, hkey, hcompare⟩ := exists_ranks h
  obtain ⟨ds, hds, hperm, hordered, hstable⟩ := Sorting.sortByKey_orders hkey
  have hmem {c : NodeId} (hc : c ∈ ds) : c ∈ cs := hperm.subset hc
  refine ⟨ds, hds, ⟨hperm, ?_, fun c hc => ?_⟩, ?_⟩
  · apply hordered.imp_of_mem
    intro c d hc hd hle
    exact (hcompare c (hmem hc) d (hmem hd)).1.mpr hle
  · apply hstable
    intro d hd e he hdc hec
    calc rank d
      _ = rank c := (hcompare d hd c hc).2.mp hdc
      _ = rank e := ((hcompare e he c hc).2.mp hec).symm
  · exact Sorting.sortByKey_of_ordered (fun c hc => hkey c (hmem hc)) hordered

/-- There is one way to order links. -/
theorem LeftToRight.unique (h : ∀ c ∈ cs, ¬ (t.standing c).isNaN) (hds : t.LeftToRight cs ds)
    (hes : t.LeftToRight cs es) : ds = es := by
  obtain ⟨rank, -, hcompare⟩ := exists_ranks h
  have hranked {l : List NodeId} (hl : t.LeftToRight cs l) : l.Pairwise (rank · ≤ rank ·) := by
    apply hl.ordered.imp_of_mem
    intro c d hc hd hle
    exact (hcompare c (hl.perm.subset hc) d (hl.perm.subset hd)).1.mp hle
  have hgiven {l : List NodeId} (hl : t.LeftToRight cs l) {c : NodeId} (hc : c ∈ cs) :
      l.filter (rank · = rank c) = cs.filter (t.standing · == t.standing c) := by
    rw [← hl.stable c hc]
    apply List.filter_congr
    intro d hd
    rw [Bool.eq_iff_iff, decide_eq_true_iff]
    exact (hcompare d (hl.perm.subset hd) c hc).2.symm
  apply Sorting.eq_of_ordered (hds.perm.trans hes.perm.symm) (hranked hds) (hranked hes)
  intro c hc
  rw [hgiven hds (hds.perm.subset hc), hgiven hes (hds.perm.subset hc)]

/-- Other links of one node do not move any. -/
theorem Places.withLinks_sortLinks (h : t.Places before n after) (cs ds : List NodeId) :
    ({ t with nodes := before ++ n.withLinks cs :: after } : Tree H).sortLinks ds =
      t.sortLinks ds := by
  have hput := h.put (m := n.withLinks cs) rfl
  unfold sortLinks
  congr 1
  ext1 id
  rw [abscissa?_eq, abscissa?_eq]
  congr 1
  unfold standing
  by_cases hid : id = n.id
  · rw [hid, h.node?, show n.id = (n.withLinks cs).id from rfl, hput.node?]
    rfl
  · rw [← h.relink, relink_node?_of_ne hid]

/-- One composite among the others, sorted. -/
theorem Places.sortChildren (h : t.Places before n after) (hshape : n.kind.shape = .manyChildren)
    (hsort : t.sortLinks n.links = .ok cs) :
    t.sortChildren? n.id = some { t with nodes := before ++ n.withLinks cs :: after } ∧
      t.sortFails n.id = false := by
  constructor
  · unfold sortChildren?
    simp only [h.node?, hshape, hsort]
    rw [← h.relink]
    rfl
  · unfold sortFails
    rw [children_of_node? h.node?, hsort]

end Tree

/-- The children of a composite are sorted from left to right if their positions are numbers, and
there is one way to do that. Nothing else is changed, and to sort them again changes nothing. -/
theorem sortChildren_leftToRight {t : Tree H} {parent : NodeId} {p : Node H} (hkeys : t.ids.Nodup)
    (hp : t.node? parent = some p) (hshape : p.kind.shape = .manyChildren)
    (hnumbers : ∀ c ∈ p.links, ∀ n, t.node? c = some n → ¬ n.position.x.isNaN) :
    ∃ sorted before after, t.Places before p after ∧
      (∀ cs, t.LeftToRight p.links cs ↔ cs = sorted) ∧
      let p' := p.withLinks sorted
      let t' := { t with nodes := before ++ p' :: after }
      t.sortChildren? parent = some t' ∧ t.sortFails parent = false ∧
      t'.children parent = sorted ∧ p'.withLinks p.links = p ∧ p'.kind.memory = p.kind.memory ∧
      t'.sortChildren? parent = some t' ∧ t'.sortFails parent = false := by
  have hstanding := Tree.standing_number hnumbers
  obtain ⟨sorted, hsorted, horder, hagain⟩ := Tree.sortLinks_leftToRight hstanding
  obtain ⟨rfl, before, after, hplaces⟩ := Tree.exists_places hkeys hp
  obtain ⟨hshape', hlinks⟩ := Node.withLinks_composite hshape sorted
  obtain ⟨hsort, hfine⟩ := hplaces.sortChildren hshape hsorted
  have hput := hplaces.put (m := p.withLinks sorted) rfl
  have honly (cs : List NodeId) : t.LeftToRight p.links cs ↔ cs = sorted :=
    ⟨fun h => h.unique hstanding horder, fun h => h ▸ horder⟩
  refine ⟨sorted, before, after, hplaces, honly, hsort, hfine, ?_, ?_, ?_, ?_⟩
  · exact (Tree.children_of_node? hput.node?).trans hlinks
  · rw [Node.withLinks_withLinks, Node.withLinks_self]
  · exact p.kind.memory_setLinks sorted
  · rw [← hplaces.withLinks_sortLinks sorted] at hagain
    have hsort' := hput.sortChildren hshape' ((congrArg _ hlinks).trans hagain)
    rw [Node.withLinks_withLinks] at hsort'
    exact hsort'

/-- The selector is linked to twice, two children stand alike, and a link that leads nowhere comes
before a child that is infinitely far away. -/
def Demo.row : Tree Demo.smallHost :=
  let placed (x : Float32) (n : Node Demo.smallHost) : Node Demo.smallHost :=
    { n with position := ⟨x, 0⟩ }
  { tangle with
    nodes := [.make (.ofNat 1) "Root" (.root (some (.ofNat 2))),
      .make (.ofNat 2) "Sequence" (.sequence (.idle ([3, 9, 4, 5, 4, 6].map .ofNat))),
      placed 2 (.make (.ofNat 3) "Parallel" (.parallel [])),
      placed (-1) (.make (.ofNat 4) "Selector" (.selector (.idle []))),
      placed 2 (.make (.ofNat 5) "Repeat" (.repeater none)),
      placed (1/0) (.make (.ofNat 6) "Repeat" (.repeater none))] }

theorem sortChildren_leftToRight_row : ∃ t', Demo.row.sortChildren? (.ofNat 2) = some t' ∧
    t'.children (.ofNat 2) = [4, 4, 3, 5, 9, 6].map .ofNat ∧
    t'.sortChildren? (.ofNat 2) = some t' := by
  have hnumbers : ∀ c ∈ [3, 9, 4, 5, 4, 6].map NodeId.ofNat, ∀ n, Demo.row.node? c = some n →
      ¬ n.position.x.isNaN := by decide +kernel
  have horder : Demo.row.LeftToRight ([3, 9, 4, 5, 4, 6].map .ofNat)
      ([4, 4, 3, 5, 9, 6].map .ofNat) := by
    constructor <;> decide +kernel
  have hparent : Demo.row.node? (.ofNat 2) = some (.make (.ofNat 2) "Sequence"
      (.sequence (.idle ([3, 9, 4, 5, 4, 6].map .ofNat)))) := rfl
  obtain ⟨sorted, _, _, -, honly, hsort, -, hchildren, -, -, hagain, -⟩ :=
    sortChildren_leftToRight (by decide +kernel) hparent rfl hnumbers
  obtain rfl := (honly _).mp horder
  exact ⟨_, hsort, hchildren, hagain⟩

end BehaviourTree
