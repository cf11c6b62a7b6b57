import BehaviourTree.Proofs.Edits
import Mathlib.Dynamics.PeriodicPts.Lemmas

/-!
The checks that a template goes through make its nodes a forest under its root.
-/

namespace BehaviourTree

open Relation

/-! ### Lists that go together -/

section Pairs

variable {α β γ : Type} {R : α → β → Prop} {xs : List α} {ys : List β}

theorem map_eq_of_forall₂ {f : α → γ} {g : β → γ} (h : List.Forall₂ R xs ys)
    (hfg : ∀ a b, R a b → g b = f a) : ys.map g = xs.map f := by
  induction h with
  | nil => rfl
  | cons hab _ ih => rw [List.map_cons, List.map_cons, hfg _ _ hab, ih]

theorem exists_of_mem_right (h : List.Forall₂ R xs ys) {b : β} (hb : b ∈ ys) :
    ∃ a ∈ xs, R a b := by
  induction h with
  | nil => simp at hb
  | @cons a _ _ _ hab _ ih =>
    rcases List.mem_cons.mp hb with rfl | hb
    · exact ⟨a, List.mem_cons_self, hab⟩
    · obtain ⟨c, hc, hcb⟩ := ih hb
      exact ⟨c, List.mem_cons_of_mem a hc, hcb⟩

/-- What goes together comes from the two lists. -/
theorem forall₂_mem (h : List.Forall₂ R xs ys) :
    List.Forall₂ (fun a b => a ∈ xs ∧ b ∈ ys ∧ R a b) xs ys := by
  have hright := (List.forall₂_and_left ys xs).mpr ⟨fun _ hb => hb, h.flip⟩
  exact (List.forall₂_and_left xs ys).mpr ⟨fun _ ha => ha, hright.flip⟩

theorem forall₂_filterMap {f : α → Option β} {xs : List α} (hf : ∀ a ∈ xs, ∃ b, f a = some b)
    (hR : ∀ a b, f a = some b → R a b) : List.Forall₂ R xs (xs.filterMap f) := by
  induction xs with
  | nil => exact .nil
  | cons a xs ih =>
    obtain ⟨⟨b, hb⟩, hf⟩ := List.forall_mem_cons.mp hf
    rw [List.filterMap_cons_some hb]
    exact .cons (hR a b hb) (ih hf)

end Pairs

/-- A node of the shape can have that many children. -/
def NodeShape.Takes : NodeShape → Nat → Prop
  | .noChildren, count => count = 0
  | .oneChild, count => count ≤ 1
  | .manyChildren, _ => True

namespace TreeTemplate

variable {H : Host} {registry : Registry H}

/-- One check after another goes through where both do. -/
theorem bind_ok_iff {ε α β : Type} {m : Except ε α} {f : α → Except ε β} {b : β} :
    (m >>= f) = .ok b ↔ ∃ a, m = .ok a ∧ f a = .ok b := by
  cases m with
  | error e => simp [bind, Except.bind]
  | ok a =>
    constructor
    · exact fun h => ⟨a, rfl, h⟩
    · rintro ⟨_, ha, h⟩
      exact Except.ok.inj ha ▸ h

/-! ### Identities -/

/-- The search for a root goes through if no identity is used twice and no second root comes after
the first. It finds the one that there is. -/
theorem findRoot_ok_iff {seen : List NodeId} {first root : Option NodeId}
    {nodes : List NodeTemplate} :
    findRoot seen first nodes = .ok root ↔ (nodes.map (·.guid)).Nodup ∧
      (∀ a ∈ nodes, a.guid ∉ seen) ∧
      first.toList ++ (nodes.filter (·.isRoot)).map (·.guid) = root.toList := by
  induction nodes generalizing seen first with
  | nil =>
    have hlist : first.toList = root.toList ↔ first = root := by
      cases first <;> cases root <;> simp
    simp [findRoot, hlist]
  | cons a nodes ih =>
    -- No later node has the identity of this one, which counts as seen from here on.
    have hids : (((a :: nodes).map (·.guid)).Nodup ∧ ∀ b ∈ a :: nodes, b.guid ∉ seen) ↔
        a.guid ∉ seen ∧ (nodes.map (·.guid)).Nodup ∧ ∀ b ∈ nodes, b.guid ∉ a.guid :: seen := by
      rw [List.forall_mem_cons, List.map_cons, List.nodup_cons]
      simp only [List.mem_cons, List.mem_map, not_or, not_exists, not_and]
      constructor
      · rintro ⟨⟨hnew, hnodup⟩, hseen, hout⟩
        exact ⟨hseen, hnodup, fun b hb => ⟨hnew b hb, hout b hb⟩⟩
      · rintro ⟨hseen, hnodup, hout⟩
        exact ⟨⟨fun b hb => (hout b hb).1, hnodup⟩, hseen, fun b hb => (hout b hb).2⟩
    rw [← and_assoc, hids]
    unfold findRoot
    by_cases hseen : a.guid ∈ seen
    · simp [hseen]
    · by_cases hroot : a.isRoot
      · cases first with
        | some f => cases root <;> simp [hseen, hroot]
        | none => simp [hseen, hroot, ih, and_assoc]
      · simp [hseen, hroot, ih, and_assoc]

/-! ### Nodes -/

theorem checkLinks_ok_iff {known : List NodeId} {root : Option NodeId} {parent : NodeId}
    {cs : List NodeId} : checkLinks known root parent cs = .ok () ↔
      ∀ c ∈ cs, c ∈ known ∧ some c ≠ root ∧ c ≠ parent := by
  induction cs with
  | nil => simp [checkLinks]
  | cons c cs ih =>
    unfold checkLinks
    rw [List.forall_mem_cons, ← ih]
    by_cases hknown : c ∈ known
    · by_cases hloop : some c = root ∨ c = parent
      · rw [if_neg (not_not.mpr hknown), if_pos hloop]
        constructor
        · nofun
        · rintro ⟨⟨-, hroot, hparent⟩, -⟩
          exact absurd hloop (not_or.mpr ⟨hroot, hparent⟩)
      · rw [if_neg (not_not.mpr hknown), if_neg hloop]
        exact ⟨fun h => ⟨⟨hknown, not_or.mp hloop⟩, h⟩, fun h => h.2⟩
    · simp [hknown]

theorem checkCount_ok_iff {a : NodeTemplate} {type : NodeType} :
    checkCount a type = .ok () ↔ type.shape.Takes a.children.length := by
  unfold checkCount
  cases type.shape with
  | noChildren => simp [NodeShape.Takes]
  | oneChild => simp [NodeShape.Takes]
  | manyChildren => simp [NodeShape.Takes]

/-- A kind without links gets exactly the authored children. -/
theorem linkKind_links {a : NodeTemplate} {k : NodeKind H} (hk : k.LinkFree)
    (hcount : k.nodeType.shape.Takes a.children.length) :
    (linkKind a k).nodeType = k.nodeType ∧ (linkKind a k).links = a.children := by
  unfold linkKind NodeKind.shape
  split
  · next hshape =>
    rw [hshape] at hcount
    exact ⟨rfl, hk.trans (List.eq_nil_of_length_eq_zero hcount).symm⟩
  · next hshape =>
    rw [hshape] at hcount
    obtain ⟨htype, hlinks⟩ := k.setLinks_links a.children
    refine ⟨htype, hlinks.trans ?_⟩
    unfold NodeType.fit
    rw [hshape]
    match a.children, hcount with
    | [], _ => rfl
    | [_], _ => rfl
  · next hshape =>
    obtain ⟨htype, hlinks⟩ := k.setLinks_links (k.links ++ a.children)
    refine ⟨htype, hlinks.trans ?_⟩
    unfold NodeType.fit
    rw [hshape, hk]
    rfl

/-- The kind of a root is built in; every other one is what the registry makes. -/
theorem kindOf_linkFree (hkinds : ∀ name k, registry.create? name = some k → k.LinkFree)
    {a : NodeTemplate} {k : NodeKind H} (h : kindOf registry a = .ok k) :
    k.LinkFree ∧ (a.isRoot → k.nodeType = .root) := by
  unfold kindOf at h
  split at h
  · obtain rfl := Except.ok.inj h
    exact ⟨rfl, fun _ => rfl⟩
  · next hroot =>
    split at h
    · next k' hk =>
      obtain rfl := Except.ok.inj h
      exact ⟨hkinds a.kind k' hk, fun h => absurd h hroot⟩
    · simp at h

/-- The node that an author has described, made of a prototype. -/
def nodeOf (a : NodeTemplate) (k : NodeKind H) : Node H :=
  { Node.make a.guid a.kind (linkKind a k) with
    name := a.name.getD a.kind, alwaysCheck := a.alwaysCheck, position := a.position }

/-- A node is built if its kind is known and takes its children, and if these are where they should
be. -/
theorem buildNode_ok_iff {known : List NodeId} {root : Option NodeId} {a : NodeTemplate}
    {n : Node H} : buildNode registry known root a = .ok n ↔
      ∃ k, kindOf registry a = .ok k ∧ k.nodeType.shape.Takes a.children.length ∧
        (∀ c ∈ a.children, c ∈ known ∧ some c ≠ root ∧ c ≠ a.guid) ∧ n = nodeOf a k := by
  constructor
  · intro h
    obtain ⟨k, hkind, h⟩ := bind_ok_iff.mp h
    obtain ⟨_, hlinks, h⟩ := bind_ok_iff.mp h
    obtain ⟨_, hcount, h⟩ := bind_ok_iff.mp h
    exact ⟨k, hkind, checkCount_ok_iff.mp hcount, checkLinks_ok_iff.mp hlinks,
      (Except.ok.inj h).symm⟩
  · rintro ⟨k, hkind, hcount, hlinks, rfl⟩
    refine bind_ok_iff.mpr ⟨k, hkind, bind_ok_iff.mpr ⟨(), checkLinks_ok_iff.mpr hlinks, ?_⟩⟩
    exact bind_ok_iff.mpr ⟨(), checkCount_ok_iff.mpr hcount, rfl⟩

/-- What a node that was built is. -/
theorem buildNode_ok (hkinds : ∀ name k, registry.create? name = some k → k.LinkFree)
    {known : List NodeId} {root : Option NodeId} {a : NodeTemplate} {n : Node H}
    (h : buildNode registry known root a = .ok n) :
    n.id = a.guid ∧ n.guid = a.guid ∧ n.links = a.children ∧ (a.isRoot → n.nodeType = .root) ∧
      ∀ c ∈ a.children, c ∈ known ∧ some c ≠ root ∧ c ≠ a.guid := by
  obtain ⟨k, hkind, hcount, hlinks, rfl⟩ := buildNode_ok_iff.mp h
  obtain ⟨hfree, hroot⟩ := kindOf_linkFree hkinds hkind
  obtain ⟨htype, hchildren⟩ := linkKind_links hfree hcount
  exact ⟨rfl, rfl, hchildren, fun h => htype.trans (hroot h), hlinks⟩

/-- A node that was built has never run, whatever its kind. -/
theorem buildNode_idle {known : List NodeId} {root : Option NodeId} {a : NodeTemplate}
    {n : Node H} (h : buildNode registry known root a = .ok n) :
    n.id = a.guid ∧ n.running = false := by
  obtain ⟨k, -, -, -, rfl⟩ := buildNode_ok_iff.mp h
  exact ⟨rfl, rfl⟩

/-- No child is placed twice, and what is placed counts as placed from there on. -/
theorem placeChildren_ok_iff {placed placed' cs : List NodeId} :
    placeChildren placed cs = .ok placed' ↔
      cs.Nodup ∧ (∀ c ∈ cs, c ∉ placed) ∧ placed' = cs.reverse ++ placed := by
  induction cs generalizing placed with
  | nil => simp [placeChildren, eq_comm]
  | cons c cs ih =>
    unfold placeChildren
    by_cases hc : c ∈ placed
    · simp [hc]
    · rw [if_neg hc, ih, List.nodup_cons, List.forall_mem_cons, List.reverse_cons,
        List.append_assoc, List.singleton_append]
      constructor
      · rintro ⟨hnodup, hout, hplaced⟩
        -- Placed so far are the earlier children, so a second place of this one would be refused.
        exact ⟨⟨fun hmem => hout c hmem List.mem_cons_self, hnodup⟩,
          ⟨hc, fun d hd hmem => hout d hd (List.mem_cons_of_mem c hmem)⟩, hplaced⟩
      · rintro ⟨⟨hnew, hnodup⟩, ⟨-, hout⟩, hplaced⟩
        refine ⟨hnodup, fun d hd hmem => ?_, hplaced⟩
        rcases List.mem_cons.mp hmem with rfl | hmem
        · exact hnew hd
        · exact hout d hd hmem

/-- Nodes that were built one after the other share no child. -/
theorem buildNodes_ok {known placed : List NodeId} {root : Option NodeId}
    {authored : List NodeTemplate} {nodes : List (Node H)}
    (h : buildNodes registry known root placed authored = .ok nodes) :
    List.Forall₂ (fun a n => buildNode registry known root a = .ok n) authored nodes ∧
      (authored.flatMap (·.children)).Nodup ∧
      ∀ c ∈ authored.flatMap (·.children), c ∉ placed := by
  induction authored generalizing placed nodes with
  | nil =>
    obtain rfl := Except.ok.inj h
    exact ⟨.nil, List.nodup_nil, by simp⟩
  | cons a authored ih =>
    obtain ⟨n, hn, h⟩ := bind_ok_iff.mp h
    obtain ⟨placed', hplaced, h⟩ := bind_ok_iff.mp h
    obtain ⟨ns, hns, h⟩ := bind_ok_iff.mp h
    obtain rfl := Except.ok.inj h
    obtain ⟨hown, hout, rfl⟩ := placeChildren_ok_iff.mp hplaced
    obtain ⟨hbuilt, hnodup, hlater⟩ := ih hns
    refine ⟨.cons hn hbuilt, ?_, ?_⟩
    · rw [List.flatMap_cons, List.nodup_append]
      refine ⟨hown, hnodup, ?_⟩
      -- A child that is placed here is refused everywhere after.
      rintro c hc d hd rfl
      exact hlater c hd (List.mem_append_left placed (List.mem_reverse.mpr hc))
    · intro c hc
      rcases List.mem_append.mp hc with hc | hc
      · exact hout c hc
      · exact fun hmem => hlater c hc (List.mem_append_right a.children.reverse hmem)

/-! ### Loops -/

section Loops

variable {parents : List (NodeId × NodeId)} {id start : NodeId}

/-- The parent of a node that has one. -/
def parentIn (parents : List (NodeId × NodeId)) (id : NodeId) : NodeId :=
  (parents.lookup id).getD id

theorem lookup_of_mem (hnodup : (parents.map (·.1)).Nodup) {c p : NodeId}
    (h : (c, p) ∈ parents) : parents.lookup c = some p := by
  induction parents with
  | nil => simp at h
  | cons entry parents ih =>
    obtain ⟨d, q⟩ := entry
    obtain ⟨hd, hnodup⟩ := List.nodup_cons.mp hnodup
    rcases List.mem_cons.mp h with h | h
    · obtain ⟨rfl, rfl⟩ := Prod.mk.inj h
      exact List.lookup_cons_self
    · have hne : (c == d) = false := by
        have hcd : c ≠ d := fun heq => hd (List.mem_map.mpr ⟨(c, p), h, heq⟩)
        simpa using hcd
      rw [List.lookup_cons, hne]
      exact ih hnodup h

/-- Climbing finds what is above by no more than the given number of steps. -/
theorem climbsTo_of_iterate {k steps : Nat} (hk : 0 < k) (hsteps : k ≤ steps)
    (habove : (parentIn parents)^[k] id = start)
    (hparent : ∀ i < k, ∃ p, parents.lookup ((parentIn parents)^[i] id) = some p) :
    climbsTo parents start steps id := by
  induction steps generalizing k id with
  | zero => omega
  | succ steps ih =>
    obtain ⟨p, hp⟩ := hparent 0 hk
    have hp' : parents.lookup id = some p := hp
    have hup : parentIn parents id = p := by simp [parentIn, hp']
    unfold climbsTo
    rw [hp']
    -- One step up is the parent, and the start is above it by one step less.
    obtain ⟨k, rfl⟩ := Nat.exists_eq_add_one_of_ne_zero (Nat.ne_zero_of_lt hk)
    rw [Function.iterate_succ_apply, hup] at habove
    cases k with
    | zero =>
      have heq : p = start := habove
      simp [heq]
    | succ k =>
      have hrest : climbsTo parents start steps p := by
        refine ih (Nat.succ_pos k) (by omega) habove fun i hi => ?_
        have hi' := hparent (i+1) (by omega)
        rwa [Function.iterate_succ_apply, hup] at hi'
      simp [hrest]

/-- What leads to a node is above it by some steps. -/
theorem iterate_of_leads (hnodup : (parents.map (·.1)).Nodup)
    (h : TransGen (fun p c => (c, p) ∈ parents) start id) :
    ∃ k, 0 < k ∧ (parentIn parents)^[k] id = start ∧
      ∀ i < k, ∃ p, parents.lookup ((parentIn parents)^[i] id) = some p := by
  induction h with
  | @single id hmem =>
    have hp := lookup_of_mem hnodup hmem
    refine ⟨1, Nat.one_pos, by simp [parentIn, hp], fun i hi => ?_⟩
    obtain rfl : i = 0 := by omega
    exact ⟨start, hp⟩
  | @tail q id _ hmem ih =>
    obtain ⟨k, hk, habove, hparent⟩ := ih
    have hp := lookup_of_mem hnodup hmem
    have hup : parentIn parents id = q := by simp [parentIn, hp]
    refine ⟨k+1, Nat.succ_pos k, ?_, fun i hi => ?_⟩
    · rw [Function.iterate_succ_apply, hup, habove]
    · cases i with
      | zero => exact ⟨q, hp⟩
      | succ i =>
        rw [Function.iterate_succ_apply, hup]
        exact hparent i (by omega)

/-- A node that leads to itself does so within as many steps as there are links: until it comes back
to where it began, a climb meets no node twice. -/
theorem climbsTo_of_cycle (hnodup : (parents.map (·.1)).Nodup)
    (h : TransGen (fun p c => (c, p) ∈ parents) id id) :
    climbsTo parents id (parents.length+1) id := by
  obtain ⟨k, hk, hback, hparent⟩ := iterate_of_leads hnodup h
  have hperiodic : Function.IsPeriodicPt (parentIn parents) k id := hback
  let period := Function.minimalPeriod (parentIn parents) id
  have hpos : 0 < period := hperiodic.minimalPeriod_pos hk
  have hle : period ≤ k := hperiodic.minimalPeriod_le hk
  -- The nodes of one period are different, and each has a parent, so there are no more of them
  -- than links.
  have horbit : ((List.range period).map fun i => (parentIn parents)^[i] id).Nodup := by
    refine List.Nodup.map_on ?_ List.nodup_range
    intro i hi j hj hij
    exact Function.iterate_injOn_Iio_minimalPeriod (List.mem_range.mp hi) (List.mem_range.mp hj) hij
  have hsub : ∀ x ∈ (List.range period).map fun i => (parentIn parents)^[i] id,
      x ∈ parents.map (·.1) := by
    intro x hx
    obtain ⟨i, hi, rfl⟩ := List.mem_map.mp hx
    obtain ⟨p, hp⟩ := hparent i (Nat.lt_of_lt_of_le (List.mem_range.mp hi) hle)
    obtain ⟨before, behind, hsplit, -⟩ := List.lookup_eq_some_iff.mp hp
    exact List.mem_map.mpr ⟨_, hsplit ▸ List.mem_append_right _ List.mem_cons_self, rfl⟩
  have hlength := (List.subperm_of_subset horbit hsub).length_le
  simp only [List.length_map, List.length_range] at hlength
  refine climbsTo_of_iterate hpos (by omega) Function.iterate_minimalPeriod fun i hi => ?_
  exact hparent i (by omega)

theorem leads_of_climbsTo {steps : Nat}
    (h : climbsTo parents start steps id) : TransGen (fun p c => (c, p) ∈ parents) start id := by
  induction steps generalizing id with
  | zero => simp [climbsTo] at h
  | succ steps ih =>
    unfold climbsTo at h
    split at h
    · simp at h
    · next p hp =>
      obtain ⟨before, behind, hsplit, -⟩ := List.lookup_eq_some_iff.mp hp
      have hmem : (id, p) ∈ parents := hsplit ▸ List.mem_append_right _ List.mem_cons_self
      rcases Bool.or_eq_true_iff.mp h with h | h
      · obtain rfl : p = start := by simpa using h
        exact .single hmem
      · exact (ih h).tail hmem

/-- Where every child has one parent, the search finds nothing exactly if there is no loop. -/
theorem findLoop?_eq_none_iff (hnodup : (parents.map (·.1)).Nodup) {starts : List NodeId}
    (hstarts : ∀ c ∈ parents.map (·.1), c ∈ starts) :
    findLoop? parents starts = none ↔ ∀ id, ¬ TransGen (fun p c => (c, p) ∈ parents) id id := by
  constructor
  · intro h id hcycle
    have hclimbs := climbsTo_of_cycle hnodup hcycle
    obtain ⟨p, -, hmem⟩ := TransGen.tail'_iff.mp hcycle
    have hstart : id ∈ starts := hstarts id (List.mem_map_of_mem hmem)
    exact List.find?_eq_none.mp h id hstart hclimbs
  · intro hacyclic
    exact List.find?_eq_none.mpr fun id _ hclimbs => hacyclic id (leads_of_climbsTo hclimbs)

end Loops

/-! ### Templates -/

theorem map_fst_links (t : TreeTemplate) : t.links.map (·.1) = t.nodes.flatMap (·.children) := by
  simp [links, List.map_flatMap, Function.comp_def]

/-- One authored node lists another as its child. -/
def Lists (t : TreeTemplate) (p c : NodeId) : Prop := ∃ a ∈ t.nodes, a.guid = p ∧ c ∈ a.children

theorem mem_links_iff {t : TreeTemplate} {p c : NodeId} : (c, p) ∈ t.links ↔ t.Lists p c := by
  unfold links Lists
  simp only [List.mem_flatMap, List.mem_map, Prod.mk.injEq]
  constructor
  · rintro ⟨a, ha, d, hd, rfl, rfl⟩
    exact ⟨a, ha, rfl, hd⟩
  · rintro ⟨a, ha, rfl, hc⟩
    exact ⟨a, ha, c, hc, rfl, rfl⟩

/-- The identities of the nodes that are authored as the root. -/
def rootGuids (t : TreeTemplate) : List NodeId := (t.nodes.filter (·.isRoot)).map (·.guid)

theorem mem_rootGuids {t : TreeTemplate} {id : NodeId} :
    id ∈ t.rootGuids ↔ ∃ r ∈ t.nodes, r.isRoot ∧ r.guid = id := by
  simp [rootGuids, and_assoc]

/-- What the passes over a template check, one after the other. -/
theorem check_ok_iff {visit : List NodeId → List NodeId} (hvisit : ∀ ids, (visit ids).Perm ids)
    {t : TreeTemplate} {nodes : List (Node H)} {root : Option NodeId} :
    t.check visit registry = .ok (nodes, root) ↔
      t.guids.Nodup ∧ t.rootGuids = root.toList ∧
        buildNodes registry t.guids root [] t.nodes = .ok nodes ∧
        ∀ id, ¬ TransGen t.Lists id id := by
  have hroot : findRoot [] none t.nodes = .ok root ↔ t.guids.Nodup ∧ t.rootGuids = root.toList := by
    rw [findRoot_ok_iff]
    simp [guids, rootGuids]
  have hloop (hnodes : buildNodes registry t.guids root [] t.nodes = .ok nodes) :
      findLoop? t.links (visit (t.links.map (·.1))) = none ↔ ∀ id, ¬ TransGen t.Lists id id := by
    obtain ⟨-, honce, -⟩ := buildNodes_ok hnodes
    have hparents : (fun p c => (c, p) ∈ t.links) = t.Lists := by
      funext p c
      exact propext mem_links_iff
    rw [← hparents]
    exact findLoop?_eq_none_iff (t.map_fst_links ▸ honce) fun c hc => (hvisit _).mem_iff.mpr hc
  constructor
  · intro h
    obtain ⟨root', hfound, h⟩ := bind_ok_iff.mp h
    obtain ⟨nodes', hnodes, h⟩ := bind_ok_iff.mp h
    split at h
    · simp at h
    · next hnone =>
      obtain ⟨rfl, rfl⟩ := Prod.mk.inj (Except.ok.inj h)
      obtain ⟨hdistinct, hroots⟩ := hroot.mp hfound
      exact ⟨hdistinct, hroots, hnodes, (hloop hnodes).mp hnone⟩
  · rintro ⟨hdistinct, hroots, hnodes, hacyclic⟩
    refine bind_ok_iff.mpr ⟨root, hroot.mpr ⟨hdistinct, hroots⟩, ?_⟩
    refine bind_ok_iff.mpr ⟨nodes, hnodes, ?_⟩
    rw [(hloop hnodes).mpr hacyclic]
    rfl

theorem check_idle {visit : List NodeId → List NodeId} (hvisit : ∀ ids, (visit ids).Perm ids)
    {t : TreeTemplate} {nodes : List (Node H)} {root : Option NodeId}
    (h : t.check visit registry = .ok (nodes, root)) {n : Node H} (hn : n ∈ nodes) :
    n.id ∈ t.guids ∧ n.running = false := by
  obtain ⟨-, -, hnodes, -⟩ := (check_ok_iff hvisit).mp h
  obtain ⟨hbuilt, -, -⟩ := buildNodes_ok hnodes
  obtain ⟨a, ha, hnode⟩ := exists_of_mem_right hbuilt hn
  obtain ⟨hid, hidle⟩ := buildNode_idle hnode
  exact ⟨hid ▸ List.mem_map_of_mem ha, hidle⟩

/-- The nodes of an accepted template. -/
structure Accepted (t : TreeTemplate) (root : Option NodeId) (ps : List Profile) : Prop where
  forest : Forest ps
  ids : ps.map (·.id) = t.guids
  guids : ps.map (·.guid) = t.guids
  links : ∀ c ∈ linksOf ps, c ∈ t.guids
  rooted : ∀ r, root = some r → Rooted r ps

theorem check_ok {visit : List NodeId → List NodeId} (hvisit : ∀ ids, (visit ids).Perm ids)
    (hkinds : ∀ name k, registry.create? name = some k → k.LinkFree) {t : TreeTemplate}
    {nodes : List (Node H)} {root : Option NodeId}
    (h : t.check visit registry = .ok (nodes, root)) :
    t.Accepted root (nodes.map Node.profile) := by
  obtain ⟨hdistinct, hroots, hnodes, hacyclic⟩ := (check_ok_iff hvisit).mp h
  obtain ⟨hbuilt, honce, -⟩ := buildNodes_ok hnodes
  have hall := hbuilt.imp fun a n h => buildNode_ok hkinds h
  -- Authored nodes and those built of them go together one by one.
  have hids : (nodes.map Node.profile).map (·.id) = t.guids := by
    rw [List.map_map]
    exact map_eq_of_forall₂ hall fun _ _ h => h.1
  have hguids : (nodes.map Node.profile).map (·.guid) = t.guids := by
    rw [List.map_map]
    exact map_eq_of_forall₂ hall fun _ _ h => h.2.1
  have hlinks : linksOf (nodes.map Node.profile) = t.nodes.flatMap (·.children) := by
    rw [linksOf, List.flatMap_map, List.flatMap_def, List.flatMap_def]
    exact congrArg List.flatten (map_eq_of_forall₂ hall fun _ _ h => h.2.2.1)
  have hknown : ∀ c ∈ linksOf (nodes.map Node.profile), c ∈ t.guids ∧ some c ≠ root := by
    intro c hc
    obtain ⟨b, hb, hc⟩ := List.mem_flatMap.mp hc
    obtain ⟨n, hn, rfl⟩ := List.mem_map.mp hb
    obtain ⟨a, ha, -, -, hchildren, -, hall⟩ := exists_of_mem_right hall hn
    obtain ⟨hmem, hroot, -⟩ := hall c (hchildren ▸ hc)
    exact ⟨hmem, hroot⟩
  refine ⟨⟨hids ▸ hdistinct, hguids ▸ hdistinct, hlinks ▸ honce, ?_⟩, hids, hguids,
    fun c hc => (hknown c hc).1, fun r hr => ⟨?_, fun hmem => ?_⟩⟩
  -- A circle of nodes is a circle of authored ones.
  · intro id hcycle
    refine hacyclic id (TransGen.mono (fun p c hlink => ?_) id id hcycle)
    obtain ⟨b, hb, hid, hc⟩ := hlink
    obtain ⟨n, hn, rfl⟩ := List.mem_map.mp hb
    obtain ⟨a, ha, hguid, -, hchildren, -, -⟩ := exists_of_mem_right hall hn
    exact ⟨a, ha, hguid.symm.trans hid, hchildren ▸ hc⟩
  · -- The root that was found is the identity of a node that was built as a root.
    have hmem : r ∈ t.rootGuids := by
      rw [hroots, hr]
      exact List.mem_singleton_self r
    obtain ⟨a, ha, hisRoot, rfl⟩ := mem_rootGuids.mp hmem
    obtain ⟨n, hn, hguid, -, -, htype, -⟩ := exists_of_mem_right hall.flip ha
    exact ⟨n.profile, List.mem_map_of_mem hn, hguid, htype hisRoot⟩
  · exact (hknown r hmem).2 hr.symm

end TreeTemplate

namespace Tree

variable {H : Host} {t : Tree H} {registry : Registry H} {limit : Nat}

/-- A tree of given nodes on a blackboard, whether or not the root is one of them. -/
def planted (registry : Registry H) (nodes : List (Node H)) (board : BlackboardId)
    (root : NodeId) : Tree H :=
  ⟨root, nodes.map fun n => { n with blackboard := some board }, .empty board, none, registry, 0,
    choiceRng 0 none, .running, []⟩

theorem planted_contains_iff {nodes : List (Node H)} {board : BlackboardId} {root id : NodeId} :
    (planted registry nodes board root).contains id ↔ id ∈ nodes.map (·.id) := by
  rw [contains_iff]
  simp [planted, ids]

/-- Given nodes come on a new blackboard; the root that is named for lack of one is fresh. -/
theorem ofNodes_spec (registry : Registry H) (nodes : List (Node H)) (root : Option NodeId)
    (supply : IdSupply) : ∃ (id : NodeId) (later : IdSupply),
      ofNodes registry nodes root supply =
        (planted registry nodes ⟨supply.draw.1⟩ id).ensureRoot later ∧
      supply.draw.2.Precedes later ∧ (root = some id ∨
        root = none ∧ id = ⟨supply.draw.2.draw.1⟩ ∧ later = supply.draw.2.draw.2) := by
  cases root with
  | some r => exact ⟨r, _, rfl, .refl _, Or.inl rfl⟩
  | none => exact ⟨_, _, rfl, supply.draw.2.precedes_draw, Or.inr ⟨rfl, rfl, rfl⟩⟩

theorem ofNodes_sound (registry : Registry H) {supply : IdSupply} {nodes : List (Node H)}
    {root : Option NodeId} (hforest : Forest (nodes.map Node.profile))
    (hfresh : supply.Fresh limit (uses (nodes.map Node.profile)))
    (hrooted : ∀ r, root = some r → Rooted r (nodes.map Node.profile))
    (hlimit : (ofNodes registry nodes root supply).2.drawn ≤ limit) :
    (ofNodes registry nodes root supply).1.Sound limit (ofNodes registry nodes root supply).2 := by
  obtain ⟨id, later, hrun, hlater, hroot⟩ := ofNodes_spec registry nodes root supply
  let t := planted registry nodes ⟨supply.draw.1⟩ id
  have hpares : Pares (nodes.map Node.profile) t.profiles := by
    change Pares _ ((nodes.map _).map Node.profile)
    rw [List.map_map]
    exact pares_map fun n _ => ⟨rfl, rfl, rfl, .refl _⟩
  have hfresh' : supply.draw.2.Fresh limit (uses t.profiles) :=
    hfresh.draw.mono fun u hu => Or.inl (hpares.uses hu)
  rw [hrun] at hlimit ⊢
  refine ensureRoot_sound (hpares.forest hforest) (hfresh'.later hlater) (fun hlive => ?_) hlimit
  have hmem : t.root ∈ t.profiles.map (·.id) := t.map_id_profiles ▸ contains_iff.mp hlive
  rcases hroot with hroot | ⟨-, hroot, rfl⟩
  · exact hpares.rooted (hrooted t.root hroot) hforest.ids hmem
  · -- A fresh root is the identifier of no node.
    have hdrawn := (t.ensureRoot_precedes supply.draw.2.draw.2).within hlimit
    have hused := mem_uses (contains_iff.mp hlive)
    rw [hroot] at hused
    exact absurd hused (hfresh'.draw_unused hdrawn)

theorem new_sound {supply : IdSupply} (hfresh : supply.Fresh limit fun _ => False)
    (hlimit : (new registry supply).2.drawn ≤ limit) :
    (new registry supply).1.Sound limit (new registry supply).2 := by
  -- There are no nodes but the root that is put in place.
  have hnone (id : NodeId) : ¬ TransGen (Linked []) id id := by
    intro hcycle
    obtain ⟨_, -, b, hb, -⟩ := TransGen.tail'_iff.mp hcycle
    simp at hb
  have hforest : Forest ([] : List Profile) :=
    ⟨List.nodup_nil, List.nodup_nil, List.nodup_nil, hnone⟩
  refine ofNodes_sound registry hforest (hfresh.mono fun u hu => ?_) (by simp) hlimit
  obtain ⟨b, hb, -⟩ := hu
  simp at hb

/-- A successful reading is a successful check, and a tree of the nodes that it has built. -/
theorem ofTemplateVia_ok {visit : List NodeId → List NodeId} {a : TreeTemplate}
    {supply supply' : IdSupply} (h : ofTemplateVia visit registry a supply = (.ok t, supply')) :
    ∃ nodes root, a.check visit registry = .ok (nodes, root) ∧
      ofNodes registry nodes root supply = (t, supply') := by
  cases hcheck : a.check visit registry with
  | error e =>
    simp only [ofTemplateVia, hcheck] at h
    exact absurd (congrArg Prod.fst h) (by nofun)
  | ok r =>
    obtain ⟨nodes, root⟩ := r
    simp only [ofTemplateVia, hcheck] at h
    have hrun : ((.ok (ofNodes registry nodes root supply).1,
        (ofNodes registry nodes root supply).2) : Except TreeError (Tree H) × IdSupply) =
        (.ok t, supply') := h
    obtain ⟨htree, hsupply⟩ := Prod.mk.inj hrun
    exact ⟨nodes, root, rfl, Prod.ext (Except.ok.inj htree) hsupply⟩

theorem ofTemplateVia_sound {visit : List NodeId → List NodeId}
    (hvisit : ∀ ids, (visit ids).Perm ids)
    (hkinds : ∀ name k, registry.create? name = some k → k.LinkFree) {a : TreeTemplate}
    {supply supply' : IdSupply}
    (hfresh : supply.Fresh limit fun u => ∃ guid ∈ a.guids, guid.uuid = u)
    (h : ofTemplateVia visit registry a supply = (.ok t, supply'))
    (hlimit : supply'.drawn ≤ limit) : t.Sound limit supply' := by
  obtain ⟨nodes, root, hcheck, hbuilt⟩ := ofTemplateVia_ok h
  obtain ⟨hforest, hids, hguids, hlinks, hrooted⟩ := TreeTemplate.check_ok hvisit hkinds hcheck
  have hfresh' : supply.Fresh limit (uses (nodes.map Node.profile)) := by
    refine hfresh.mono fun u hu => ?_
    obtain ⟨b, hb, hu⟩ := hu
    rcases hu with rfl | rfl | ⟨c, hc, rfl⟩
    · exact ⟨b.id, hids ▸ List.mem_map_of_mem hb, rfl⟩
    · exact ⟨b.guid, hguids ▸ List.mem_map_of_mem hb, rfl⟩
    · exact ⟨c, hlinks c (List.mem_flatMap.mpr ⟨b, hb, hc⟩), rfl⟩
  have hsound := ofNodes_sound registry hforest hfresh' hrooted
  rw [hbuilt] at hsound
  exact hsound hlimit

end Tree

end BehaviourTree
