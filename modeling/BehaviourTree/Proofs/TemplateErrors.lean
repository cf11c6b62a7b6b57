import BehaviourTree.Proofs.TemplateForm

/-!
What a template is refused for. Every error tells of a fault that the template has; identities come
before all other faults, and loops through several nodes after them.
-/

namespace BehaviourTree

open Relation

variable {H : Host} {registry : Registry H}

namespace TreeTemplate

/-- The root is some node's child. -/
def RootListed (t : TreeTemplate) (id : NodeId) : Prop :=
  id ∈ t.rootGuids ∧ ∃ p, t.Lists p id

/-- A node is on a loop with another one. -/
def Loops (t : TreeTemplate) (id : NodeId) : Prop :=
  ∃ other, other ≠ id ∧ TransGen t.Lists id other ∧ TransGen t.Lists other id

end TreeTemplate

/-- A template has the fault that an error tells of. -/
def TreeError.Holds (registry : Registry H) (t : TreeTemplate) : TreeError → Prop
  | .unknownNodeKind kind =>
    ∃ a ∈ t.nodes, a.kind = kind ∧ ¬ a.isRoot ∧ registry.create? kind = none
  | .duplicateNode node => 2 ≤ t.guids.count node
  | .multipleRoots first second =>
    ∃ later, t.rootGuids = first :: second :: later ∧ first ≠ second
  | .missingChild parent child => t.Lists parent child ∧ child ∉ t.guids
  | .childrenOnLeaf node type => ∃ a ∈ t.nodes, a.guid = node ∧
    a.type? registry = some type ∧ type.shape = .noChildren ∧ a.children ≠ []
  | .tooManyChildren node type count => ∃ a ∈ t.nodes, a.guid = node ∧
    a.type? registry = some type ∧ type.shape = .oneChild ∧ a.children.length = count ∧ 1 < count
  | .sharedNode node => 2 ≤ (t.nodes.flatMap (·.children)).count node
  | .cycle node => t.RootListed node ∨ TransGen t.Lists node node

/-- A loop is told of only where it is seen on a single node, which lists the root or itself. -/
def TreeError.Direct (t : TreeTemplate) (e : TreeError) : Prop :=
  ∀ id, e = .cycle id → t.RootListed id ∨ t.Lists id id

/-- The error is about identities used twice or about roots. -/
def TreeError.OfIdentities (e : TreeError) : Prop :=
  (∃ id, e = .duplicateNode id) ∨ ∃ first second, e = .multipleRoots first second

theorem TreeError.OfIdentities.direct {t : TreeTemplate} {e : TreeError} (h : e.OfIdentities) :
    e.Direct t := by
  rcases h with ⟨id, rfl⟩ | ⟨first, second, rfl⟩
  · nofun
  · nofun

namespace TreeTemplate

/-- A check that is followed by another one fails, or goes through and leaves it to the other. -/
theorem bind_error_iff {ε α β : Type} {m : Except ε α} {f : α → Except ε β} {e : ε} :
    (m >>= f) = .error e ↔ m = .error e ∨ ∃ a, m = .ok a ∧ f a = .error e := by
  cases m with
  | error e' => simp [bind, Except.bind]
  | ok a =>
    constructor
    · exact fun h => Or.inr ⟨a, rfl, h⟩
    · rintro (h | ⟨_, ha, h⟩)
      · cases h
      · exact Except.ok.inj ha ▸ h

/-! ### Each check -/

/-- What has been met before and comes again is there twice. -/
theorem two_le_count {seen later : List NodeId} {id : NodeId} (hseen : id ∈ seen)
    (hlater : id ∈ later) : 2 ≤ (seen ++ later).count id := by
  have hone := List.one_le_count_iff.mpr hseen
  have hother := List.one_le_count_iff.mpr hlater
  rw [List.count_append]
  omega

/-- The search for a root fails at an identity that was met before, or at the second root. Up to
there all identities are different, those of the two roots too. -/
theorem findRoot_error {seen : List NodeId} {first : Option NodeId} {nodes : List NodeTemplate}
    {e : TreeError} (hfirst : ∀ r ∈ first, r ∈ seen) (h : findRoot seen first nodes = .error e) :
    (∃ id, e = .duplicateNode id ∧ 2 ≤ (seen ++ nodes.map (·.guid)).count id) ∨
      ∃ f s later, e = .multipleRoots f s ∧ f ≠ s ∧
        first.toList ++ (nodes.filter (·.isRoot)).map (·.guid) = f :: s :: later := by
  induction nodes generalizing seen first with
  | nil => cases h
  | cons a nodes ih =>
    -- What is met here goes from the nodes to come to those before, and is counted there.
    have hcount (id : NodeId) : (a.guid :: seen ++ nodes.map (·.guid)).count id =
        (seen ++ (a :: nodes).map (·.guid)).count id := List.perm_middle.symm.count_eq id
    unfold findRoot at h
    split at h
    · next hseen =>
      obtain rfl := Except.error.inj h
      exact Or.inl ⟨a.guid, rfl, two_le_count hseen List.mem_cons_self⟩
    · next hnew =>
      split at h
      · next hroot =>
        rw [List.filter_cons_of_pos hroot]
        cases first with
        | some f =>
          obtain rfl := Except.error.inj h
          have hne : f ≠ a.guid := fun heq => hnew (heq ▸ hfirst f rfl)
          exact Or.inr ⟨f, a.guid, _, rfl, hne, rfl⟩
        | none =>
          have hfirst' : ∀ r ∈ some a.guid, r ∈ a.guid :: seen := by
            rintro r ⟨⟩
            exact List.mem_cons_self
          have hlater := ih hfirst' h
          simp only [hcount] at hlater
          exact hlater
      · next hroot =>
        rw [List.filter_cons_of_neg hroot]
        have hfirst' : ∀ r ∈ first, r ∈ a.guid :: seen :=
          fun r hr => List.mem_cons_of_mem _ (hfirst r hr)
        simpa only [hcount] using ih hfirst' h

theorem kindOf_error_iff {a : NodeTemplate} {e : TreeError} : kindOf registry a = .error e ↔
    ¬ a.isRoot ∧ registry.create? a.kind = none ∧ e = .unknownNodeKind a.kind := by
  unfold kindOf
  by_cases hroot : a.isRoot
  · simp [hroot]
  · cases registry.create? a.kind with
    | none => simp [hroot, eq_comm]
    | some k => simp [hroot]

theorem checkLinks_error {known : List NodeId} {root : Option NodeId} {parent : NodeId}
    {cs : List NodeId} {e : TreeError} (h : checkLinks known root parent cs = .error e) :
    ∃ c ∈ cs, c ∉ known ∧ e = .missingChild parent c ∨
      (some c = root ∨ c = parent) ∧ e = .cycle c := by
  induction cs with
  | nil => cases h
  | cons c cs ih =>
    unfold checkLinks at h
    split at h
    · next hmissing => exact ⟨c, List.mem_cons_self, Or.inl ⟨hmissing, (Except.error.inj h).symm⟩⟩
    · split at h
      · next hloop => exact ⟨c, List.mem_cons_self, Or.inr ⟨hloop, (Except.error.inj h).symm⟩⟩
      · obtain ⟨d, hd, hfault⟩ := ih h
        exact ⟨d, List.mem_cons_of_mem c hd, hfault⟩

theorem checkCount_error {a : NodeTemplate} {type : NodeType} {e : TreeError}
    (h : checkCount a type = .error e) :
    type.shape = .noChildren ∧ a.children ≠ [] ∧ e = .childrenOnLeaf a.guid type ∨
      type.shape = .oneChild ∧ 1 < a.children.length ∧
        e = .tooManyChildren a.guid type a.children.length := by
  unfold checkCount at h
  split at h
  · next hshape =>
    split at h
    · cases h
    · next hchildren =>
      exact Or.inl ⟨hshape, mt List.isEmpty_iff.mpr hchildren, (Except.error.inj h).symm⟩
  · next hshape =>
    split at h
    · cases h
    · next hcount => exact Or.inr ⟨hshape, Nat.lt_of_not_le hcount, (Except.error.inj h).symm⟩
  · cases h

/-- A node is refused for its kind, its links or their number. -/
theorem buildNode_error {t : TreeTemplate} {root : Option NodeId}
    (hroot : ∀ r ∈ root, r ∈ t.rootGuids) {a : NodeTemplate} (ha : a ∈ t.nodes) {e : TreeError}
    (h : buildNode registry t.guids root a = .error e) : e.Holds registry t ∧ e.Direct t := by
  rcases bind_error_iff.mp h with hkind | ⟨k, hkind, h⟩
  · obtain ⟨hnotRoot, hunknown, rfl⟩ := kindOf_error_iff.mp hkind
    exact ⟨⟨a, ha, rfl, hnotRoot, hunknown⟩, nofun⟩
  have htype := type?_eq_some_iff.mpr ⟨k, hkind, rfl⟩
  rcases bind_error_iff.mp h with hlinks | ⟨_, -, h⟩
  · obtain ⟨c, hc, hfault⟩ := checkLinks_error hlinks
    have hlists : t.Lists a.guid c := ⟨a, ha, rfl, hc⟩
    rcases hfault with ⟨hmissing, rfl⟩ | ⟨hfound | rfl, rfl⟩
    · exact ⟨⟨hlists, hmissing⟩, nofun⟩
    · have hlisted : t.RootListed c := ⟨hroot c hfound.symm, a.guid, hlists⟩
      refine ⟨Or.inl hlisted, ?_⟩
      rintro id ⟨⟩
      exact Or.inl hlisted
    · refine ⟨Or.inr (.single hlists), ?_⟩
      rintro id ⟨⟩
      exact Or.inr hlists
  rcases bind_error_iff.mp h with hcount | ⟨_, -, h⟩
  · rcases checkCount_error hcount with ⟨hshape, hchildren, rfl⟩ | ⟨hshape, hmany, rfl⟩
    · exact ⟨⟨a, ha, rfl, htype, hshape, hchildren⟩, nofun⟩
    · exact ⟨⟨a, ha, rfl, htype, hshape, rfl, hmany⟩, nofun⟩
  · cases h

theorem placeChildren_error {placed cs : List NodeId} {e : TreeError}
    (h : placeChildren placed cs = .error e) :
    ∃ id, e = .sharedNode id ∧ 2 ≤ (placed ++ cs).count id := by
  induction cs generalizing placed with
  | nil => cases h
  | cons c cs ih =>
    have hcount (id : NodeId) : (c :: placed ++ cs).count id = (placed ++ c :: cs).count id :=
      List.perm_middle.symm.count_eq id
    unfold placeChildren at h
    split at h
    · next hplaced =>
      obtain rfl := Except.error.inj h
      exact ⟨c, rfl, two_le_count hplaced List.mem_cons_self⟩
    · simpa only [hcount] using ih h

/-- The second pass fails at one of the nodes, or at a child that has been placed before. -/
theorem buildNodes_error {known placed : List NodeId} {root : Option NodeId}
    {authored : List NodeTemplate} {e : TreeError}
    (h : buildNodes registry known root placed authored = .error e) :
    (∃ a ∈ authored, buildNode registry known root a = .error e) ∨
      ∃ id, e = .sharedNode id ∧ 2 ≤ (placed ++ authored.flatMap (·.children)).count id := by
  induction authored generalizing placed with
  | nil => cases h
  | cons a authored ih =>
    rw [List.flatMap_cons]
    rcases bind_error_iff.mp h with hnode | ⟨n, -, h⟩
    · exact Or.inl ⟨a, List.mem_cons_self, hnode⟩
    rcases bind_error_iff.mp h with hplaced | ⟨placed', hplaced, h⟩
    · obtain ⟨id, rfl, htwice⟩ := placeChildren_error hplaced
      refine Or.inr ⟨id, rfl, htwice.trans ?_⟩
      rw [← List.append_assoc]
      exact (List.sublist_append_left (placed ++ a.children) _).count_le id
    rcases bind_error_iff.mp h with hrest | ⟨ns, -, h⟩
    · obtain ⟨-, -, rfl⟩ := placeChildren_ok_iff.mp hplaced
      rcases ih hrest with ⟨b, hb, hnode⟩ | ⟨id, rfl, htwice⟩
      · exact Or.inl ⟨b, List.mem_cons_of_mem a hb, hnode⟩
      -- The children of this node have only changed places with those before them.
      · refine Or.inr ⟨id, rfl, htwice.trans_eq ?_⟩
        simp only [List.count_append, List.count_reverse]
        omega
    · cases h

/-! ### All of them -/

section Check

variable {visit visit' : List NodeId → List NodeId} {t : TreeTemplate} {root : Option NodeId}
  {e : TreeError}

theorem findRoot_all_ok_iff :
    findRoot [] none t.nodes = .ok root ↔ t.guids.Nodup ∧ t.rootGuids = root.toList := by
  rw [findRoot_ok_iff]
  simp [guids, rootGuids]

theorem findRoot_all_error (registry : Registry H) (h : findRoot [] none t.nodes = .error e) :
    e.Holds registry t ∧ e.OfIdentities := by
  have hnone : ∀ r ∈ (none : Option NodeId), r ∈ [] := fun r hr => absurd hr (Option.not_mem_none r)
  rcases findRoot_error hnone h with ⟨id, rfl, htwice⟩ | ⟨f, s, later, rfl, hne, hroots⟩
  · exact ⟨htwice, Or.inl ⟨id, rfl⟩⟩
  · exact ⟨⟨later, hroots, hne⟩, Or.inr ⟨f, s, rfl⟩⟩

/-- Without a node that lists itself, what leads back to a node goes through another one. -/
theorem loops_of_leads (hown : ∀ a ∈ t.nodes, a.guid ∉ a.children) {id : NodeId}
    (h : TransGen t.Lists id id) : t.Loops id := by
  obtain ⟨other, hlists, hback⟩ := TransGen.head'_iff.mp h
  have hne : other ≠ id := by
    rintro rfl
    obtain ⟨a, ha, rfl, hmem⟩ := hlists
    exact hown a ha hmem
  rcases reflTransGen_iff_eq_or_transGen.mp hback with heq | hback
  · exact absurd heq.symm hne
  · exact ⟨other, hne, .single hlists, hback⟩

theorem Loops.leads {id : NodeId} (h : t.Loops id) : TransGen t.Lists id id := by
  obtain ⟨other, -, hto, hback⟩ := h
  exact hto.trans hback

/-- All faults that a template can have, but for loops through several nodes, are among those that
it is then free of. -/
theorem FaultFree.loops (h : t.FaultFree registry) (he : e.Holds registry t) :
    ∃ id, e = .cycle id ∧ t.Loops id := by
  cases e with
  | unknownNodeKind kind =>
    obtain ⟨a, ha, rfl, hnotRoot, hunknown⟩ := he
    have hknown := h.registered a ha hnotRoot
    rw [hunknown] at hknown
    cases hknown
  | duplicateNode node =>
    have hle := List.nodup_iff_count_le_one.mp h.distinct node
    exact absurd (le_trans he hle) (by decide)
  | multipleRoots first second =>
    obtain ⟨later, hroots, -⟩ := he
    have hlength := congrArg List.length hroots
    rw [rootGuids, List.length_map, List.length_cons, List.length_cons] at hlength
    have hle := h.oneRoot
    omega
  | missingChild parent child =>
    obtain ⟨⟨a, ha, rfl, hmem⟩, hmissing⟩ := he
    exact absurd (h.present a ha child hmem) hmissing
  | childrenOnLeaf node type =>
    obtain ⟨a, ha, rfl, htype, hshape, hchildren⟩ := he
    have hcount := h.counts a ha type htype
    rw [hshape] at hcount
    exact absurd (List.eq_nil_of_length_eq_zero hcount) hchildren
  | tooManyChildren node type count =>
    obtain ⟨a, ha, rfl, htype, hshape, rfl, hmany⟩ := he
    have hcount := h.counts a ha type htype
    rw [hshape] at hcount
    exact absurd hmany (Nat.not_lt.mpr hcount)
  | sharedNode node =>
    have hle := List.nodup_iff_count_le_one.mp h.once node
    exact absurd (le_trans he hle) (by decide)
  | cycle node =>
    rcases he with ⟨hroot, p, a, ha, rfl, hmem⟩ | hcycle
    · obtain ⟨r, hr, hisRoot, rfl⟩ := mem_rootGuids.mp hroot
      exact absurd hmem (h.rootFree r hr hisRoot a ha)
    · exact ⟨node, rfl, loops_of_leads h.notOwn hcycle⟩

/-- What the search for loops finds is on one. -/
theorem leads_of_findLoop? {starts : List NodeId} {id : NodeId}
    (h : findLoop? t.links starts = some id) : TransGen t.Lists id id := by
  unfold findLoop? at h
  have hclimbs := List.find?_some h
  exact TransGen.mono (fun p c => mem_links_iff.mp) id id (leads_of_climbsTo hclimbs)

/-- The first pass fails for identities, before anything else is looked at. -/
theorem check_of_findRoot_error (h : findRoot [] none t.nodes = .error e) :
    t.check visit registry = .error e :=
  bind_error_iff.mpr (Or.inl h)

theorem check_of_buildNodes_error (hroot : findRoot [] none t.nodes = .ok root)
    (h : buildNodes registry t.guids root [] t.nodes = .error e) :
    t.check visit registry = .error e :=
  bind_error_iff.mpr (Or.inr ⟨root, hroot, bind_error_iff.mpr (Or.inl h)⟩)

/-- Where the first two passes go through, it is left to the search for loops. -/
theorem check_of_built (visit : List NodeId → List NodeId)
    (hroot : findRoot [] none t.nodes = .ok root) {nodes : List (Node H)}
    (hnodes : buildNodes registry t.guids root [] t.nodes = .ok nodes) :
    t.check visit registry = match findLoop? t.links (visit (t.links.map (·.1))) with
      | some id => .error (.cycle id)
      | none => .ok (nodes, root) := by
  unfold check
  rw [hroot]
  change (buildNodes registry t.guids root [] t.nodes >>= _) = _
  rw [hnodes]
  rfl

/-- The last pass fails at a loop, and does so where there is one. -/
theorem check_of_loops (hvisit : ∀ ids, (visit ids).Perm ids) (hfree : t.FaultFree registry)
    (hcyclic : ¬ ∀ id, ¬ TransGen t.Lists id id) (hroot : findRoot [] none t.nodes = .ok root)
    {nodes : List (Node H)} (hnodes : buildNodes registry t.guids root [] t.nodes = .ok nodes) :
    ∃ id, t.Loops id ∧ t.check visit registry = .error (.cycle id) := by
  have hrun := check_of_built visit hroot hnodes
  cases hloop : findLoop? t.links (visit (t.links.map (·.1))) with
  | none =>
    rw [hloop] at hrun
    obtain ⟨-, -, -, hacyclic⟩ := (check_ok_iff hvisit).mp hrun
    exact absurd hacyclic hcyclic
  | some id =>
    rw [hloop] at hrun
    exact ⟨id, loops_of_leads hfree.notOwn (leads_of_findLoop? hloop), hrun⟩

/-- A template is refused in every order for one fault that is seen without climbing, or accepted in
every order, or has no faults but loops, one of which is told of. -/
theorem check_cases (registry : Registry H) (t : TreeTemplate) :
    (∃ e, e.Holds registry t ∧ e.Direct t ∧ ∀ visit, t.check visit registry = .error e) ∨
      (∃ r, ∀ visit, (∀ ids, (visit ids).Perm ids) → t.check visit registry = .ok r) ∨
      t.FaultFree registry ∧ ∀ visit, (∀ ids, (visit ids).Perm ids) →
        ∃ id, t.Loops id ∧ t.check visit registry = .error (.cycle id) := by
  cases hroot : findRoot [] none t.nodes with
  | error e =>
    obtain ⟨hholds, hidentities⟩ := findRoot_all_error registry hroot
    exact Or.inl ⟨e, hholds, hidentities.direct, fun visit => check_of_findRoot_error hroot⟩
  | ok root =>
    obtain ⟨hdistinct, hroots⟩ := findRoot_all_ok_iff.mp hroot
    cases hnodes : buildNodes registry t.guids root [] t.nodes with
    | error e =>
      have hlisted : ∀ r ∈ root, r ∈ t.rootGuids := fun r hr => hroots ▸ Option.mem_toList.mpr hr
      have hfault : e.Holds registry t ∧ e.Direct t := by
        rcases buildNodes_error hnodes with ⟨a, ha, hnode⟩ | ⟨id, rfl, htwice⟩
        · exact buildNode_error hlisted ha hnode
        · exact ⟨htwice, nofun⟩
      exact Or.inl ⟨e, hfault.1, hfault.2, fun visit => check_of_buildNodes_error hroot hnodes⟩
    | ok nodes =>
      have hfree := faultFree_of_built hdistinct hroots hnodes
      right
      by_cases hacyclic : ∀ id, ¬ TransGen t.Lists id id
      · exact Or.inl ⟨(nodes, root), fun visit hvisit =>
          (check_ok_iff hvisit).mpr ⟨hdistinct, hroots, hnodes, hacyclic⟩⟩
      · exact Or.inr ⟨hfree, fun visit hvisit =>
          check_of_loops hvisit hfree hacyclic hroot hnodes⟩

/-- What a template is refused for is true of it, and a loop through several nodes is the only kind
of fault that it then has. -/
theorem holds_of_check (hvisit : ∀ ids, (visit ids).Perm ids)
    (h : t.check visit registry = .error e) : e.Holds registry t ∧
      (e.Direct t ∨ ∃ id, e = .cycle id ∧ t.Loops id ∧ t.FaultFree registry) := by
  rcases check_cases registry t with ⟨e', hholds, hdirect, hfails⟩ | ⟨r, haccepts⟩ | ⟨hfree, hloops⟩
  · obtain rfl := Except.error.inj (h.symm.trans (hfails visit))
    exact ⟨hholds, Or.inl hdirect⟩
  · cases h.symm.trans (haccepts visit hvisit)
  · obtain ⟨id, hloop, hfails⟩ := hloops visit hvisit
    obtain rfl := Except.error.inj (h.symm.trans hfails)
    exact ⟨Or.inr hloop.leads, Or.inr ⟨id, rfl, hloop, hfree⟩⟩

/-- With an identity used twice or a second root, nothing else is told of. -/
theorem check_of_identities (registry : Registry H)
    (h : ¬ t.guids.Nodup ∨ 2 ≤ t.rootGuids.length) :
    ∃ e, t.check visit registry = .error e ∧ e.OfIdentities := by
  cases hroot : findRoot [] none t.nodes with
  | error e =>
    exact ⟨e, check_of_findRoot_error hroot, (findRoot_all_error registry hroot).2⟩
  | ok root =>
    obtain ⟨hdistinct, hroots⟩ := findRoot_all_ok_iff.mp hroot
    have hlength := congrArg List.length hroots
    have hle : root.toList.length ≤ 1 := by cases root <;> simp
    rcases h with h | h
    · exact absurd hdistinct h
    · omega

end Check

end TreeTemplate

section Tree

variable {visit visit' : List NodeId → List NodeId} {a : TreeTemplate}

theorem Tree.ofTemplateVia_of_error {e : TreeError} (h : a.check visit registry = .error e)
    (supply : IdSupply) : ofTemplateVia visit registry a supply = (.error e, supply) := by
  unfold ofTemplateVia
  rw [h]
  rfl

theorem Tree.ofTemplateVia_error_iff {e : TreeError} {supply : IdSupply} :
    (ofTemplateVia visit registry a supply).1 = .error e ↔ a.check visit registry = .error e := by
  constructor
  · intro h
    cases hcheck : a.check visit registry with
    | error e' =>
      rw [ofTemplateVia_of_error hcheck] at h
      exact congrArg Except.error (Except.error.inj h)
    | ok r =>
      obtain ⟨t, ht⟩ := ofTemplateVia_isOk_iff.mpr ⟨r, hcheck⟩
      cases h.symm.trans ht
  · exact fun h => congrArg Prod.fst (ofTemplateVia_of_error h supply)

/-- What a template is refused for is a fault that it has. Identities used twice and second roots
are told of before anything else, and a loop through several nodes only where there is no other
fault. In any other order that children are searched for loops in, the outcome is the same, except
that another node of such a loop may be told of. -/
theorem template_errors_true (hvisit : ∀ ids, (visit ids).Perm ids)
    (hvisit' : ∀ ids, (visit' ids).Perm ids)
    (registry : Registry H) (a : TreeTemplate) (supply : IdSupply) :
    (∀ e, (Tree.ofTemplateVia visit registry a supply).1 = .error e → e.Holds registry a) ∧
      (¬ a.guids.Nodup ∨ 2 ≤ a.rootGuids.length →
        ∃ e, (Tree.ofTemplateVia visit registry a supply).1 = .error e ∧ e.OfIdentities) ∧
      (∀ id, (Tree.ofTemplateVia visit registry a supply).1 = .error (.cycle id) →
        a.RootListed id ∨ a.Lists id id ∨
          a.Loops id ∧ ∀ e : TreeError, e.Holds registry a →
            ∃ other, e = .cycle other ∧ a.Loops other) ∧
      (Tree.ofTemplateVia visit registry a supply = Tree.ofTemplateVia visit' registry a supply ∨
        ∃ id id', a.Loops id ∧ a.Loops id' ∧
          Tree.ofTemplateVia visit registry a supply = (.error (.cycle id), supply) ∧
          Tree.ofTemplateVia visit' registry a supply = (.error (.cycle id'), supply)) := by
  refine ⟨fun e h => ?_, fun h => ?_, fun id h => ?_, ?_⟩
  · exact (TreeTemplate.holds_of_check hvisit (Tree.ofTemplateVia_error_iff.mp h)).1
  · obtain ⟨e, hfails, hidentities⟩ := TreeTemplate.check_of_identities registry h
    exact ⟨e, Tree.ofTemplateVia_error_iff.mpr hfails, hidentities⟩
  · have hcheck := Tree.ofTemplateVia_error_iff.mp h
    rcases (TreeTemplate.holds_of_check hvisit hcheck).2 with hdirect | ⟨_, ⟨⟩, hloop, hfree⟩
    · exact (hdirect id rfl).imp_right Or.inl
    · exact Or.inr (Or.inr ⟨hloop, fun e he => hfree.loops he⟩)
  · rcases TreeTemplate.check_cases registry a with
      ⟨e, -, -, hfails⟩ | ⟨r, haccepts⟩ | ⟨-, hloops⟩
    · left
      rw [Tree.ofTemplateVia_of_error (hfails visit), Tree.ofTemplateVia_of_error (hfails visit')]
    · left
      unfold Tree.ofTemplateVia
      rw [haccepts visit hvisit, haccepts visit' hvisit']
    · obtain ⟨id, hloop, hfails⟩ := hloops visit hvisit
      obtain ⟨id', hloop', hfails'⟩ := hloops visit' hvisit'
      exact Or.inr ⟨id, id', hloop, hloop', Tree.ofTemplateVia_of_error hfails supply,
        Tree.ofTemplateVia_of_error hfails' supply⟩

/-- Two loops beside a root: a loop of two nodes, and one of three. -/
def Demo.ringed : TreeTemplate where
  nodes := [⟨.ofNat 1, "Root", none, false, .zero, []⟩,
    ⟨.ofNat 2, "Repeat", none, false, .zero, [.ofNat 3]⟩,
    ⟨.ofNat 3, "Repeat", none, false, .zero, [.ofNat 2]⟩,
    ⟨.ofNat 4, "Sequence", some "patrol", false, .zero, [.ofNat 5]⟩,
    ⟨.ofNat 5, "Selector", none, true, .zero, [.ofNat 6]⟩,
    ⟨.ofNat 6, "Repeat", none, false, .zero, [.ofNat 4]⟩]

/-- A reading of the rings, with the children searched in an order. -/
def Demo.ringsVia (visit : List NodeId → List NodeId) :
    Except TreeError (Tree Demo.smallHost) × IdSupply :=
  Tree.ofTemplateVia visit .builtin Demo.ringed Demo.counted

theorem template_errors_true_ringed :
    Demo.ringsVia id = (.error (.cycle (.ofNat 3)), Demo.counted) ∧
      Demo.ringsVia List.reverse = (.error (.cycle (.ofNat 4)), Demo.counted) ∧
      Demo.ringed.Loops (.ofNat 3) ∧ Demo.ringed.Loops (.ofNat 4) ∧
      ∀ e : TreeError, e.Holds (Registry.builtin : Registry Demo.smallHost) Demo.ringed →
        ∃ other, e = .cycle other ∧ Demo.ringed.Loops other := by
  have hfirst : Demo.ringsVia id = (.error (.cycle (.ofNat 3)), Demo.counted) := rfl
  have hlast : Demo.ringsVia List.reverse = (.error (.cycle (.ofNat 4)), Demo.counted) := rfl
  obtain ⟨-, -, hcycle, horder⟩ := template_errors_true (fun ids => .refl ids) List.reverse_perm
    (Registry.builtin : Registry Demo.smallHost) Demo.ringed Demo.counted
  -- The node that is told of first is neither the root nor a child of its own.
  have hroot : ¬ Demo.ringed.RootListed (.ofNat 3) := by
    rintro ⟨hmem, -⟩
    revert hmem
    decide
  have hown : ¬ Demo.ringed.Lists (.ofNat 3) (.ofNat 3) := by
    unfold TreeTemplate.Lists
    decide
  obtain ⟨-, honly⟩ := ((hcycle _ (congrArg Prod.fst hfirst)).resolve_left hroot).resolve_left hown
  rcases horder with hsame | ⟨id, id', hloop, hloop', hrun, hrun'⟩
  · cases hfirst.symm.trans (Eq.trans hsame hlast)
  · obtain rfl : NodeId.ofNat 3 = id := by cases hfirst.symm.trans hrun; rfl
    obtain rfl : NodeId.ofNat 4 = id' := by cases hlast.symm.trans hrun'; rfl
    exact ⟨hfirst, hlast, hloop, hloop', honly⟩

end Tree

end BehaviourTree
