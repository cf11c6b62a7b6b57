import BehaviourTree.Proofs.Mirror
import Mathlib.Data.List.FinRange
import Mathlib.Data.List.Nodup

/-!
Composites and kinds of nodes do to the trees on a stage what they do to nested ones.
-/

namespace BehaviourTree

open Ticking

variable {H : Host} {Child : Type} {levels : Nat} {path : List NodeId}

/-! ### Positions and identifiers -/

theorem childrenAt_eq (name : Child → NodeId) (cs : List Child) (positions : List Nat) :
    childrenAt name cs positions = positions.filterMap ((cs.map name)[·]?) := by
  simp only [childrenAt, List.getElem?_map]

/-- Every child is at a position. -/
theorem childrenAt_range (name : Child → NodeId) (cs : List Child) :
    cs.map name = childrenAt name cs (List.range cs.length) := by
  rw [childrenAt, ← List.map_coe_finRange_eq_range, List.filterMap_map]
  have hsome : ((fun i => cs[i]?.map name) ∘ fun i : Fin cs.length => i.val) =
      some ∘ fun i => name cs[i] := by
    funext i
    simp
  rw [hsome, List.filterMap_eq_map]
  calc
    cs.map name = ((List.finRange cs.length).map cs.get).map name := by rw [List.map_get_finRange]
    _ = (List.finRange cs.length).map fun i => name cs[i] := by rw [List.map_map]; rfl

/-- With different identifiers, positions are told apart by the children there. -/
theorem mem_childrenAt {name : Child → NodeId} {cs : List Child} (hnodup : (cs.map name).Nodup)
    {positions : List Nat} {i : Nat} (hi : i < cs.length) :
    name cs[i] ∈ childrenAt name cs positions ↔ i ∈ positions := by
  rw [childrenAt, List.mem_filterMap]
  constructor
  · rintro ⟨j, hj, hname⟩
    obtain ⟨c, hc, hsame⟩ := Option.map_eq_some_iff.mp hname
    obtain ⟨hlt, rfl⟩ := List.getElem?_eq_some_iff.mp hc
    -- Two positions with the same name would be a name that occurs twice.
    have hat : (cs.map name)[j]? = (cs.map name)[i]? := by simpa [hi, hlt] using hsame
    rwa [← (List.getElem?_inj (by simpa using hlt) hnodup).mp hat]
  · intro hmem
    exact ⟨i, hmem, by simp [hi]⟩

theorem collectGuards_eq (flagged : NodeId → Bool) {children : List NodeId} (guards : List NodeId)
    (hnodup : children.Nodup) : collectGuards flagged children guards =
      guards ++ children.filter fun c => flagged c && !guards.contains c := by
  induction children generalizing guards with
  | nil => simp [collectGuards]
  | cons c children ih =>
    obtain ⟨hc, hnodup⟩ := List.nodup_cons.mp hnodup
    have hstep : collectGuards flagged (c :: children) guards = collectGuards flagged children
        (if flagged c && !guards.contains c then guards ++ [c] else guards) := rfl
    rw [hstep, ih _ hnodup]
    by_cases hflag : (flagged c && !guards.contains c) = true
    · rw [if_pos hflag, List.filter_cons, if_pos hflag, List.append_assoc, List.singleton_append]
      congr 2
      -- The guard that was just added is none of the children to come.
      apply List.filter_congr
      intro d hd
      have hne : d ≠ c := fun h => hc (h ▸ hd)
      simp [hne]
    · rw [if_neg hflag, List.filter_cons, if_neg hflag]

/-- Collecting guards by identifier finds the children that collecting by position finds. -/
theorem collectGuards_flat {name : Child → NodeId} {flagged : NodeId → Bool} {flag : Child → Bool}
    {s : NestedSeries Child} (hnodup : (s.children.map name).Nodup)
    (hflag : ∀ c ∈ s.children, flagged (name c) = flag c) :
    (s.flat name).enter flagged = (s.enter flag).flat name := by
  have hguards : collectGuards flagged (s.children.map name)
      (childrenAt name s.children s.guards) = childrenAt name s.children (s.enter flag).guards := by
    rw [collectGuards_eq flagged _ hnodup, NestedSeries.enter, childrenAt, childrenAt,
      List.filterMap_append]
    -- The guards there already are the same; those that are added are compared by position.
    congr 1
    conv_lhs => rw [childrenAt_range name s.children]
    rw [childrenAt, List.filter_filterMap, List.filterMap_filter]
    apply List.filterMap_congr
    intro i hi
    have hlt : i < s.children.length := List.mem_range.mp hi
    have hsame : (childrenAt name s.children s.guards).contains (name s.children[i]) =
        s.guards.contains i := by
      rw [Bool.eq_iff_iff, List.contains_iff_mem, List.contains_iff_mem, mem_childrenAt hnodup hlt]
    rw [childrenAt] at hsame
    simp only [List.getElem?_eq_getElem hlt, Option.map_some, Option.filter_some, Option.any_some,
      hflag _ (List.getElem_mem hlt), hsame]
  unfold Series.enter NestedSeries.flat
  exact congrArg (Series.mk _ · 0) hguards

/-! ### Children -/

/-- Trees with the same identifiers have the same names. -/
theorem map_id_eq {trees trees' : List (Nested H levels)}
    (h : trees'.map Nested.ids = trees.map Nested.ids) :
    trees'.map Nested.id = trees.map Nested.id := by
  have hname (trees : List (Nested H levels)) :
      (trees.map Nested.ids).filterMap List.head? = trees.map Nested.id := by
    cases levels with
    | zero => cases trees with
      | nil => rfl
      | cons N _ => exact Empty.elim N
    | succ levels =>
      rw [List.filterMap_map, ← List.filterMap_eq_map]
      rfl
  rw [← hname, ← hname, h]

/-- Asking for the update of any tree on the stage does to it there what updating it does. -/
def AsksFor (path : List NodeId) (ask : NodeId → Ticking H Status)
    (ask' : Nested H levels → Ticking H (Status × Nested H levels)) : Prop :=
  ∀ N, Mirrors path [N] (fun b => [b.2]) (fun a b => a = b.1) (ask N.id) (ask' N)

section Children

variable {ask : NodeId → Ticking H Status}
  {ask' : Nested H levels → Ticking H (Status × Nested H levels)} {cs : List (Nested H levels)}

theorem AsksFor.position (hask : AsksFor path ask ask') {i : Nat} {c : Nested H levels}
    (h : cs[i]? = some c) :
    Mirrors path cs (fun b => cs.set i b.2) (fun a b => a = b.1) (ask c.id) (ask' c) := by
  obtain ⟨hlt, rfl⟩ := List.getElem?_eq_some_iff.mp h
  -- The child is asked between the children before it and those after it.
  have hset (d : Nested H levels) : cs.set i d = cs.take i ++ [d] ++ cs.drop (i+1) := by
    rw [List.set_eq_take_append_cons_drop, if_pos hlt, List.append_assoc, List.singleton_append]
  have hbeside := (hask cs[i]).beside (cs.take i) (cs.drop (i+1))
  rw [← hset, List.set_getElem_self] at hbeside
  simpa only [hset] using hbeside

theorem childrenAt_congr {cs' : List (Nested H levels)}
    (h : cs'.map Nested.ids = cs.map Nested.ids) (positions : List Nat) :
    childrenAt Nested.id cs' positions = childrenAt Nested.id cs positions := by
  rw [childrenAt_eq, childrenAt_eq, map_id_eq h]

theorem poll_mirrors (hask : AsksFor path ask ask') (guards : List Nat)
    (cs : List (Nested H levels)) :
    Mirrors path cs Prod.snd (fun a b => a = b.1) (pollGuards ask (childrenAt Nested.id cs guards))
      (NestedSeries.poll Nested.id ask' guards cs) := by
  induction guards generalizing cs with
  | nil => exact mirrors_pure rfl rfl
  | cons g guards ih =>
    cases h : cs[g]? with
    | none =>
      have hskip : childrenAt Nested.id cs (g :: guards) = childrenAt Nested.id cs guards := by
        simp [childrenAt, h]
      rw [hskip, NestedSeries.poll, h]
      exact ih cs
    | some c =>
      have hnext : childrenAt Nested.id cs (g :: guards) =
          c.id :: childrenAt Nested.id cs guards := by
        simp [childrenAt, h]
      rw [hnext, NestedSeries.poll, h]
      refine (hask.position h).bind ?_
      rintro answer ⟨_, c'⟩ rfl hids
      cases answer with
      | success =>
        rw [← childrenAt_congr hids]
        exact ih _
      | fail => exact mirrors_pure rfl rfl
      | running =>
        -- The child that is named in the warning is the one that was asked.
        have hname : c'.id = c.id := by
          have hat := congrArg (·[g]?) (map_id_eq hids)
          obtain ⟨hlt, hc⟩ := List.getElem?_eq_some_iff.mp h
          simpa [hlt, hc] using hat
        simp only [hname]
        exact (mirrors_warn (by nofun)).bind fun _ _ _ _ => mirrors_pure rfl rfl

/-- The children of a series may change as long as their identifiers stay. -/
theorem NestedSeries.flat_congr {cs' : List (Nested H levels)}
    (h : cs'.map Nested.ids = cs.map Nested.ids) (guards : List Nat) (current : Nat) :
    NestedSeries.flat Nested.id ⟨cs', guards, current⟩ =
      NestedSeries.flat Nested.id ⟨cs, guards, current⟩ := by
  unfold NestedSeries.flat
  simp only [map_id_eq h, childrenAt_congr h]

theorem advance_mirrors (hask : AsksFor path ask ask') (pass : Status)
    (s : NestedSeries (Nested H levels)) :
    Mirrors path s.children (·.2.children) (fun a b => a = (b.1, b.2.flat Nested.id))
      ((s.flat Nested.id).advance ask pass) (s.advance ask' pass) := by
  obtain ⟨cs, guards, current⟩ := s
  cases h : cs[current]? with
  | none =>
    have hnone : (cs.map Nested.id)[current]? = none := by simp [h]
    simp only [Series.advance, NestedSeries.advance, NestedSeries.flat, hnone, h]
    exact mirrors_pure rfl rfl
  | some c =>
    have hsome : (cs.map Nested.id)[current]? = some c.id := by simp [h]
    simp only [Series.advance, NestedSeries.advance, NestedSeries.flat, hsome, h]
    refine (hask.position h).bind ?_
    rintro answer ⟨_, c'⟩ rfl hids
    simp only [List.length_map, List.length_set]
    by_cases hpass : answer = pass
    · rw [if_pos hpass, if_pos hpass]
      refine mirrors_pure rfl (Prod.ext rfl ?_)
      exact (NestedSeries.flat_congr hids guards (current+1)).symm
    · rw [if_neg hpass, if_neg hpass]
      refine mirrors_pure rfl (Prod.ext rfl ?_)
      exact (NestedSeries.flat_congr hids guards current).symm

theorem series_mirrors (hask : AsksFor path ask ask') (pass : Status) {empty : Warning}
    (hempty : ∀ child, empty ≠ .unresolved child) (s : NestedSeries (Nested H levels)) :
    Mirrors path s.children (·.2.children) (fun a b => a = (b.1, b.2.flat Nested.id))
      ((s.flat Nested.id).update ask pass empty) (s.update Nested.id ask' pass empty) := by
  have hsame : (s.flat Nested.id).children.isEmpty = s.children.isEmpty := List.isEmpty_map
  unfold Series.update NestedSeries.update
  rw [hsame]
  split
  · exact (mirrors_warn hempty).bind fun _ _ _ _ => mirrors_pure rfl rfl
  · refine (poll_mirrors hask s.guards s.children).bind ?_
    rintro holds ⟨_, cs⟩ rfl hids
    have hflat : s.flat Nested.id = NestedSeries.flat Nested.id { s with children := cs } :=
      (NestedSeries.flat_congr hids s.guards s.current).symm
    rw [hflat]
    cases holds with
    | true => exact advance_mirrors hask pass { s with children := cs }
    | false => exact mirrors_pure rfl rfl

theorem askAll_mirrors (hask : AsksFor path ask ask') (cs : List (Nested H levels))
    (result : Status) :
    Mirrors path cs Prod.snd (fun a b => a = b.1) (updateAll ask (cs.map Nested.id) result)
      (askAll ask' cs result) := by
  induction cs generalizing result with
  | nil => exact mirrors_pure rfl rfl
  | cons c cs ih =>
    refine ((hask c).beside [] cs).bind ?_
    rintro answer ⟨_, c'⟩ rfl _
    -- The children still to come are updated beside the one that has answered.
    have hrest (result : Status) : Mirrors path (c' :: cs) Prod.snd (fun a b => a = b.1)
        (updateAll ask (cs.map Nested.id) result)
        (askAll ask' cs result >>= fun b => pure (b.1, c' :: b.2)) := by
      have hbeside := (ih result).beside [c'] []
      simp only [List.append_nil, List.singleton_append] at hbeside
      exact hbeside.map (fun _ => rfl) fun _ _ h => h
    cases answer with
    | success => exact hrest result
    | running => exact hrest .running
    | fail => exact mirrors_pure rfl rfl

/-! ### Nodes -/

namespace NestedKind

theorem enter_mirrors (context : LeafContext) {flagged : NodeId → Bool}
    {k : NestedKind H (Nested H levels)} (hnodup : (k.children.map Nested.id).Nodup)
    (hflag : ∀ c ∈ k.children, flagged c.id = c.alwaysCheck) :
    Mirrors path k.children children (fun a b => a = b.flat Nested.id)
      ((k.flat Nested.id).enter context flagged) (k.enter context Nested.alwaysCheck) := by
  cases k with
  | action a =>
    refine (mirrors_leaf _ _ _).bind ?_
    rintro ⟨_, a⟩ _ rfl _
    exact mirrors_pure rfl rfl
  | sequence s =>
    exact mirrors_pure rfl (congrArg NodeKind.sequence (collectGuards_flat hnodup hflag))
  | selector s =>
    exact mirrors_pure rfl (congrArg NodeKind.selector (collectGuards_flat hnodup hflag))
  | randomChoice cs selected =>
    -- One draw picks a link there and a position here.
    have hpick : Mirrors path cs (fun _ => cs) (fun a b => a = b.bind (cs[·]?.map Nested.id))
        (pickChild (cs.map Nested.id)) (pickPosition cs.length) := by
      unfold pickChild pickPosition
      have hsame : (cs.map Nested.id).isEmpty = decide (cs.length = 0) := by
        cases cs <;> simp
      simp only [hsame, decide_eq_true_eq]
      split
      · exact (mirrors_warn (by nofun)).bind fun _ _ _ _ => mirrors_pure rfl rfl
      · refine mirrors_draw32.bind ?_
        rintro w _ rfl _
        exact mirrors_pure rfl (by simp)
    refine hpick.bind ?_
    rintro _ b rfl _
    exact mirrors_pure rfl rfl
  | root _ | condition _ | repeater _ | parallel _ => exact mirrors_pure rfl rfl

theorem settle_mirrors (context : LeafContext) (status : Status)
    (k : NestedKind H (Nested H levels)) :
    Mirrors path k.children children (fun a b => a = b.flat Nested.id)
      ((k.flat Nested.id).settle context status) (k.settle context status) := by
  unfold NodeKind.settle
  cases k with
  | action a =>
    unfold settle
    split
    · refine (mirrors_leaf _ _ _).bind ?_
      rintro ⟨_, a⟩ _ rfl _
      exact mirrors_pure rfl rfl
    · exact mirrors_pure rfl rfl
  | root _ | condition _ | repeater _ | sequence _ | selector _ | parallel _ | randomChoice _ _ =>
    split
    · exact mirrors_pure rfl rfl
    · exact mirrors_pure rfl rfl

theorem update_mirrors (hask : AsksFor path ask ask') (context : LeafContext)
    (k : NestedKind H (Nested H levels)) :
    Mirrors path k.children (·.2.children) (fun a b => a = (b.1, b.2.flat Nested.id))
      ((k.flat Nested.id).update context ask) (k.update context Nested.id ask') := by
  cases k with
  | root child =>
    cases child with
    | none => exact (mirrors_warn (by nofun)).bind fun _ _ _ _ => mirrors_pure rfl rfl
    | some c =>
      refine (hask c).bind ?_
      rintro answer ⟨_, c'⟩ rfl hids
      have hid : c'.id = c.id := by simpa using map_id_eq hids
      exact mirrors_pure rfl (by simp [flat, hid])
  | action a =>
    refine (mirrors_leaf _ _ _).bind ?_
    rintro ⟨status, a⟩ _ rfl _
    exact mirrors_pure rfl rfl
  | condition c =>
    refine (mirrors_leaf _ _ _).bind ?_
    rintro ⟨holds, c⟩ _ rfl _
    exact mirrors_pure rfl rfl
  | repeater child =>
    cases child with
    | none => exact (mirrors_warn (by nofun)).bind fun _ _ _ _ => mirrors_pure rfl rfl
    | some c =>
      refine (hask c).bind ?_
      rintro answer ⟨_, c'⟩ rfl hids
      have hid : c'.id = c.id := by simpa using map_id_eq hids
      exact mirrors_pure rfl (by simp [flat, hid])
  | sequence s =>
    refine (series_mirrors hask .success (by nofun) s).bind ?_
    rintro _ ⟨status, s'⟩ rfl _
    exact mirrors_pure rfl rfl
  | selector s =>
    refine (series_mirrors hask .fail (by nofun) s).bind ?_
    rintro _ ⟨status, s'⟩ rfl _
    exact mirrors_pure rfl rfl
  | parallel cs =>
    refine (askAll_mirrors hask cs .success).bind ?_
    rintro status ⟨_, cs'⟩ rfl hids
    exact mirrors_pure rfl (by simp [flat, map_id_eq hids])
  | randomChoice cs selected =>
    cases h : selected.bind fun i => cs[i]?.map (i, ·) with
    | none =>
      have hnone : selected.bind (cs[·]?.map Nested.id) = none := by
        cases selected with
        | none => rfl
        | some i => simpa using h
      have hflat : (randomChoice cs selected : NestedKind H (Nested H levels)).flat Nested.id =
          .randomChoice (cs.map Nested.id) none := by
        rw [flat, hnone]
      have hupdate : (randomChoice cs selected).update context Nested.id ask' =
          pure (.fail, randomChoice cs selected) := by
        simp only [update, h]
      rw [hflat, hupdate]
      exact mirrors_pure rfl (Prod.ext rfl hflat.symm)
    | some picked =>
      obtain ⟨i, hi, hat⟩ := Option.bind_eq_some_iff.mp h
      obtain ⟨c, hc, rfl⟩ := Option.map_eq_some_iff.mp hat
      have hflat (cs' : List (Nested H levels)) (hids : cs'.map Nested.ids = cs.map Nested.ids) :
          (randomChoice cs' selected : NestedKind H (Nested H levels)).flat Nested.id =
            .randomChoice (cs.map Nested.id) (some c.id) := by
        have hat : cs'[i]?.map Nested.id = cs[i]?.map Nested.id := by
          rw [← List.getElem?_map, ← List.getElem?_map, map_id_eq hids]
        simp only [flat, hi, Option.bind_some, hat, hc, map_id_eq hids, Option.map_some]
      have hupdate : (randomChoice cs selected).update context Nested.id ask' =
          ask' c >>= fun b => pure (b.1, randomChoice (cs.set i b.2) selected) := by
        simp only [update, h]
      rw [hflat cs rfl, hupdate]
      refine Mirrors.bind (hask.position (show cs[i]? = some c from hc)) ?_
      rintro answer ⟨_, c'⟩ rfl hids
      exact mirrors_pure rfl (Prod.ext rfl (hflat _ hids).symm)

end NestedKind

end Children

end BehaviourTree
