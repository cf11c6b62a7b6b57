import BehaviourTree.Sorting.Keys
import Mathlib.Data.List.Basic

/-!
Sorting rearranges, whatever the comparisons answer and also when it gives up: nothing is lost and
nothing is doubled.
-/

namespace BehaviourTree.Sorting

variable {α β γ : Type} {xs ys zs : List α} (less : α → α → Bool)

/-! ### Attempts -/

/-- Whatever comes of an attempt holds the elements `xs`, where `items` lists those of a result. -/
def Attempt.Keeps (items : β → List α) (xs : List α) : Attempt α β → Prop
  | .ok b => (items b).Perm xs
  | .error ys => ys.Perm xs

namespace Attempt

variable {m : Attempt α β} {f : β → List α} {g : γ → List α}

theorem Keeps.bind {k : β → Attempt α γ} (h : m.Keeps f xs)
    (hk : ∀ b, (f b).Perm xs → (k b).Keeps g xs) : Attempt.Keeps g xs (m >>= k) := by
  cases m with
  | ok b => exact hk b h
  | error _ => exact h

/-- A result and what is left of an attempt may be completed alike. -/
theorem Keeps.mapError {f' : β → List α} {complete : List α → List α} (h : m.Keeps f ys)
    (hok : ∀ b, (f b).Perm ys → (f' b).Perm xs)
    (herror : ∀ l, l.Perm ys → (complete l).Perm xs) :
    Attempt.Keeps f' xs (m.mapError complete) := by
  cases m with
  | ok b => exact hok b h
  | error l => exact herror l h

theorem Keeps.trans (h : m.Keeps f ys) (hperm : ys.Perm xs) : m.Keeps f xs := by
  cases m with
  | ok _ => exact List.Perm.trans h hperm
  | error _ => exact List.Perm.trans h hperm

/-- What comes of a part, sorted or not, is put among the rest. -/
theorem Keeps.within {m : Attempt α (List α)} {complete : List α → List α} (h : m.Keeps id ys)
    (hcomplete : ∀ l, l.Perm ys → (complete l).Perm xs) :
    Attempt.Keeps id xs ((Except.map complete m).mapError complete) := by
  cases m with
  | ok l => exact hcomplete l h
  | error l => exact hcomplete l h

theorem Keeps.perm {m : Attempt α (List α)} (h : m.Keeps id xs) : m.items.Perm xs := by
  cases m with
  | ok _ => exact h
  | error _ => exact h

end Attempt

/-! ### Short lists -/

theorem insertLast_perm (x : α) (xs : List α) : (insertLast less x xs).Perm (x :: xs) := by
  induction xs with
  | nil => exact .refl _
  | cons y xs ih =>
    unfold insertLast
    split
    · exact (ih.cons y).trans (.swap x y xs)
    · exact .refl _

theorem insertAll_perm (sorted xs : List α) : (insertAll less sorted xs).Perm (sorted ++ xs) := by
  -- What is sorted so far is kept with its last element first, so an insertion is at its front.
  have hfold (acc : List α) :
      (xs.foldl (fun s x => insertLast less x s) acc).Perm (acc ++ xs) := by
    induction xs generalizing acc with
    | nil => simp
    | cons x xs ih =>
      have hx : (insertLast less x acc ++ xs).Perm (acc ++ x :: xs) :=
        ((insertLast_perm less x acc).append_right xs).trans List.perm_middle.symm
      exact (ih (insertLast less x acc)).trans hx
  exact (List.reverse_perm _).trans ((hfold sorted.reverse).trans
    ((List.reverse_perm sorted).append_right xs))

theorem sortFour_perm (xs : List α) : (sortFour less xs).Perm xs := by
  classical
  unfold sortFour
  split
  · rw [List.perm_iff_count]
    intro x
    dsimp only
    (repeat' split) <;> simp only [List.count_cons, List.count_nil] <;> omega
  · exact .refl _

/-- What is taken off two fronts is a front of each. -/
theorem takeFronts_spec (fromFirst : α → α → Bool) (n : Nat) (xs ys : List α) :
    ∃ a b, (takeFronts fromFirst n xs ys).1.Perm (xs.take a ++ ys.take b) ∧
      (takeFronts fromFirst n xs ys).2.1 = xs.drop a ∧
      (takeFronts fromFirst n xs ys).2.2 = ys.drop b := by
  induction n generalizing xs ys with
  | zero => exact ⟨0, 0, by simp [takeFronts]⟩
  | succ n ih =>
    cases xs with
    | nil => exact ⟨0, 0, by simp [takeFronts]⟩
    | cons x xs =>
      cases ys with
      | nil => exact ⟨0, 0, by simp [takeFronts]⟩
      | cons y ys =>
        unfold takeFronts
        split
        -- Whichever list gives its first element, its front grows by one.
        · obtain ⟨a, b, hperm, hfst, hsnd⟩ := ih xs (y :: ys)
          exact ⟨a+1, b, hperm.cons x, hfst, hsnd⟩
        · obtain ⟨a, b, hperm, hfst, hsnd⟩ := ih (x :: xs) ys
          exact ⟨a, b+1, (hperm.cons y).trans List.perm_middle.symm, hfst, hsnd⟩

/-- A list is its front, its middle and its end. -/
theorem take_middle_end (xs : List α) {a b : Nat} (h : xs.length ≤ (xs.drop a).length+b) :
    xs.take a ++ (xs.drop a).take ((xs.drop a).length+b-xs.length) ++ xs.drop b = xs := by
  rw [List.length_drop] at h ⊢
  by_cases ha : a ≤ xs.length
  · have hab : a+(xs.length-a+b-xs.length) = b := by omega
    rw [← List.take_add, hab, List.take_append_drop]
  · have hb : xs.length ≤ b := by omega
    have ha' : xs.length ≤ a := by omega
    rw [List.take_of_length_le ha', List.drop_of_length_le ha', List.drop_of_length_le hb]
    simp

theorem reverse_take_reverse (xs : List α) (n : Nat) :
    (xs.reverse.take n).reverse = xs.drop (xs.reverse.drop n).length := by
  rw [List.take_reverse, List.reverse_reverse, List.length_drop, List.length_reverse]

theorem mergeEnds?_perm (h : mergeEnds? less xs ys = some zs) : zs.Perm (xs ++ ys) := by
  classical
  obtain ⟨a, b, hfront, hxs, hys⟩ := takeFronts_spec (fun x y => !less y x) xs.length xs ys
  obtain ⟨a', b', hback, hxs', hys'⟩ :=
    takeFronts_spec (fun x y => less y x) xs.length xs.reverse ys.reverse
  unfold mergeEnds? at h
  simp only [hxs, hys, hxs', hys'] at h
  split at h
  · next hlengths =>
    obtain rfl := Option.some.inj h
    -- Each list is what was taken off its front, its middle and what was taken off its end.
    rw [List.perm_iff_count] at hfront hback ⊢
    intro x
    have hx := congrArg (List.count x) (take_middle_end xs hlengths.1)
    have hy := congrArg (List.count x) (take_middle_end ys hlengths.2)
    rw [← reverse_take_reverse] at hx hy
    have hfront' := hfront x
    have hback' := hback x
    simp only [List.count_append, List.count_reverse] at hx hy hfront' hback' ⊢
    omega
  · simp at h

theorem sortHalf?_perm {n : Nat} (h : sortHalf? less n xs = some ys) : ys.Perm xs := by
  unfold sortHalf? at h
  have hpart (k : Nat) (l : List α) : (sortFour less (l.take k) ++ l.drop k).Perm l := by
    have hfront := (sortFour_perm less (l.take k)).append_right (l.drop k)
    rwa [List.take_append_drop] at hfront
  split at h
  -- Two fours are sorted and merged, and what comes after the eighth element is inserted.
  · obtain ⟨start, hstart, rfl⟩ := Option.map_eq_some_iff.mp h
    have hmerged := mergeEnds?_perm less hstart
    have hall := (insertAll_perm less start (xs.drop 8)).trans (hmerged.append_right (xs.drop 8))
    rw [List.append_assoc] at hall
    have hsecond := (hpart 4 (xs.drop 4)).append_left (sortFour less (xs.take 4))
    rw [List.drop_drop] at hsecond
    exact hall.trans (hsecond.trans (hpart 4 xs))
  · split at h
    · obtain rfl := Option.some.inj h
      exact (insertAll_perm less _ _).trans (hpart 4 xs)
    · obtain rfl := Option.some.inj h
      exact insertAll_perm less [] xs

theorem sortShort_keeps (xs : List α) : (sortShort less xs).Keeps id xs := by
  unfold sortShort
  dsimp only
  split
  · exact .refl xs
  · split
    -- If the halves cannot be merged they stay side by side.
    · next left right hleft hright =>
      have hhalves : (left ++ right).Perm xs := by
        have happend := (sortHalf?_perm less hleft).append (sortHalf?_perm less hright)
        rwa [List.take_append_drop] at happend
      split
      · next sorted hsorted => exact (mergeEnds?_perm less hsorted).trans hhalves
      · exact hhalves
    · exact .refl xs

/-! ### Runs -/

theorem mergeRuns_perm (xs ys : List α) : (mergeRuns less xs ys).Perm (xs ++ ys) := by
  unfold mergeRuns
  split
  · exact List.merge_perm_append _
  · calc
      _ = _ := rfl
      List.Perm _ (xs.reverse.merge ys.reverse fun x y => less y x) := List.reverse_perm _
      List.Perm _ (xs.reverse ++ ys.reverse) := List.merge_perm_append _
      List.Perm _ (xs ++ ys) := (List.reverse_perm xs).append (List.reverse_perm ys)

theorem takeRun_keeps (eager : Bool) (good : Nat) (xs : List α) :
    (takeRun less eager good xs).Keeps (fun r => r.1.items ++ r.2) xs := by
  unfold takeRun
  obtain ⟨n, down⟩ := startOrder less xs
  dsimp only
  split
  · cases down with
    | true =>
      have hfront := (List.reverse_perm (xs.take n)).append_right (xs.drop n)
      rwa [List.take_append_drop] at hfront
    | false => simp [Attempt.Keeps]
  · split
    · have hshort := sortShort_keeps less (xs.take shortLength)
      have hrest {l : List α} (hl : l.Perm (xs.take shortLength)) :
          (l ++ xs.drop shortLength).Perm xs := by
        have happend := hl.append_right (xs.drop shortLength)
        rwa [List.take_append_drop] at happend
      split
      · next sorted h => exact hrest (by rw [h] at hshort; exact hshort)
      · next stretch h => exact hrest (by rw [h] at hshort; exact hshort)
    · simp [Attempt.Keeps]

variable {sort : List α → Attempt α (List α)}

theorem Run.inOrder_keeps (hsort : ∀ l, (sort l).Keeps id l) (run : Run α) :
    (run.inOrder sort).Keeps id run.items := by
  unfold inOrder
  split
  · exact .refl _
  · exact hsort run.items

theorem joinRuns_keeps (hsort : ∀ l, (sort l).Keeps id l) (left right : Run α) :
    (joinRuns less sort left right).Keeps Run.items (left.items ++ right.items) := by
  unfold joinRuns
  split
  · exact .refl _
  -- While the left run is sorted the right one stays behind it, also where that gives up.
  · have hleft : Attempt.Keeps (· ++ right.items) (left.items ++ right.items)
        ((left.inOrder sort).mapError (· ++ right.items)) := by
      refine (left.inOrder_keeps hsort).mapError ?_ ?_
      · exact fun _ h => h.append_right right.items
      · exact fun _ h => h.append_right right.items
    refine hleft.bind fun xs hxs => ?_
    have hright : Attempt.Keeps (xs ++ ·) (left.items ++ right.items)
        ((right.inOrder sort).mapError (xs ++ ·)) := by
      refine (right.inOrder_keeps hsort).mapError ?_ ?_
      · exact fun _ h => (h.append_left xs).trans hxs
      · exact fun _ h => (h.append_left xs).trans hxs
    exact hright.bind fun ys hys => (mergeRuns_perm less xs ys).trans hys

theorem Waiting.items_cons (left : Run α) (d : Nat) (waiting : Waiting α) :
    Waiting.items ((left, d) :: waiting) = waiting.items ++ left.items := by
  simp [Waiting.items]

theorem joinDeep_keeps (hsort : ∀ l, (sort l).Keeps id l) (depth : Nat) (waiting : Waiting α)
    (run : Run α) : (joinDeep less sort depth waiting run).Keeps
      (fun r => r.1.items ++ r.2.items) (waiting.items ++ run.items) := by
  induction waiting generalizing run with
  | nil => exact .refl _
  | cons entry waiting ih =>
    obtain ⟨left, d⟩ := entry
    unfold joinDeep
    have hjoin := joinRuns_keeps less hsort left run
    have hitems : Waiting.items ((left, d) :: waiting) ++ run.items =
        Waiting.items waiting ++ (left.items ++ run.items) := by
      rw [Waiting.items_cons, List.append_assoc]
    split
    · rw [hitems]
      split
      · next joined h =>
        rw [h] at hjoin
        exact (ih joined).trans (List.Perm.append_left (Waiting.items waiting) hjoin)
      · next stretch h =>
        rw [h] at hjoin
        exact List.Perm.append_left (Waiting.items waiting) hjoin
    · exact .refl _

/-- With no depth left to wait for, everything is joined. -/
theorem joinDeep_zero {waiting : Waiting α} {run : Run α} {r : Waiting α × Run α}
    (h : joinDeep less sort 0 waiting run = .ok r) : r.1 = [] := by
  induction waiting generalizing run with
  | nil =>
    obtain rfl := Except.ok.inj h
    rfl
  | cons entry waiting ih =>
    obtain ⟨left, d⟩ := entry
    unfold joinDeep at h
    rw [if_pos (Nat.zero_le d)] at h
    split at h
    · exact ih h
    · simp at h

theorem joinAll_keeps (hsort : ∀ l, (sort l).Keeps id l) (eager : Bool) (n fuel : Nat)
    (waiting : Waiting α) (start : Nat) (run : Run α) (rest : List α) :
    (joinAll less sort eager n fuel waiting start run rest).Keeps id
      (waiting.items ++ run.items ++ rest) := by
  -- What is left over at the end is joined and comes before the rest.
  have hlast (waiting : Waiting α) (start : Nat) (run : Run α) (rest : List α) :
      Attempt.Keeps id (waiting.items ++ run.items ++ rest)
        (joinAll less sort eager n 0 waiting start run rest) := by
    unfold joinAll
    have hdeep := joinDeep_keeps less hsort 0 waiting run
    cases h : joinDeep less sort 0 waiting run with
    | error stretch =>
      rw [h] at hdeep
      exact hdeep.append_right rest
    | ok r =>
      obtain ⟨waiting', run'⟩ := r
      obtain rfl : waiting' = [] := joinDeep_zero less h
      rw [h] at hdeep
      have hrun : run'.items.Perm (waiting.items ++ run.items) := hdeep
      have horder : Attempt.Keeps (· ++ rest) (waiting.items ++ run.items ++ rest)
          ((run'.inOrder sort).mapError (· ++ rest)) := by
        refine (run'.inOrder_keeps hsort).mapError ?_ ?_
        · exact fun _ h => (h.trans hrun).append_right rest
        · exact fun _ h => (h.trans hrun).append_right rest
      exact horder.bind fun xs hxs => hxs
  induction fuel generalizing waiting start run rest with
  | zero => exact hlast waiting start run rest
  | succ fuel ih =>
    cases rest with
    | nil => exact hlast waiting start run []
    | cons x rest' =>
      unfold joinAll
      have htake : Attempt.Keeps (fun r => waiting.items ++ run.items ++ (r.1.items ++ r.2))
          (waiting.items ++ run.items ++ x :: rest')
          ((takeRun less eager (goodLength n) (x :: rest')).mapError
            (waiting.items ++ run.items ++ ·)) := by
        refine (takeRun_keeps less eager (goodLength n) (x :: rest')).mapError ?_ ?_
        · exact fun _ h => h.append_left _
        · exact fun _ h => h.append_left _
      refine htake.bind fun r hr => ?_
      obtain ⟨next, rest⟩ := r
      -- Runs that are deep enough are joined before the next one is put in line.
      have hdeep : Attempt.Keeps (fun r => r.1.items ++ r.2.items ++ next.items ++ rest)
          (waiting.items ++ run.items ++ next.items ++ rest)
          ((joinDeep less sort (jointDepth n start (start+run.items.length)
            (start+run.items.length+next.items.length)) waiting run).mapError
            (· ++ next.items ++ rest)) := by
        refine (joinDeep_keeps less hsort _ waiting run).mapError ?_ ?_
        · exact fun _ h => (h.append_right next.items).append_right rest
        · exact fun _ h => (h.append_right next.items).append_right rest
      have hreorder : (waiting.items ++ run.items ++ next.items ++ rest).Perm
          (waiting.items ++ run.items ++ x :: rest') := by
        rw [List.append_assoc]
        exact hr
      refine Attempt.Keeps.trans ?_ hreorder
      refine hdeep.bind fun r hr => ?_
      obtain ⟨waiting', run'⟩ := r
      have hrest := ih ((run', jointDepth n start (start+run.items.length)
        (start+run.items.length+next.items.length)) :: waiting') (start+run.items.length) next rest
      rw [Waiting.items_cons] at hrest
      exact hrest.trans hr

theorem sortRuns_keeps (hsort : ∀ l, (sort l).Keeps id l) (eager : Bool) (xs : List α) :
    (sortRuns less sort eager xs).Keeps id xs := by
  refine (takeRun_keeps less eager (goodLength xs.length) xs).bind fun r hr => ?_
  obtain ⟨run, rest⟩ := r
  exact (joinAll_keeps less hsort eager xs.length xs.length [] 0 run rest).trans hr

/-! ### Pivots -/

theorem splitAround_perm (test : α → Bool) (pivotFirst : Bool) (before : List α) (pivot : α)
    (after : List α) : ((splitAround test pivotFirst before pivot after).1 ++
      (splitAround test pivotFirst before pivot after).2).Perm (before ++ pivot :: after) := by
  classical
  have hbefore := List.filter_append_perm test before
  have hafter := List.filter_append_perm test after
  rw [List.perm_iff_count] at hbefore hafter ⊢
  intro x
  have hx := hbefore x
  have hx' := hafter x
  unfold splitAround
  simp only [List.partition_eq_filter_filter]
  cases pivotFirst <;>
  · simp only [List.count_append, List.count_cons, if_true, Bool.false_eq_true, if_false] at hx hx' ⊢
    simp only [Function.comp_def] at hx hx' ⊢
    omega

theorem sortSplit_keeps (depth : Nat) (lower : Option α) (xs : List α) :
    (sortSplit less depth lower xs).Keeps id xs := by
  induction depth generalizing lower xs with
  | zero =>
    unfold sortSplit
    split
    · exact sortShort_keeps less xs
    · have hok (l : List α) : Attempt.Keeps id l (.ok l) := .refl l
      exact sortRuns_keeps less hok true xs
  | succ depth ih =>
    unfold sortSplit
    split
    · exact sortShort_keeps less xs
    · dsimp only
      split
      · exact .refl xs
      · next pivot after hdrop =>
        have hxs : xs.take _ ++ pivot :: after = xs := hdrop ▸ List.take_append_drop _ xs
        have hparts (test : α → Bool) (first : Bool) :=
          (splitAround_perm test first (xs.take _) pivot after).trans (.of_eq hxs)
        split
        · refine (ih none _).within fun l hl => ?_
          exact (hl.append_left _).trans (hparts _ true)
        · split
          · next large h =>
            have hlarge : Attempt.Keeps id _ (.error large) := h ▸ ih (some pivot) _
            exact (List.Perm.append_left _ hlarge).trans (hparts _ false)
          · next large h =>
            have hlarge : Attempt.Keeps id _ (.ok large) := h ▸ ih (some pivot) _
            refine (ih lower _).within fun l hl => ?_
            exact (hl.append hlarge).trans (hparts _ false)

theorem sortLong_keeps (xs : List α) : (sortLong less xs).Keeps id xs :=
  sortRuns_keeps less (fun ys => sortSplit_keeps less _ none ys) _ xs

/-- Sorting by keys rearranges, even where it gives up. -/
theorem sortByKey_perm (key : α → Option Int) (xs : List α) : (sortByKey key xs).items.Perm xs := by
  unfold sortByKey
  split
  · exact List.mergeSort_perm xs _
  · split
    · exact insertAll_perm (keyLess key) [] xs
    · exact (sortLong_keeps (keyLess key) xs).perm

/-! ### Where no key is missing -/

section Ranks

variable {key : α → Option Int} {rank : α → Int} {xs : List α}

theorem sortByKey_of_keys (h : ∀ x ∈ xs, key x = some (rank x)) :
    sortByKey key xs = .ok (xs.mergeSort fun x y => rank x ≤ rank y) := by
  have hall : xs.all fun x => (key x).isSome :=
    List.all_eq_true.mpr fun x hx => Option.isSome_of_eq_some (h x hx)
  have hless : ∀ x ∈ xs, ∀ y ∈ xs, (!keyLess key y x) = decide (rank x ≤ rank y) := by
    intro x hx y hy
    unfold keyLess
    rw [h x hx, h y hy]
    change (!decide (rank y < rank x)) = _
    rw [← decide_not, decide_eq_decide]
    exact Int.not_lt
  have hsorts : (xs.mergeSort fun x y => !keyLess key y x) =
      xs.mergeSort fun x y => rank x ≤ rank y := by
    simpa using List.map_mergeSort (f := id) hless
  unfold sortByKey
  rw [if_pos hall, hsorts]

/-- Elements in order, and of any that are equal the first ones first. -/
theorem sortByKey_orders (h : ∀ x ∈ xs, key x = some (rank x)) : ∃ ys, sortByKey key xs = .ok ys ∧
    ys.Perm xs ∧ ys.Pairwise (rank · ≤ rank ·) ∧ ∀ alike : α → Bool,
      (∀ x ∈ xs, ∀ y ∈ xs, alike x → alike y → rank x = rank y) →
        ys.filter alike = xs.filter alike := by
  have htrans (x y z : α) (hxy : decide (rank x ≤ rank y)) (hyz : decide (rank y ≤ rank z)) :
      decide (rank x ≤ rank z) := by
    rw [decide_eq_true_iff] at *
    omega
  have htotal (x y : α) : decide (rank x ≤ rank y) || decide (rank y ≤ rank x) := by
    rw [Bool.or_eq_true, decide_eq_true_iff, decide_eq_true_iff]
    omega
  have hperm := List.mergeSort_perm xs fun x y => rank x ≤ rank y
  refine ⟨_, sortByKey_of_keys h, hperm, ?_, fun alike halike => ?_⟩
  · exact (List.pairwise_mergeSort htrans htotal xs).imp of_decide_eq_true
  · -- What is alike is in order already, so it is still there in the same order afterwards.
    have hordered : (xs.filter alike).Pairwise fun x y => decide (rank x ≤ rank y) := by
      apply List.pairwise_of_forall_mem_list
      intro x hx y hy
      rw [List.mem_filter] at hx hy
      exact decide_eq_true (Int.le_of_eq (halike x hx.1 y hy.1 hx.2 hy.2))
    have hkept := List.sublist_mergeSort htrans htotal hordered List.filter_sublist
    have hsub := hkept.filter alike
    rw [List.filter_filter] at hsub
    simp only [Bool.and_self] at hsub
    exact (hsub.eq_of_length (hperm.filter alike).length_eq.symm).symm

theorem sortByKey_of_ordered (h : ∀ x ∈ xs, key x = some (rank x))
    (hordered : xs.Pairwise (rank · ≤ rank ·)) : sortByKey key xs = .ok xs := by
  rw [sortByKey_of_keys h, List.mergeSort_of_pairwise (hordered.imp decide_eq_true)]

/-- Lists in order are the same if they have the same elements of each rank, in the same order. -/
theorem eq_of_ordered {ys : List α} (hperm : xs.Perm ys) (hx : xs.Pairwise (rank · ≤ rank ·))
    (hy : ys.Pairwise (rank · ≤ rank ·))
    (halike : ∀ x ∈ xs, xs.filter (rank · = rank x) = ys.filter (rank · = rank x)) : xs = ys := by
  induction xs generalizing ys with
  | nil => exact hperm.nil_eq
  | cons x xs ih =>
    cases ys with
    | nil => exact absurd hperm.symm.nil_eq (List.cons_ne_nil x xs).symm
    | cons y ys =>
      rw [List.pairwise_cons] at hx hy
      -- Neither head is above the other, and so both are the first of their rank.
      have hrank : rank y = rank x := by
        apply Int.le_antisymm
        · rcases List.mem_cons.mp (hperm.subset List.mem_cons_self) with heq | hmem
          · exact Int.le_of_eq (congrArg rank heq.symm)
          · exact hy.1 x hmem
        · rcases List.mem_cons.mp (hperm.symm.subset List.mem_cons_self) with heq | hmem
          · exact Int.le_of_eq (congrArg rank heq.symm)
          · exact hx.1 y hmem
      have hfirst := halike x List.mem_cons_self
      rw [List.filter_cons_of_pos (by simp), List.filter_cons_of_pos (by simp [hrank])] at hfirst
      obtain ⟨rfl, -⟩ := List.cons.inj hfirst
      rw [ih hperm.cons_inv hx.2 hy.2 fun z hz => ?_]
      have hall := halike z (List.mem_cons_of_mem x hz)
      rw [List.filter_cons, List.filter_cons] at hall
      split at hall
      · exact (List.cons.inj hall).2
      · exact hall

end Ranks

end BehaviourTree.Sorting
