import BehaviourTree.Proofs.Reachability
import BehaviourTree.Proofs.TickSafety
import Mathlib.Logic.Function.Iterate

/-!
The walk over a tree is depth-first preorder on every graph of links: the loop with a stack ends,
and it meets the nodes that a traversal by recursion visits, in the same order.
-/

namespace BehaviourTree

variable {H : Host}

namespace Tree

/-! ### Recursion and loop -/

/-- A traversal by recursion. `Preorder seen ids met` says that visiting the nodes of `ids` one
after the other, with those of `seen` visited before them (the last first), visits `met`. A node
that is gone or was visited is passed over. Any other is visited, and then, ahead of what comes
after it in the list, its children are. -/
inductive Preorder (t : Tree H) : List NodeId → List NodeId → List NodeId → Prop where
  | done (seen : List NodeId) : Preorder t seen [] []
  | gone {seen : List NodeId} {id : NodeId} {rest met : List NodeId}
      (missing : t.node? id = none) (later : Preorder t seen rest met) :
    Preorder t seen (id :: rest) met
  | again {seen : List NodeId} {id : NodeId} {rest met : List NodeId}
      (old : id ∈ seen) (later : Preorder t seen rest met) :
    Preorder t seen (id :: rest) met
  | visit {seen : List NodeId} {id : NodeId} {rest below met : List NodeId} {n : Node H}
      (live : t.node? id = some n) (new : id ∉ seen)
      (children : Preorder t (id :: seen) n.links below)
      (later : Preorder t (below.reverse ++ id :: seen) rest met) :
    Preorder t seen (id :: rest) (id :: (below ++ met))

/-- One round of the loop: the link on top of the stack is taken off, and if it leads to a node that
has not been met, the node is met and its links are put on top. -/
def walkRound (t : Tree H) : List NodeId × List NodeId → List NodeId × List NodeId
  | ([], seen) => ([], seen)
  | (id :: stack, seen) => match t.node? id with
    | none => (stack, seen)
    | some n => if id ∈ seen then (stack, seen) else (n.links ++ stack, id :: seen)

variable {t : Tree H} {id : NodeId} {stack seen ids met : List NodeId}

/-! ### Rounds -/

theorem walkRound_gone (h : t.node? id = none) :
    t.walkRound (id :: stack, seen) = (stack, seen) := by
  simp only [walkRound, h]

theorem walkRound_again (h : id ∈ seen) : t.walkRound (id :: stack, seen) = (stack, seen) := by
  cases hn : t.node? id with
  | none => exact walkRound_gone hn
  | some n =>
    simp only [walkRound, hn]
    exact if_pos h

theorem walkRound_visit {n : Node H} (hn : t.node? id = some n) (h : id ∉ seen) :
    t.walkRound (id :: stack, seen) = (n.links ++ stack, id :: seen) := by
  simp only [walkRound, hn]
  exact if_neg h

/-- Where nothing is left on the stack nothing happens any more. -/
theorem walkRound_iterate_done (t : Tree H) (steps : Nat) (seen : List NodeId) :
    t.walkRound^[steps] ([], seen) = ([], seen) :=
  Function.iterate_fixed rfl steps

/-- The walk is so many rounds. -/
theorem walk_eq_rounds (t : Tree H) (steps : Nat) (stack seen : List NodeId) :
    t.walk steps stack seen = (t.walkRound^[steps] (stack, seen)).2.reverse := by
  induction steps generalizing stack seen with
  | zero => rfl
  | succ steps ih =>
    cases stack with
    | nil => rw [walk_nil, walkRound_iterate_done]
    | cons id stack =>
      rw [Function.iterate_succ_apply]
      unfold walk
      split
      · next hgone => rw [walkRound_gone hgone, ih]
      · next n hn =>
        split
        · next hold => rw [walkRound_again hold, ih]
        · next hnew => rw [walkRound_visit hn hnew, ih]

/-- A round for every link that is still to be followed leaves nothing on the stack: a link comes on
it once, when the node that has it is met. -/
theorem rounds_end {steps : Nat} (h : stack.length+t.unmet seen ≤ steps) :
    (t.walkRound^[steps] (stack, seen)).1 = [] := by
  induction steps generalizing stack seen with
  | zero =>
    apply List.eq_nil_of_length_eq_zero
    change stack.length = 0
    omega
  | succ steps ih =>
    cases stack with
    | nil => rw [walkRound_iterate_done]
    | cons id stack =>
      rw [List.length_cons] at h
      rw [Function.iterate_succ_apply]
      cases hn : t.node? id with
      | none =>
        rw [walkRound_gone hn]
        apply ih
        omega
      | some n =>
        by_cases hold : id ∈ seen
        · rw [walkRound_again hold]
          apply ih
          omega
        · rw [walkRound_visit hn hold]
          apply ih
          have hcount := unmet_cons hn hold
          rw [List.length_append]
          omega

/-- Two loops that have both ended from one start have ended alike. -/
theorem rounds_end_alike {x : List NodeId × List NodeId} {k m : Nat}
    (hk : (t.walkRound^[k] x).1 = []) (hm : (t.walkRound^[m] x).1 = []) :
    t.walkRound^[k] x = t.walkRound^[m] x := by
  have hlonger {k m : Nat} (hkm : k ≤ m) (hk : (t.walkRound^[k] x).1 = []) :
      t.walkRound^[m] x = t.walkRound^[k] x := by
    obtain ⟨d, rfl⟩ := Nat.exists_eq_add_of_le' hkm
    rw [Function.iterate_add_apply]
    generalize t.walkRound^[k] x = y at hk
    obtain ⟨stack, seen⟩ := y
    obtain rfl : stack = [] := hk
    exact t.walkRound_iterate_done d seen
  rcases Nat.le_total k m with hkm | hmk
  · exact (hlonger hkm hk).symm
  · exact hlonger hmk hm

/-! ### The loop follows the recursion -/

/-- Whatever is below on the stack, the loop comes to the end of a list of links having met what the
recursion visits. -/
theorem Preorder.rounds (h : t.Preorder seen ids met) (stack : List NodeId) :
    ∃ k, t.walkRound^[k] (ids ++ stack, seen) = (stack, met.reverse ++ seen) := by
  induction h generalizing stack with
  | done seen => exact ⟨0, rfl⟩
  | gone missing _ ih =>
    obtain ⟨k, hk⟩ := ih stack
    refine ⟨k+1, ?_⟩
    rw [Function.iterate_succ_apply, List.cons_append, walkRound_gone missing, hk]
  | again old _ ih =>
    obtain ⟨k, hk⟩ := ih stack
    refine ⟨k+1, ?_⟩
    rw [Function.iterate_succ_apply, List.cons_append, walkRound_again old, hk]
  | @visit seen id rest below met n live new _ _ ih ih' =>
    -- First come the rounds for the children, with the rest of the list under them on the stack.
    obtain ⟨k, hk⟩ := ih (rest ++ stack)
    obtain ⟨m, hm⟩ := ih' stack
    refine ⟨m+(k+1), ?_⟩
    calc t.walkRound^[m+(k+1)] (id :: rest ++ stack, seen)
      _ = t.walkRound^[m] (t.walkRound^[k] (n.links ++ (rest ++ stack), id :: seen)) := by
        rw [Function.iterate_add_apply, Function.iterate_succ_apply, List.cons_append,
          walkRound_visit live new]
      _ = t.walkRound^[m] (rest ++ stack, below.reverse ++ id :: seen) := by rw [hk]
      _ = (stack, (id :: (below ++ met)).reverse ++ seen) := by
        rw [hm]
        simp

/-- The recursion comes to an end, since every node that is visited takes its links out of those
that are still to be followed. -/
theorem exists_preorder (t : Tree H) (seen ids : List NodeId) : ∃ met, t.Preorder seen ids met := by
  induction hsize : ids.length+t.unmet seen using Nat.strongRecOn generalizing seen ids with
  | _ size ih =>
    cases ids with
    | nil => exact ⟨[], .done seen⟩
    | cons id rest =>
      rw [List.length_cons] at hsize
      cases hn : t.node? id with
      | none =>
        obtain ⟨met, hmet⟩ := ih _ (by omega) seen rest rfl
        exact ⟨met, .gone hn hmet⟩
      | some n =>
        by_cases hold : id ∈ seen
        · obtain ⟨met, hmet⟩ := ih _ (by omega) seen rest rfl
          exact ⟨met, .again hold hmet⟩
        · have hcount := unmet_cons hn hold
          obtain ⟨below, hbelow⟩ := ih _ (by omega) (id :: seen) n.links rfl
          have hseen : seen ⊆ below.reverse ++ id :: seen := by
            intro c hc
            exact List.mem_append_right _ (List.mem_cons_of_mem id hc)
          have hless := t.unmet_le hseen
          obtain ⟨met, hmet⟩ := ih _ (by omega) (below.reverse ++ id :: seen) rest rfl
          exact ⟨id :: (below ++ met), .visit hn hold hbelow hmet⟩

/-- The rounds of the walk from the root, and that nothing is left of its stack. -/
theorem reachable_rounds (t : Tree H) :
    t.walkRound^[t.linkCount+1] ([t.root], []) = ([], t.reachable.reverse) := by
  have hend : (t.walkRound^[t.linkCount+1] ([t.root], [])).1 = [] := by
    apply rounds_end
    rw [unmet_nil, List.length_singleton]
    omega
  apply Prod.ext
  · exact hend
  · rw [reachable, walk_eq_rounds, List.reverse_reverse]

theorem preorder_iff : t.Preorder [] [t.root] met ↔ met = t.reachable := by
  have honly {met : List NodeId} (h : t.Preorder [] [t.root] met) : met = t.reachable := by
    obtain ⟨k, hk⟩ := h.rounds []
    rw [List.append_nil, List.append_nil] at hk
    have hsame := rounds_end_alike (congrArg Prod.fst hk) (congrArg Prod.fst t.reachable_rounds)
    rw [hk, t.reachable_rounds] at hsame
    exact List.reverse_injective (congrArg Prod.snd hsame)
  constructor
  · exact honly
  · rintro rfl
    obtain ⟨met, hmet⟩ := t.exists_preorder [] [t.root]
    rwa [← honly hmet]

/-- What is visited is one of the nodes that are asked for, or it comes after a node that links to
it. -/
theorem Preorder.after_parent (h : t.Preorder seen ids met) :
    ∀ c ∈ met, c ∉ ids → ∃ p, [p, c].Sublist met ∧ t.Links p c := by
  induction h with
  | done => simp
  | gone _ _ ih | again _ _ ih =>
    intro c hc hout
    exact ih c hc fun hrest => hout (List.mem_cons_of_mem _ hrest)
  | @visit seen id rest below met n live _ _ _ ih ih' =>
    intro c hc hout
    rw [List.mem_cons, not_or] at hout
    rcases List.mem_append.mp ((List.mem_cons.mp hc).resolve_left hout.1) with hc | hc
    · by_cases hchild : c ∈ n.links
      · have hlater : [c].Sublist (below ++ met) :=
          List.singleton_sublist.mpr (List.mem_append_left met hc)
        exact ⟨id, hlater.cons_cons id, .of_node? live hchild⟩
      · obtain ⟨p, hbefore, hlink⟩ := ih c hc hchild
        exact ⟨p, (hbefore.trans (List.sublist_append_left below met)).cons id, hlink⟩
    · obtain ⟨p, hbefore, hlink⟩ := ih' c hc hout.2
      exact ⟨p, (hbefore.trans (List.sublist_append_right below met)).cons id, hlink⟩

end Tree

/-- Whatever the links of a tree, its loop with a stack ends within a round for every link and one
more, and what it has met is what the recursive traversal from the root visits, in the order of
that. It is the live nodes that the root leads to, each once, and each but the root after a node
that links to it. Who goes through the tree is shown these nodes. -/
theorem reachable_in_preorder (t : Tree H) :
    (∀ met, t.Preorder [] [t.root] met ↔ met = t.reachable) ∧
    t.walkRound^[t.linkCount+1] ([t.root], []) = ([], t.reachable.reverse) ∧
    t.reachable.Nodup ∧ (∀ id, id ∈ t.reachable ↔ t.Reaches t.root id ∧ t.contains id) ∧
    (∀ id ∈ t.reachable, id ≠ t.root → ∃ p, [p, id].Sublist t.reachable ∧ t.Links p id) ∧
    t.traverse.map (·.id) = t.reachable ∧ ∀ n ∈ t.traverse, t.node? n.id = some n := by
  refine ⟨fun _ => Tree.preorder_iff, t.reachable_rounds, t.reachable_nodup,
    fun _ => Tree.mem_reachable_iff, ?_, t.traverse_ids, fun _ => Tree.node?_of_traverse⟩
  intro id hid hroot
  have hvisits : t.Preorder [] [t.root] t.reachable := Tree.preorder_iff.mpr rfl
  apply hvisits.after_parent id hid
  rwa [List.mem_singleton]

/-- The sequence links to the selector, but so does the parallel node, which comes first. -/
def Demo.thicket : Tree Demo.smallHost := { tangle with
  nodes := [.make (.ofNat 1) "Root" (.root (some (.ofNat 2))),
    .make (.ofNat 2) "Sequence" (.sequence (.idle [.ofNat 3, .ofNat 4, .ofNat 9])),
    .make (.ofNat 3) "Parallel" (.parallel [.ofNat 5, .ofNat 4, .ofNat 2]),
    .make (.ofNat 4) "Selector" (.selector (.idle [.ofNat 3])),
    .make (.ofNat 5) "Repeat" (.repeater none), .make (.ofNat 6) "Repeat" (.repeater none)] }

theorem reachable_in_preorder_thicket :
    Demo.thicket.reachable = [1, 2, 3, 5, 4].map .ofNat ∧
      Demo.thicket.Preorder [] [.ofNat 1] ([1, 2, 3, 5, 4].map .ofNat) ∧
      ∃ p, [p, .ofNat 4].Sublist Demo.thicket.reachable ∧ Demo.thicket.Links p (.ofNat 4) := by
  have horder : Demo.thicket.reachable = [1, 2, 3, 5, 4].map .ofNat := by decide +kernel
  obtain ⟨hvisits, -, -, -, hafter, -⟩ := reachable_in_preorder Demo.thicket
  refine ⟨horder, (hvisits _).mpr horder.symm, ?_⟩
  apply hafter
  · rw [horder]
    decide
  · decide

end BehaviourTree
