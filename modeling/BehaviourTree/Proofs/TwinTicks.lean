import BehaviourTree.Proofs.Twins

/-!
The update of a node does the same as the update of its twin, and so does a whole tick.
-/

namespace BehaviourTree

open Ticking

variable {H : Host} {P : Pairing} {worlds : H.World → H.World → Prop}
  {ask ask' : NodeId → Ticking H Status}

/-! ### Composites -/

/-- The guards that a composite collects are the twins of those that its twin collects: a child
is a guard already if its twin is. -/
theorem collectGuards_twins {flagged flagged' : NodeId → Bool} {cs cs' gs gs' : List NodeId}
    (hflagged : ∀ {a b}, P.Links a b → flagged' b = flagged a ∧ (flagged a → a ∈ P.ids))
    (hcs : List.Forall₂ P.Links cs cs') (hgs : List.Forall₂ P.Links gs gs') :
    List.Forall₂ P.Links (collectGuards flagged cs gs) (collectGuards flagged' cs' gs') := by
  -- Child by child both collections grow or neither does, whatever they have collected so far.
  induction hcs generalizing gs gs' with
  | nil => exact hgs
  | @cons c c' cs cs' hcc _ ih =>
    apply ih
    obtain ⟨hflag, hlive⟩ := hflagged hcc
    by_cases hc : flagged c
    · have hmem : c ∈ gs ↔ c' ∈ gs' := P.mem_iff hgs (hcc.twins (hlive hc))
      by_cases hin : c ∈ gs
      · simpa [hflag, hc, hin, hmem.mp hin] using hgs
      · have hgrown : List.Forall₂ P.Links (gs ++ [c]) (gs' ++ [c']) :=
          List.rel_append hgs (.cons hcc .nil)
        simpa [hflag, hc, hin, mt hmem.mpr hin] using hgrown
    · simpa [hflag, hc] using hgs

section Composites

variable (hask : ∀ {a b}, P.Links a b → Echoes P worlds Eq (ask a) (ask' b))

include hask

theorem pollGuards_echoes {gs gs' : List NodeId} (hgs : List.Forall₂ P.Links gs gs') :
    Echoes P worlds Eq (pollGuards ask gs) (pollGuards ask' gs') := by
  induction hgs with
  | nil => exact lockstep_pure rfl
  | @cons g g' gs gs' hgg _ ih =>
    refine (hask hgg).bind ?_
    rintro answer _ rfl
    cases answer with
    | success => exact ih
    | fail => exact lockstep_pure rfl
    | running =>
      exact (lockstep_warn (.guardRunning g) (.guardRunning g')).bind fun _ _ _ => lockstep_pure rfl

theorem updateAll_echoes {cs cs' : List NodeId} (hcs : List.Forall₂ P.Links cs cs')
    (result : Status) :
    Echoes P worlds Eq (updateAll ask cs result)
      (updateAll ask' cs' result) := by
  induction hcs generalizing result with
  | nil => exact lockstep_pure rfl
  | cons hcc _ ih =>
    refine (hask hcc).bind ?_
    rintro answer _ rfl
    cases answer with
    | success => exact ih result
    | running => exact ih .running
    | fail => exact lockstep_pure rfl

namespace Series

variable {s s' : Series}

theorem advance_echoes (hs : s.Twin P s') (pass : Status) :
    Echoes P worlds (fun r r' => r.1 = r'.1 ∧ r.2.Twin P r'.2) (s.advance ask pass)
      (s'.advance ask' pass) := by
  have hchild := forall₂_getElem? hs.children s.current
  unfold advance
  rw [hs.current]
  generalize s.children[s.current]? = next, s'.children[s.current]? = next' at hchild
  cases hchild with
  | none => exact lockstep_pure ⟨rfl, hs⟩
  | some hcc =>
    refine (hask hcc).bind ?_
    rintro answer _ rfl
    split
    · refine lockstep_pure ⟨?_, hs.children, hs.guards, rfl⟩
      rw [hs.children.length_eq]
    · exact lockstep_pure ⟨rfl, hs⟩

theorem update_echoes (hs : s.Twin P s') (pass : Status) (empty : Warning) :
    Echoes P worlds (fun r r' => r.1 = r'.1 ∧ r.2.Twin P r'.2) (s.update ask pass empty)
      (s'.update ask' pass empty) := by
  unfold update
  rw [forall₂_isEmpty hs.children]
  split
  · exact (lockstep_warn empty empty).bind fun _ _ _ => lockstep_pure ⟨rfl, hs⟩
  · refine (pollGuards_echoes hask hs.guards).bind ?_
    rintro holds _ rfl
    split
    · exact advance_echoes hask hs pass
    · exact lockstep_pure ⟨rfl, hs⟩

end Series

end Composites

theorem pickChild_echoes {cs cs' : List NodeId} (hcs : List.Forall₂ P.Links cs cs') :
    Echoes (H := H) P worlds (Option.Rel P.Links) (pickChild cs) (pickChild cs') := by
  unfold pickChild
  rw [forall₂_isEmpty hcs]
  split
  · exact (lockstep_warn _ _).bind fun _ _ _ => lockstep_pure .none
  · refine lockstep_draw32.bind ?_
    rintro w _ rfl
    rw [hcs.length_eq]
    exact lockstep_pure (forall₂_getElem? hcs _)

/-! ### Nodes -/

namespace NodeKind

variable {context context' : LeafContext} {k k' : NodeKind H}

theorem enter_echoes (hH : H.IdBlind worlds) (hcontext : context.Alike context') (hk : k.Twin P k')
    {flagged flagged' : NodeId → Bool}
    (hflagged : ∀ {a b}, P.Links a b → flagged' b = flagged a ∧ (flagged a → a ∈ P.ids)) :
    Echoes P worlds (NodeKind.Twin P) (k.enter context flagged) (k'.enter context' flagged') := by
  have hseries {s s' : Series} (hs : s.Twin P s') : (s.enter flagged).Twin P (s'.enter flagged') :=
    ⟨hs.children, collectGuards_twins hflagged hs.children hs.guards, rfl⟩
  cases hk with
  | action a =>
    refine (echoes_leaf _ _ _ (hH.enter a hcontext)).bind ?_
    rintro ⟨-, a⟩ _ rfl
    exact lockstep_pure (.action a)
  | sequence hs => exact lockstep_pure (.sequence (hseries hs))
  | selector hs => exact lockstep_pure (.selector (hseries hs))
  | randomChoice hcs _ =>
    exact (pickChild_echoes hcs).bind fun _ _ hpicked => lockstep_pure (.randomChoice hcs hpicked)
  | root hc => exact lockstep_pure (.root hc)
  | condition c => exact lockstep_pure (.condition c)
  | repeater hc => exact lockstep_pure (.repeater hc)
  | parallel hcs => exact lockstep_pure (.parallel hcs)

theorem update_echoes (hH : H.IdBlind worlds) (hcontext : context.Alike context')
    (hask : ∀ {a b}, P.Links a b → Echoes P worlds Eq (ask a) (ask' b))
    (hk : k.Twin P k') :
    Echoes P worlds (fun r r' => r.1 = r'.1 ∧ r.2.Twin P r'.2) (k.update context ask)
      (k'.update context' ask') := by
  cases hk with
  | root hc =>
    cases hc with
    | none => exact (lockstep_warn _ _).bind fun _ _ _ => lockstep_pure ⟨rfl, .root .none⟩
    | some hcc =>
      exact (hask hcc).bind fun _ _ hanswer => lockstep_pure ⟨hanswer, .root (.some hcc)⟩
  | repeater hc =>
    cases hc with
    | none => exact (lockstep_warn _ _).bind fun _ _ _ => lockstep_pure ⟨rfl, .repeater .none⟩
    | some hcc => exact (hask hcc).bind fun _ _ _ => lockstep_pure ⟨rfl, .repeater (.some hcc)⟩
  | action a =>
    refine (echoes_leaf _ _ _ (hH.update a hcontext)).bind ?_
    rintro ⟨status, a⟩ _ rfl
    exact lockstep_pure ⟨rfl, .action a⟩
  | condition c =>
    refine (echoes_leaf _ _ _ (hH.check c hcontext)).bind ?_
    rintro ⟨holds, c⟩ _ rfl
    exact lockstep_pure ⟨rfl, .condition c⟩
  | sequence hs =>
    refine (Series.update_echoes hask hs _ _).bind ?_
    rintro ⟨status, s⟩ ⟨_, s'⟩ ⟨rfl, hs⟩
    exact lockstep_pure ⟨rfl, .sequence hs⟩
  | selector hs =>
    refine (Series.update_echoes hask hs _ _).bind ?_
    rintro ⟨status, s⟩ ⟨_, s'⟩ ⟨rfl, hs⟩
    exact lockstep_pure ⟨rfl, .selector hs⟩
  | parallel hcs =>
    exact (updateAll_echoes hask hcs _).bind fun _ _ hanswer =>
      lockstep_pure ⟨hanswer, .parallel hcs⟩
  | randomChoice hcs hselected =>
    cases hselected with
    | none => exact lockstep_pure ⟨rfl, .randomChoice hcs .none⟩
    | some hcc =>
      exact (hask hcc).bind fun _ _ hanswer =>
        lockstep_pure ⟨hanswer, .randomChoice hcs (.some hcc)⟩

theorem settle_echoes (hH : H.IdBlind worlds) (hcontext : context.Alike context') (status : Status)
    (hk : k.Twin P k') :
    Echoes P worlds (NodeKind.Twin P) (k.settle context status) (k'.settle context' status) := by
  unfold settle
  split
  · cases hk with
    | action a =>
      refine (echoes_leaf _ _ _ (hH.exit a hcontext)).bind ?_
      rintro ⟨-, a⟩ _ rfl
      exact lockstep_pure (.action a)
    | root hc => exact lockstep_pure (.root hc)
    | condition c => exact lockstep_pure (.condition c)
    | repeater hc => exact lockstep_pure (.repeater hc)
    | sequence hs => exact lockstep_pure (.sequence hs)
    | selector hs => exact lockstep_pure (.selector hs)
    | parallel hcs => exact lockstep_pure (.parallel hcs)
    | randomChoice hcs hselected => exact lockstep_pure (.randomChoice hcs hselected)
  · exact lockstep_pure hk

end NodeKind

section Updates

variable {path path' : List NodeId}

theorem Node.begin_echoes (hH : H.IdBlind worlds) {context context' : LeafContext}
    (hcontext : context.Alike context') {n n' : Node H} (hn : n.Twin P n')
    (hpath : List.Forall₂ P.twins path path') :
    Echoes P worlds (NodeKind.Twin P) (n.begin context fun s c => s.isGuard path c)
      (n'.begin context' fun s c => s.isGuard path' c) := by
  unfold Node.begin
  rw [hn.running]
  split
  · exact lockstep_pure hn.kind
  · have hentered : Echoes (H := H) P worlds (fun _ _ => True) (emit (.entered n.id))
        (emit (.entered n'.id)) := lockstep_emit nofun nofun
    refine hentered.bind fun _ _ _ => ?_
    refine lockstep_stage fun s s' (hs : s.Twin P worlds s') => ?_
    exact NodeKind.enter_echoes hH hcontext hn.kind (fun hab => hs.isGuard hpath hab) s s' hs

theorem Node.update_echoes (hH : H.IdBlind worlds) (frame : TickContext) {n n' : Node H}
    (hn : n.Twin P n') (hpath : List.Forall₂ P.twins path path')
    (hask : ∀ {a b}, P.Links a b → Echoes P worlds Eq (ask a) (ask' b)) :
    Echoes P worlds (fun r r' => r.1 = r'.1 ∧ r.2.Twin P r'.2)
      (n.update frame (fun s c => s.isGuard path c) ask)
      (n'.update frame (fun s c => s.isGuard path' c) ask') := by
  have hcontext : LeafContext.Alike ⟨frame, n.id, n.owner⟩ ⟨frame, n'.id, n'.owner⟩ :=
    ⟨rfl, hn.owner⟩
  refine (n.begin_echoes hH hcontext hn hpath).bind fun k k' hk => ?_
  refine (NodeKind.update_echoes hH hcontext hask hk).bind ?_
  rintro ⟨status, k⟩ ⟨_, k'⟩ ⟨rfl, hk⟩
  rw [hn.guid]
  refine (lockstep_announce rfl n.observers n'.observers).bind fun _ _ _ => ?_
  refine (NodeKind.settle_echoes hH hcontext status hk).bind fun k k' hk => ?_
  exact lockstep_pure ⟨rfl, hn.id, rfl, hk, hn.alwaysCheck, hn.owner, rfl⟩

theorem echoes_asking {m m' : Ticking H Status} {a b : NodeId}
    (hm : Echoes P worlds Eq m m') :
    Echoes P worlds Eq (asking path a m) (asking path' b m') :=
  lockstep_asking (fun _ _ => nofun) (fun _ _ _ => nofun) hm

theorem echoes_unresolved (a b : NodeId) :
    Echoes P worlds Eq (unresolved a : Ticking H Status) (unresolved b) :=
  (lockstep_warn _ _).bind fun _ _ _ => lockstep_pure rfl

/-- As deep as updates may go, those of twins do the same. -/
theorem updateNode_echoes (hH : H.IdBlind worlds) (frame : TickContext) (depth : Nat)
    (hpath : List.Forall₂ P.twins path path') {a b : NodeId} (hab : P.Links a b) :
    Echoes P worlds Eq (updateNode frame depth path a)
      (updateNode frame depth path' b) := by
  -- What a node asks is asked one level down with the node on the path, so the paths vary.
  induction depth generalizing path path' a b with
  | zero => exact echoes_asking (echoes_unresolved a b)
  | succ depth ih =>
    apply echoes_asking
    refine lockstep_stage fun s s' (hs : s.Twin P worlds s') => ?_
    -- Both find nobody, or both find nodes that are twins.
    have hfind := hs.find? hpath hab
    generalize hfound : s.find? path a = found, hfound' : s'.find? path' b = found' at hfind ⊢
    cases hfind with
    | none => exact echoes_unresolved a b s s' hs
    | @some n n' hn =>
      obtain ⟨-, rfl, -⟩ := find?_some hfound
      obtain ⟨-, rfl, -⟩ := find?_some hfound'
      have hdeeper : List.Forall₂ P.twins (n.id :: path) (n'.id :: path') := .cons hn.id hpath
      have hupdate := n.update_echoes hH frame hn hdeeper fun hcd => ih hdeeper hcd
      refine hupdate.bind ?_ s s' hs
      rintro ⟨status, m⟩ ⟨_, m'⟩ ⟨rfl, hm⟩
      have hrestore : Echoes P worlds (fun _ _ => True) (edit (·.restore m))
          (edit (·.restore m')) := fun s s' hs => ⟨trivial, hs.restore hm, rfl⟩
      exact hrestore.bind fun _ _ _ => lockstep_pure rfl

end Updates

end BehaviourTree
