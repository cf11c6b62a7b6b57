import BehaviourTree.Proofs.Reachability
import BehaviourTree.Proofs.TemplateForest

/-!
A copy of a tree is a forest under its root again: what was reachable has fresh identifiers, and
links that led nowhere lead to fresh identifiers that nothing has.
-/

namespace BehaviourTree

open Relation
open scoped List

variable {H : Host}

/-! ### Renaming -/

/-- Where copies lead, and fresh identifiers for what has no copy. -/
inductive Renames (copies : List (NodeId × NodeId)) :
    IdSupply → List NodeId → List NodeId → IdSupply → Prop where
  | nil (s : IdSupply) : Renames copies s [] [] s
  | old {s s' : IdSupply} {c c' : NodeId} {cs cs' : List NodeId} (h : copies.lookup c = some c')
      (rest : Renames copies s cs cs' s') : Renames copies s (c :: cs) (c' :: cs') s'
  | fresh {s s' : IdSupply} {c : NodeId} {cs cs' : List NodeId} (h : copies.lookup c = none)
      (rest : Renames copies s.draw.2 cs cs' s') :
      Renames copies s (c :: cs) (⟨s.draw.1⟩ :: cs') s'

/-- Where one link leads in a copy. -/
def Follows (copies : List (NodeId × NodeId)) (used : Uuid → Prop) (c c' : NodeId) : Prop :=
  copies.lookup c = some c' ∨ copies.lookup c = none ∧ ¬ used c'.uuid

theorem Follows.mono {copies : List (NodeId × NodeId)} {used used' : Uuid → Prop} {c c' : NodeId}
    (h : Follows copies used' c c') (hused : ∀ u, used u → used' u) : Follows copies used c c' :=
  h.imp_right fun ⟨hnone, hunused⟩ => ⟨hnone, fun hu => hunused (hused _ hu)⟩

namespace Renames

variable {copies : List (NodeId × NodeId)} {s s' s'' : IdSupply} {cs cs' ds ds' : List NodeId}
  {limit : Nat} {used : Uuid → Prop}

theorem append (h : Renames copies s cs cs' s') (h' : Renames copies s' ds ds' s'') :
    Renames copies s (cs ++ ds) (cs' ++ ds') s'' := by
  induction h with
  | nil => exact h'
  | old h _ ih => exact .old h (ih h')
  | fresh h _ ih => exact .fresh h (ih h')

theorem length_eq (h : Renames copies s cs cs' s') : cs'.length = cs.length := by
  induction h with
  | nil => rfl
  | old _ _ ih | fresh _ _ ih => rw [List.length_cons, List.length_cons, ih]

theorem precedes (h : Renames copies s cs cs' s') : s.Precedes s' := by
  induction h with
  | nil s => exact .refl s
  | old _ _ ih => exact ih
  | @fresh s _ _ _ _ _ _ ih => exact s.precedes_draw.trans ih

/-- What copies have for identifiers stays in use when one more is drawn. -/
theorem images_after_draw (himages : ∀ d x, copies.lookup d = some x → used x.uuid) (u : Uuid) :
    ∀ d x, copies.lookup d = some x → used x.uuid ∨ x.uuid = u :=
  fun d x hx => Or.inl (himages d x hx)

section Used

variable (himages : ∀ d x, copies.lookup d = some x → used x.uuid)

include himages

/-- Link by link: a copy leads to a copy, and what has no copy is replaced by what is not in use. -/
theorem follows (h : Renames copies s cs cs' s') (hs : s.Fresh limit used)
    (hlimit : s'.drawn ≤ limit) : List.Forall₂ (Follows copies used) cs cs' := by
  induction h generalizing used with
  | nil => exact .nil
  | old hlookup _ ih => exact .cons (Or.inl hlookup) (ih himages hs hlimit)
  | @fresh s _ c _ _ hlookup hrest ih =>
    have hunused : ¬ used s.draw.1 := hs.draw_unused (hrest.precedes.within hlimit)
    -- The draw makes what is drawn used for the links that follow.
    have hlater := ih (images_after_draw himages s.draw.1) hs.draw hlimit
    exact .cons (Or.inr ⟨hlookup, hunused⟩) (hlater.imp fun _ _ hd => hd.mono fun _ => Or.inl)

/-- What is used already and appears among the new links is where a copy of an old one leads. -/
theorem of_used (h : Renames copies s cs cs' s') (hs : s.Fresh limit used)
    (hlimit : s'.drawn ≤ limit) {c' : NodeId} (hc : c' ∈ cs') (hused : used c'.uuid) :
    ∃ c ∈ cs, copies.lookup c = some c' := by
  obtain ⟨c, hmem, hfollows⟩ :=
    exists_of_mem_right (h.follows himages hs hlimit) hc
  exact ⟨c, hmem, hfollows.resolve_right fun hfresh => hfresh.2 hused⟩

theorem nodup (h : Renames copies s cs cs' s') (hs : s.Fresh limit used)
    (hlimit : s'.drawn ≤ limit)
    (hinj : ∀ c d x, copies.lookup c = some x → copies.lookup d = some x → c = d)
    (hcs : cs.Nodup) : cs'.Nodup := by
  induction h generalizing used with
  | nil => exact List.nodup_nil
  | @old _ _ c _ _ _ hlookup hrest ih =>
    obtain ⟨hc, hcs⟩ := List.nodup_cons.mp hcs
    refine List.nodup_cons.mpr ⟨fun hmem => ?_, ih himages hs hlimit hcs⟩
    -- Its image among the later ones would be the image of a later link, which is another.
    obtain ⟨d, hd, hd'⟩ := hrest.of_used himages hs hlimit hmem (himages c _ hlookup)
    exact hc (hinj c d _ hlookup hd' ▸ hd)
  | @fresh s _ c _ _ hlookup hrest ih =>
    have himages' := images_after_draw himages s.draw.1
    obtain ⟨hc, hcs⟩ := List.nodup_cons.mp hcs
    refine List.nodup_cons.mpr ⟨fun hmem => ?_, ih himages' hs.draw hlimit hcs⟩
    -- What was drawn counts as used from here on, so a later one could only be an image.
    obtain ⟨d, hd, hd'⟩ := hrest.of_used himages' hs.draw hlimit hmem (Or.inr rfl)
    exact hs.draw_unused (hrest.precedes.within hlimit) (himages d _ hd')

/-- What has been drawn on the way is not drawn again. -/
theorem fresh_after (h : Renames copies s cs cs' s') (hs : s.Fresh limit used) :
    s'.Fresh limit fun u => used u ∨ ∃ c ∈ cs', c.uuid = u := by
  induction h generalizing used with
  | nil =>
    refine hs.mono fun u hu => ?_
    simpa using hu
  | @old _ _ c c' _ _ hlookup _ ih =>
    refine (ih himages hs).mono fun u hu => ?_
    rcases hu with hu | ⟨d, hd, rfl⟩
    · exact Or.inl hu
    · rcases List.mem_cons.mp hd with rfl | hd
      · exact Or.inl (himages c d hlookup)
      · exact Or.inr ⟨d, hd, rfl⟩
  | @fresh s _ c _ _ _ _ ih =>
    have himages' := images_after_draw himages s.draw.1
    refine (ih himages' hs.draw).mono fun u hu => ?_
    rcases hu with hu | ⟨d, hd, rfl⟩
    · exact Or.inl (Or.inl hu)
    · rcases List.mem_cons.mp hd with rfl | hd
      · exact Or.inl (Or.inr rfl)
      · exact Or.inr ⟨d, hd, rfl⟩

end Used

end Renames

/-! ### Runs -/

section Runs

variable {α β : Type} {limit : Nat} {used : Uuid → Prop}

theorem mapM_cons_run (f : α → Minting β) (a : α) (l : List α) (s : IdSupply) :
    (a :: l).mapM f s = ((f a s).1 :: (l.mapM f (f a s).2).1, (l.mapM f (f a s).2).2) := by
  rw [List.mapM_cons]
  rfl

theorem mapM_nil_run (f : α → Minting β) (s : IdSupply) : ([] : List α).mapM f s = ([], s) := by
  rw [List.mapM_nil]
  rfl

/-- A fresh identifier beside each of a list. -/
def mintBeside (id : NodeId) : Minting (NodeId × NodeId) := do pure (id, ← mintNodeId)

theorem mapM_precedes {f : α → Minting β} (hf : ∀ a (s : IdSupply), s.Precedes (f a s).2)
    (l : List α) (s : IdSupply) : s.Precedes (l.mapM f s).2 := by
  induction l generalizing s with
  | nil =>
    rw [mapM_nil_run]
    exact .refl s
  | cons a l ih =>
    rw [mapM_cons_run]
    exact (hf a s).trans (ih (f a s).2)

theorem mapM_forall {f : α → Minting β} {Q : β → Prop} (hf : ∀ a s, Q (f a s).1)
    (l : List α) (s : IdSupply) : ∀ b ∈ (l.mapM f s).1, Q b := by
  induction l generalizing s with
  | nil =>
    rw [mapM_nil_run]
    exact fun _ hb => absurd hb List.not_mem_nil
  | cons a l ih =>
    rw [mapM_cons_run]
    exact List.forall_mem_cons.mpr ⟨hf a s, ih (f a s).2⟩

theorem mintBeside_precedes (id : NodeId) (s : IdSupply) : s.Precedes (mintBeside id s).2 :=
  s.precedes_draw

theorem mintBeside_spec {l : List NodeId} {s : IdSupply} (hs : s.Fresh limit used)
    (hlimit : (l.mapM mintBeside s).2.drawn ≤ limit) :
    (l.mapM mintBeside s).1.map (·.1) = l ∧ ((l.mapM mintBeside s).1.map (·.2)).Nodup ∧
      (∀ x ∈ (l.mapM mintBeside s).1.map (·.2), ¬ used x.uuid) ∧
      (l.mapM mintBeside s).2.Fresh limit fun u =>
        used u ∨ ∃ x ∈ (l.mapM mintBeside s).1.map (·.2), x.uuid = u := by
  induction l generalizing s used with
  | nil =>
    rw [mapM_nil_run]
    refine ⟨rfl, List.nodup_nil, by simp, hs.mono fun u hu => ?_⟩
    simpa using hu
  | cons id l ih =>
    have hrun : mintBeside id s = ((id, ⟨s.draw.1⟩), s.draw.2) := rfl
    rw [mapM_cons_run, hrun] at hlimit ⊢
    obtain ⟨hfst, hnodup, hunused, hfresh⟩ := ih hs.draw hlimit
    refine ⟨?_, ?_, ?_, ?_⟩
    · rw [List.map_cons, hfst]
    · rw [List.map_cons, List.nodup_cons]
      exact ⟨fun hmem => hunused _ hmem (Or.inr rfl), hnodup⟩
    · intro x hx
      rcases List.mem_cons.mp hx with rfl | hx
      · exact hs.draw_unused ((mapM_precedes mintBeside_precedes l s.draw.2).within hlimit)
      · exact fun hu => hunused x hx (Or.inl hu)
    · refine hfresh.mono fun u hu => ?_
      rcases hu with hu | ⟨x, hx, rfl⟩
      · exact Or.inl (Or.inl hu)
      · rcases List.mem_cons.mp hx with rfl | hx
        · exact Or.inl (Or.inr rfl)
        · exact Or.inr ⟨x, hx, rfl⟩

theorem followCopy_some {copies : List (NodeId × NodeId)} {c c' : NodeId}
    (h : copies.lookup c = some c') (s : IdSupply) : followCopy copies c s = (c', s) := by
  unfold followCopy
  rw [h]
  rfl

theorem followCopy_none {copies : List (NodeId × NodeId)} {c : NodeId}
    (h : copies.lookup c = none) (s : IdSupply) :
    followCopy copies c s = (⟨s.draw.1⟩, s.draw.2) := by
  unfold followCopy
  rw [h]
  rfl

theorem followCopy_precedes (copies : List (NodeId × NodeId)) (c : NodeId) (s : IdSupply) :
    s.Precedes (followCopy copies c s).2 := by
  cases h : copies.lookup c with
  | some c' =>
    rw [followCopy_some h]
    exact .refl s
  | none =>
    rw [followCopy_none h]
    exact s.precedes_draw

theorem followCopy_renames (copies : List (NodeId × NodeId)) (l : List NodeId) (s : IdSupply) :
    Renames copies s l (l.mapM (followCopy copies) s).1 (l.mapM (followCopy copies) s).2 := by
  induction l generalizing s with
  | nil =>
    rw [mapM_nil_run]
    exact .nil s
  | cons c l ih =>
    rw [mapM_cons_run]
    cases hc : copies.lookup c with
    | some c' =>
      rw [followCopy_some hc]
      exact .old hc (ih s)
    | none =>
      rw [followCopy_none hc]
      exact .fresh hc (ih s.draw.2)

end Runs

/-! ### Copies -/

section Copies

variable {copies : List (NodeId × NodeId)} {limit : Nat} {used : Uuid → Prop}

theorem mem_of_lookup {c x : NodeId} (h : copies.lookup c = some x) : (c, x) ∈ copies := by
  obtain ⟨before, after, rfl, -⟩ := List.lookup_eq_some_iff.mp h
  exact List.mem_append_right before List.mem_cons_self

/-- Different nodes have different copies. -/
theorem lookup_injective (hcopies : (copies.map (·.2)).Nodup) (c d x : NodeId)
    (hc : copies.lookup c = some x) (hd : copies.lookup d = some x) : c = d := by
  have hsame := List.inj_on_of_nodup_map hcopies (mem_of_lookup hc) (mem_of_lookup hd) rfl
  exact congrArg Prod.fst hsame

/-- What becomes of a node: its copy links to copies of what it links to, and to what is not in use
otherwise. -/
structure CopyOf (copies : List (NodeId × NodeId)) (used : Uuid → Prop) (n n' : Node H) :
    Prop where
  id : copies.lookup n.id = some n'.id
  made : ∃ board, n' = n.copy n'.id n'.links board
  follows : List.Forall₂ (Follows copies used) n.links n'.links

/-- A copy of one node, beside the copies of the others. -/
def copyNode (copies : List (NodeId × NodeId)) (board : BlackboardId) (n : Node H) :
    Minting (Node H) := do
  let id ← followCopy copies n.id
  let links ← n.links.mapM (followCopy copies)
  pure (n.copy id links board)

theorem copyNode_precedes (copies : List (NodeId × NodeId)) (board : BlackboardId) (n : Node H)
    (s : IdSupply) : s.Precedes (copyNode copies board n s).2 :=
  (followCopy_precedes copies n.id s).trans (mapM_precedes (followCopy_precedes copies) n.links _)

theorem NodeKind.authored_same (k : NodeKind H) :
    k.authored.nodeType = k.nodeType ∧ k.authored.links = k.links := by
  cases k <;> exact ⟨rfl, rfl⟩

/-- As many links as a node has fit its type. -/
theorem NodeType.fit_of_length {k : NodeKind H} {cs : List NodeId}
    (h : cs.length = k.links.length) : k.nodeType.fit cs = cs := by
  have hlength : (k.nodeType.fit k.links).length = k.links.length := by rw [k.fit_links]
  unfold fit at hlength ⊢
  split
  · next hshape =>
    rw [hshape, ← h] at hlength
    exact (List.eq_nil_of_length_eq_zero hlength.symm).symm
  · next hshape =>
    cases cs with
    | nil => rfl
    | cons c cs =>
      have hone : (k.links.head?.toList).length ≤ 1 := by cases k.links.head? <;> simp
      rw [hshape, ← h, List.length_cons] at hlength
      have hnil : cs.length = 0 := by
        have := hlength ▸ hone
        omega
      rw [List.eq_nil_of_length_eq_zero hnil]
      rfl
  · rfl

theorem Node.copy_links (n : Node H) (id : NodeId) (board : BlackboardId) {cs : List NodeId}
    (h : cs.length = n.links.length) : (n.copy id cs board).links = cs := by
  obtain ⟨htype, hlinks⟩ := n.kind.authored_same
  change (n.kind.authored.setLinks cs).links = cs
  rw [(n.kind.authored.setLinks_links cs).2]
  refine NodeType.fit_of_length (k := n.kind.authored) ?_
  rw [hlinks]
  exact h

namespace CopyOf

variable {n n' : Node H}

theorem guid (h : CopyOf copies used n n') : n'.guid = n.guid := by
  obtain ⟨board, hmade⟩ := h.made
  rw [hmade]
  rfl

theorem type (h : CopyOf copies used n n') : n'.nodeType = n.nodeType := by
  obtain ⟨board, hmade⟩ := h.made
  rw [hmade]
  exact (n.kind.authored.setLinks_links _).1.trans n.kind.authored_same.1

theorem idle (h : CopyOf copies used n n') : n'.running = false := by
  obtain ⟨board, hmade⟩ := h.made
  rw [hmade]
  rfl

/-- What is in use and linked to by a copy is a copy of what the original links to. -/
theorem links (h : CopyOf copies used n n') (c' : NodeId) (hc : c' ∈ n'.links)
    (hused : used c'.uuid) : ∃ c ∈ n.links, copies.lookup c = some c' := by
  obtain ⟨c, hmem, hfollows⟩ := exists_of_mem_right h.follows hc
  exact ⟨c, hmem, hfollows.resolve_right fun hfresh => hfresh.2 hused⟩

theorem mono {used' : Uuid → Prop} (h : CopyOf copies used' n n') (hused : ∀ u, used u → used' u) :
    CopyOf copies used n n' :=
  ⟨h.id, h.made, h.follows.imp fun _ _ hc => hc.mono hused⟩

end CopyOf

theorem copyNode_spec (board : BlackboardId) {n : Node H} {s : IdSupply} {id : NodeId}
    (hid : copies.lookup n.id = some id) (hs : s.Fresh limit used)
    (himages : ∀ d x, copies.lookup d = some x → used x.uuid)
    (hlimit : (copyNode copies board n s).2.drawn ≤ limit) :
    CopyOf copies used n (copyNode copies board n s).1 ∧
      Renames copies s n.links (copyNode copies board n s).1.links
        (copyNode copies board n s).2 := by
  have hrenames := followCopy_renames copies n.links s
  have hrun : copyNode copies board n s =
      (n.copy id (n.links.mapM (followCopy copies) s).1 board,
        (n.links.mapM (followCopy copies) s).2) := by
    change (do
      let links ← n.links.mapM (followCopy copies)
      pure (n.copy (followCopy copies n.id s).1 links board) : Minting (Node H))
        (followCopy copies n.id s).2 = _
    rw [followCopy_some hid]
    rfl
  have hlinks := n.copy_links id board hrenames.length_eq
  rw [hrun] at hlimit ⊢
  -- The copy keeps every new link because there are as many as before, and they fit the type.
  refine ⟨⟨hid, ⟨board, ?_⟩, ?_⟩, ?_⟩
  · rw [hlinks]
    rfl
  · rw [hlinks]
    exact hrenames.follows himages hs hlimit
  · rw [hlinks]
    exact hrenames

theorem copyNodes_spec (board : BlackboardId) {l : List (Node H)} {s : IdSupply}
    (hl : ∀ n ∈ l, ∃ id, copies.lookup n.id = some id) (hs : s.Fresh limit used)
    (himages : ∀ d x, copies.lookup d = some x → used x.uuid)
    (hlimit : (l.mapM (copyNode copies board) s).2.drawn ≤ limit) :
    List.Forall₂ (CopyOf copies used) l (l.mapM (copyNode copies board) s).1 ∧
      Renames copies s (l.flatMap (·.links))
        ((l.mapM (copyNode copies board) s).1.flatMap (·.links))
        (l.mapM (copyNode copies board) s).2 := by
  induction l generalizing s used with
  | nil =>
    rw [mapM_nil_run]
    exact ⟨.nil, .nil s⟩
  | cons n l ih =>
    obtain ⟨id, hid⟩ := hl n List.mem_cons_self
    rw [mapM_cons_run] at hlimit ⊢
    have hlater := mapM_precedes (copyNode_precedes copies board) l (copyNode copies board n s).2
    obtain ⟨hcopy, hrenames⟩ := copyNode_spec board hid hs himages (hlater.within hlimit)
    -- For the nodes that follow, what this copy's links have drawn is in use as well.
    obtain ⟨hrest, hrenames'⟩ := ih (fun m hm => hl m (List.mem_cons_of_mem n hm))
      (hrenames.fresh_after himages hs) (fun d x hx => Or.inl (himages d x hx)) hlimit
    refine ⟨.cons hcopy (hrest.imp fun _ _ h => h.mono fun _ => Or.inl), ?_⟩
    rw [List.flatMap_cons, List.flatMap_cons]
    exact hrenames.append hrenames'

end Copies

/-! ### A copy of a tree -/

namespace Tree

variable {t t' : Tree H} {supply start : IdSupply} {limit : Nat} {used : Uuid → Prop}
  {copies : List (NodeId × NodeId)}

/-- What is in use once copies have their identifiers. -/
def InUse (copies : List (NodeId × NodeId)) (used : Uuid → Prop) (u : Uuid) : Prop :=
  used u ∨ ∃ x ∈ copies.map (·.2), x.uuid = u

/-- How a tree and what is left to draw on come about as a copy. -/
structure CopiedBy (copies : List (NodeId × NodeId)) (start : IdSupply) (limit : Nat)
    (used : Uuid → Prop) (t t' : Tree H) (supply : IdSupply) : Prop where
  originals : copies.map (·.1) = t.reachable
  distinct : (copies.map (·.2)).Nodup
  unused : ∀ x ∈ copies.map (·.2), ¬ used x.uuid
  fresh : start.Fresh limit (InUse copies used)
  nodes : List.Forall₂ (CopyOf copies (InUse copies used)) t.traverse t'.nodes
  links : Renames copies start (t.traverse.flatMap (·.links)) (t'.nodes.flatMap (·.links)) supply
  root : copies.lookup t.root = some t'.root
  made : ∃ board, t' = ⟨t'.root, t'.nodes, .empty board, none, t.registry, t.seed,
    choiceRng t.seed none, .running, []⟩
  within : supply.drawn ≤ limit

theorem inUse_of_lookup {c x : NodeId} (h : copies.lookup c = some x) :
    InUse copies used x.uuid :=
  Or.inr ⟨x, List.mem_map_of_mem (mem_of_lookup h), rfl⟩

theorem lookup_of_reachable (h : copies.map (·.1) = t.reachable) {id : NodeId}
    (hid : id ∈ t.reachable) : ∃ x, copies.lookup id = some x := by
  rw [← h] at hid
  obtain ⟨⟨c, x⟩, hcx, rfl⟩ := List.mem_map.mp hid
  refine ⟨x, TreeTemplate.lookup_of_mem ?_ hcx⟩
  rw [h]
  exact t.reachable_nodup

theorem instantiate_precedes (t : Tree H) (supply : IdSupply) :
    supply.Precedes (t.instantiate supply).2 := by
  let drawn := t.reachable.mapM mintBeside supply
  let start := drawn.2.draw.2
  let nodes := t.traverse.mapM (copyNode drawn.1 ⟨drawn.2.draw.1⟩) start
  let named := followCopy drawn.1 t.root nodes.2
  calc IdSupply.Precedes supply drawn.2 := mapM_precedes mintBeside_precedes t.reachable supply
    IdSupply.Precedes _ start := drawn.2.precedes_draw
    IdSupply.Precedes _ nodes.2 := mapM_precedes (copyNode_precedes drawn.1 _) t.traverse start
    IdSupply.Precedes _ named.2 := followCopy_precedes drawn.1 t.root nodes.2
    IdSupply.Precedes _ (t.instantiate supply).2 := ensureRoot_precedes _ named.2

/-- The root of a tree with a live root is copied, so the copy needs no new one. -/
theorem instantiate_copied (hlive : t.contains t.root) (hfresh : supply.Fresh limit used)
    (hlimit : (t.instantiate supply).2.drawn ≤ limit) :
    ∃ copies start, CopiedBy copies start limit used t (t.instantiate supply).1
      (t.instantiate supply).2 := by
  let drawn := t.reachable.mapM mintBeside supply
  let board : BlackboardId := ⟨drawn.2.draw.1⟩
  let start := drawn.2.draw.2
  let nodes := t.traverse.mapM (copyNode drawn.1 board) start
  -- Nothing is ever put back, so the limit holds all the way.
  have hnodesLimit : nodes.2.drawn ≤ limit :=
    ((followCopy_precedes drawn.1 t.root nodes.2).trans (ensureRoot_precedes _ _)).within hlimit
  have hstartLimit : start.drawn ≤ limit :=
    (mapM_precedes (copyNode_precedes drawn.1 board) t.traverse start).within hnodesLimit
  obtain ⟨horiginals, hdistinct, hunused, hdrawn⟩ :=
    mintBeside_spec hfresh (drawn.2.precedes_draw.within hstartLimit)
  have hstart : start.Fresh limit (InUse drawn.1 used) := hdrawn.later drawn.2.precedes_draw
  have hcopied : ∀ n ∈ t.traverse, ∃ id, drawn.1.lookup n.id = some id := fun n hn =>
    lookup_of_reachable horiginals (t.traverse_ids ▸ List.mem_map_of_mem hn)
  obtain ⟨hnodes, hlinks⟩ := copyNodes_spec board hcopied hstart
    (fun _ _ => inUse_of_lookup) hnodesLimit
  obtain ⟨root, hroot⟩ := lookup_of_reachable horiginals (root_reachable hlive)
  let copy : Tree H := ⟨root, nodes.1, .empty board, none, t.registry, t.seed,
    choiceRng t.seed none, .running, []⟩
  -- The root is live, so it is met and copied: the copy needs no root of its own.
  have hrootCopied : copy.contains root := by
    obtain ⟨n, hn⟩ := Option.isSome_iff_exists.mp hlive
    obtain ⟨-, hid⟩ := node?_some hn
    have hmem : n ∈ t.traverse := List.mem_filterMap.mpr ⟨t.root, root_reachable hlive, hn⟩
    obtain ⟨n', hn', hcopy⟩ := exists_of_mem_right hnodes.flip hmem
    refine contains_iff.mpr (List.mem_map.mpr ⟨n', hn', ?_⟩)
    have hsame := hcopy.id
    rw [hid, hroot] at hsame
    exact (Option.some.inj hsame).symm
  have hrun : t.instantiate supply = (copy, nodes.2) := by
    change ensureRoot ⟨(followCopy drawn.1 t.root nodes.2).1, nodes.1, .empty board, none,
      t.registry, t.seed, choiceRng t.seed none, .running, []⟩
      (followCopy drawn.1 t.root nodes.2).2 = _
    rw [followCopy_some hroot]
    unfold ensureRoot
    rw [if_pos hrootCopied]
    rfl
  refine ⟨drawn.1, start, ?_⟩
  rw [hrun]
  exact ⟨horiginals, hdistinct, hunused, hstart, hnodes, hlinks, hroot, ⟨board, rfl⟩, hnodesLimit⟩

namespace CopiedBy

theorem origin (h : CopiedBy copies start limit used t t' supply)
    {n' : Node H} (hn' : n' ∈ t'.nodes) :
    ∃ n ∈ t.traverse, CopyOf copies (InUse copies used) n n' :=
  exists_of_mem_right h.nodes hn'

theorem ids_nodup (h : CopiedBy copies start limit used t t' supply) : t'.ids.Nodup := by
  -- Copies of distinct nodes are distinct, seen through the lookup that gives them.
  have hids : t'.ids.map some = t.reachable.map (fun c => copies.lookup c) := by
    rw [← t.traverse_ids, List.map_map, ids, List.map_map]
    exact map_eq_of_forall₂ h.nodes fun _ _ hcopy => hcopy.id.symm
  refine List.Nodup.of_map some ?_
  rw [hids]
  refine t.reachable_nodup.map_on fun c hc d _ hcd => ?_
  obtain ⟨x, hx⟩ := lookup_of_reachable h.originals hc
  exact lookup_injective h.distinct c d x hx (hcd ▸ hx)

theorem mem_ids (h : CopiedBy copies start limit used t t' supply)
    {id : NodeId} (hid : id ∈ t'.ids) :
    id ∈ copies.map (·.2) := by
  obtain ⟨n', hn', rfl⟩ := List.mem_map.mp hid
  obtain ⟨n, -, hcopy⟩ := h.origin hn'
  exact List.mem_map_of_mem (mem_of_lookup hcopy.id)

theorem idle (h : CopiedBy copies start limit used t t' supply)
    {n' : Node H} (hn' : n' ∈ t'.nodes) :
    n'.running = false := by
  obtain ⟨n, -, hcopy⟩ := h.origin hn'
  exact hcopy.idle

theorem fresh_after (h : CopiedBy copies start limit used t t' supply) :
    supply.Fresh limit fun u =>
      InUse copies used u ∨ ∃ c ∈ t'.nodes.flatMap (·.links), c.uuid = u :=
  h.links.fresh_after (fun _ _ => inUse_of_lookup) h.fresh

/-- A link to a copy is the copy of a link. -/
theorem linked (h : CopiedBy copies start limit used t t' supply) {p' c' : NodeId}
    (hlink : Linked t'.profiles p' c') (hc : c' ∈ t'.ids) :
    ∃ p c, copies.lookup p = some p' ∧ copies.lookup c = some c' ∧ Linked t.profiles p c := by
  obtain ⟨n', hn', rfl, hc'⟩ := linked_profiles.mp hlink
  obtain ⟨n, hn, hcopy⟩ := h.origin hn'
  obtain ⟨c, hmem, hlookup⟩ := hcopy.links c' hc' (Or.inr ⟨c', h.mem_ids hc, rfl⟩)
  exact ⟨n.id, c, hcopy.id, hlookup, linked_profiles.mpr ⟨n, mem_of_traverse hn, rfl, hmem⟩⟩

/-- The way from a copy to a copy is the copy of a way. -/
theorem leads (h : CopiedBy copies start limit used t t' supply) {p' c' : NodeId}
    (hleads : TransGen (Linked t'.profiles) p' c') (hc : c' ∈ t'.ids) :
    ∃ p c, copies.lookup p = some p' ∧ copies.lookup c = some c' ∧
      TransGen (Linked t.profiles) p c := by
  induction hleads with
  | single hlink =>
    obtain ⟨p, c, hp, hc, hlink⟩ := h.linked hlink hc
    exact ⟨p, c, hp, hc, .single hlink⟩
  | tail _ hlink ih =>
    obtain ⟨q, c, hq, hc, hlast⟩ := h.linked hlink hc
    -- The link's start is live, so the way up to it is a copy too, and of the same node.
    obtain ⟨n', hn', rfl, -⟩ := linked_profiles.mp hlink
    obtain ⟨p, q', hp, hq', hleads⟩ := ih (List.mem_map_of_mem hn')
    obtain rfl := lookup_injective h.distinct q q' _ hq hq'
    exact ⟨p, c, hp, hc, hleads.tail hlast⟩

/-- The reachable nodes are some of all, in another order. -/
theorem traverse_subperm (t : Tree H) : t.traverse <+~ t.nodes := by
  have hnodup : t.traverse.Nodup := by
    refine List.Nodup.of_map (·.id) ?_
    rw [traverse_ids]
    exact t.reachable_nodup
  exact List.subperm_of_subset hnodup fun n hn => mem_of_traverse hn

theorem forest (h : CopiedBy copies start limit used t t' supply) (hforest : Forest t.profiles) :
    Forest t'.profiles := by
  obtain ⟨originals, hperm, hsub⟩ := traverse_subperm t
  refine ⟨?_, ?_, ?_, fun id hcycle => ?_⟩
  · rw [map_id_profiles]
    exact h.ids_nodup
  · have hguids : t'.profiles.map (·.guid) = t.traverse.map (·.guid) := by
      rw [profiles, List.map_map]
      exact map_eq_of_forall₂ h.nodes fun _ _ hcopy => hcopy.guid
    have hall : (t.nodes.map (·.guid)).Nodup := by
      have hguids := hforest.guids
      rwa [profiles, List.map_map] at hguids
    rw [hguids]
    exact (hperm.map _).nodup_iff.mp (hall.sublist (hsub.map _))
  · have hall : (t.nodes.flatMap (·.links)).Nodup := t.linksOf_profiles ▸ hforest.links
    rw [linksOf_profiles]
    refine h.links.nodup (fun _ _ => inUse_of_lookup) h.fresh h.within
      (lookup_injective h.distinct) ?_
    exact (hperm.flatMap_right _).nodup_iff.mp (hall.sublist (hsub.flatMap _))
  -- A cycle of copies would be the copy of a cycle.
  · obtain ⟨_, ⟨b', hb', hid, -⟩, -⟩ := TransGen.head'_iff.mp hcycle
    have hlive : id ∈ t'.ids := by
      rw [← map_id_profiles]
      exact List.mem_map.mpr ⟨b', hb', hid⟩
    obtain ⟨p, c, hp, hc, hleads⟩ := h.leads hcycle hlive
    obtain rfl := lookup_injective h.distinct p c id hp hc
    exact hforest.acyclic p hleads

theorem rooted (h : CopiedBy copies start limit used t t' supply) (hids : t.ids.Nodup)
    (hrooted : Rooted t.root t.profiles) : Rooted t'.root t'.profiles := by
  obtain ⟨b, hb, hroot, htype⟩ := hrooted.live
  obtain ⟨r, hr, rfl⟩ := List.mem_map.mp hb
  have hid : r.id = t.root := hroot
  have hlive : t.contains t.root := contains_iff.mpr (hid ▸ List.mem_map_of_mem hr)
  refine ⟨?_, fun hmem => ?_⟩
  · have hreached : r.id ∈ t.traverse.map (·.id) := by
      rw [hid, traverse_ids]
      exact root_reachable hlive
    obtain ⟨n, hn, hnid⟩ := List.mem_map.mp hreached
    have hsame : n = r := List.inj_on_of_nodup_map hids (mem_of_traverse hn) hr hnid
    obtain ⟨n', hn', hcopy⟩ := exists_of_mem_right h.nodes.flip hn
    refine ⟨n'.profile, List.mem_map_of_mem hn', ?_, ?_⟩
    · have hcopied := hcopy.id
      rw [hsame, hid, h.root] at hcopied
      exact (Option.some.inj hcopied).symm
    · exact hcopy.type.trans (hsame ▸ htype)
  -- Only the original's root has the root's copy, and nothing links to that root.
  · rw [linksOf_profiles] at hmem
    obtain ⟨c, hc, hlookup⟩ := h.links.of_used (fun _ _ => inUse_of_lookup) h.fresh h.within hmem
      (inUse_of_lookup h.root)
    obtain rfl := lookup_injective h.distinct c t.root _ hlookup h.root
    refine hrooted.free ?_
    rw [linksOf_profiles]
    obtain ⟨n, hn, hc⟩ := List.mem_flatMap.mp hc
    exact List.mem_flatMap.mpr ⟨n, mem_of_traverse hn, hc⟩

end CopiedBy

theorem Sound.instantiate (h : t.Sound limit supply)
    (hlimit : (t.instantiate supply).2.drawn ≤ limit) :
    (t.instantiate supply).1.Sound limit (t.instantiate supply).2 := by
  obtain ⟨b, hb, hid, -⟩ := h.rooted.live
  have hlive : t.contains t.root := by
    rw [contains_iff, ← map_id_profiles]
    exact List.mem_map.mpr ⟨b, hb, hid⟩
  obtain ⟨copies, start, hcopied⟩ := instantiate_copied hlive h.fresh hlimit
  refine ⟨hcopied.forest h.forest, hcopied.rooted h.keyed h.rooted,
    hcopied.fresh_after.mono fun u hu => ?_⟩
  obtain ⟨b', hb', hu⟩ := hu
  obtain ⟨n', hn', rfl⟩ := List.mem_map.mp hb'
  -- Identifiers and links of copies were drawn for them; authored ones come from the original.
  rcases hu with rfl | rfl | ⟨c', hc', rfl⟩
  · exact Or.inl (Or.inr ⟨n'.id, hcopied.mem_ids (List.mem_map_of_mem hn'), rfl⟩)
  · obtain ⟨n, hn, hcopy⟩ := hcopied.origin hn'
    refine Or.inl (Or.inl ⟨n.profile, List.mem_map_of_mem (mem_of_traverse hn), ?_⟩)
    exact Or.inr (Or.inl (congrArg NodeId.uuid hcopy.guid.symm))
  · exact Or.inr ⟨c', List.mem_flatMap.mpr ⟨n', hn', hc'⟩, rfl⟩

end Tree

end BehaviourTree
