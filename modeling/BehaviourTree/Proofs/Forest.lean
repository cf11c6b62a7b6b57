import BehaviourTree.Proofs.Links
import BehaviourTree.Proofs.Profile
import Mathlib.Data.List.Flatten
import Mathlib.Data.List.Perm.Subperm

/-!
Forests: nodes that no identifier is linked from twice, without circles. What takes links or nodes
away keeps a forest, and so does a new link to a node without a parent that does not lead back.
-/

namespace BehaviourTree

open Relation
open scoped List

/-! ### Graphs of profiles -/

/-- One of some nodes links to another, which need not be among them. -/
def Linked (ps : List Profile) (p c : NodeId) : Prop := ∃ b ∈ ps, b.id = p ∧ c ∈ b.links

/-- All links of some nodes. -/
def linksOf (ps : List Profile) : List NodeId := ps.flatMap (·.links)

/-- Nodes that are told apart by their identifiers and by their authored identities, that share no
link, and among which links do not lead in circles. -/
structure Forest (ps : List Profile) : Prop where
  ids : (ps.map (·.id)).Nodup
  guids : (ps.map (·.guid)).Nodup
  links : (linksOf ps).Nodup
  acyclic : ∀ id, ¬ TransGen (Linked ps) id id

/-- A root among some nodes, that none of them links to. -/
structure Rooted (root : NodeId) (ps : List Profile) : Prop where
  live : ∃ b ∈ ps, b.id = root ∧ b.type = .root
  free : root ∉ linksOf ps

/-- Nodes that are left after some are gone or have lost links, in whatever order their links are
now. -/
structure Pares (ps ps' : List Profile) : Prop where
  origin : ∀ b' ∈ ps', ∃ b ∈ ps, b.id = b'.id ∧ b.guid = b'.guid ∧ b.type = b'.type ∧
    b'.links <+~ b.links
  ids : (ps'.map (·.id)).Sublist (ps.map (·.id))
  guids : (ps'.map (·.guid)).Sublist (ps.map (·.guid))
  links : linksOf ps' <+~ linksOf ps

variable {ps ps' ps'' : List Profile} {root p c : NodeId}

theorem nodup_of_subperm {α : Type} {xs ys : List α} (h : xs <+~ ys) (hys : ys.Nodup) :
    xs.Nodup := by
  obtain ⟨zs, hperm, hsub⟩ := h
  exact hperm.nodup_iff.mp (hys.sublist hsub)

/-! ### Taking away -/

theorem Pares.linked (h : Pares ps ps') (hlink : Linked ps' p c) : Linked ps p c := by
  obtain ⟨b', hb', rfl, hc⟩ := hlink
  obtain ⟨b, hb, hid, -, -, hlinks⟩ := h.origin b' hb'
  exact ⟨b, hb, hid, hlinks.subset hc⟩

theorem Pares.forest (h : Pares ps ps') (hps : Forest ps) : Forest ps' where
  ids := hps.ids.sublist h.ids
  guids := hps.guids.sublist h.guids
  links := nodup_of_subperm h.links hps.links
  acyclic id hcycle := hps.acyclic id (TransGen.mono (fun _ _ => h.linked) id id hcycle)

theorem Pares.free (h : Pares ps ps') (hfree : root ∉ linksOf ps) : root ∉ linksOf ps' :=
  fun hmem => hfree (h.links.subset hmem)

theorem Pares.rooted (h : Pares ps ps') (hps : Rooted root ps) (hids : (ps.map (·.id)).Nodup)
    (hlive : root ∈ ps'.map (·.id)) : Rooted root ps' := by
  refine ⟨?_, h.free hps.free⟩
  obtain ⟨b', hb', hid'⟩ := List.mem_map.mp hlive
  obtain ⟨b, hb, hid, -, htype, -⟩ := h.origin b' hb'
  obtain ⟨r, hr, hrid, hrtype⟩ := hps.live
  -- The node with the identifier of the root was the root already.
  have hsame : b = r := List.inj_on_of_nodup_map hids hb hr (hid.trans (hid'.trans hrid.symm))
  exact ⟨b', hb', hid', by rw [← htype, hsame, hrtype]⟩

theorem Pares.refl (ps : List Profile) : Pares ps ps :=
  ⟨fun b hb => ⟨b, hb, rfl, rfl, rfl, .refl _⟩, .refl _, .refl _, .refl _⟩

theorem linksOf_subperm {α : Type} {l : List α} {f g : α → Profile}
    (h : ∀ a ∈ l, (g a).links <+~ (f a).links) : linksOf (l.map g) <+~ linksOf (l.map f) := by
  induction l with
  | nil => exact .refl _
  | cons a l ih =>
    have hrest := ih fun d hd => h d (List.mem_cons_of_mem a hd)
    exact (h a List.mem_cons_self).append hrest

/-- Each node may lose links and change in what does not concern the graph. -/
theorem pares_map {α : Type} {l : List α} {f g : α → Profile}
    (h : ∀ a ∈ l, (g a).id = (f a).id ∧ (g a).guid = (f a).guid ∧ (g a).type = (f a).type ∧
      (g a).links <+~ (f a).links) : Pares (l.map f) (l.map g) := by
  have hids : (l.map g).map (·.id) = (l.map f).map (·.id) := by
    rw [List.map_map, List.map_map]
    exact List.map_congr_left fun a ha => (h a ha).1
  have hguids : (l.map g).map (·.guid) = (l.map f).map (·.guid) := by
    rw [List.map_map, List.map_map]
    exact List.map_congr_left fun a ha => (h a ha).2.1
  refine ⟨?_, hids ▸ .refl _, hguids ▸ .refl _, linksOf_subperm fun a ha => (h a ha).2.2.2⟩
  intro b' hb'
  obtain ⟨a, ha, rfl⟩ := List.mem_map.mp hb'
  obtain ⟨hid, hguid, htype, hlinks⟩ := h a ha
  exact ⟨f a, List.mem_map_of_mem ha, hid.symm, hguid.symm, htype.symm, hlinks⟩

theorem pares_filter (keep : Profile → Bool) (ps : List Profile) : Pares ps (ps.filter keep) := by
  have hsub : (ps.filter keep).Sublist ps := List.filter_sublist
  refine ⟨?_, hsub.map _, hsub.map _, (hsub.flatMap _).subperm⟩
  intro b hb
  exact ⟨b, List.mem_of_mem_filter hb, rfl, rfl, rfl, .refl _⟩

/-! ### Adding -/

/-- A new node without links. -/
theorem Forest.add (h : Forest ps) {b : Profile} (hid : b.id ∉ ps.map (·.id))
    (hguid : b.guid ∉ ps.map (·.guid)) (hlinks : b.links = []) : Forest (ps ++ [b]) := by
  have hsame : linksOf (ps ++ [b]) = linksOf ps := by simp [linksOf, hlinks]
  refine ⟨?_, ?_, hsame ▸ h.links, ?_⟩
  · rw [List.map_append, List.map_singleton]
    rw [← List.concat_eq_append]
    exact h.ids.concat hid
  · rw [List.map_append, List.map_singleton]
    rw [← List.concat_eq_append]
    exact h.guids.concat hguid
  · intro id hcycle
    refine h.acyclic id (TransGen.mono (fun p c hlink => ?_) id id hcycle)
    obtain ⟨d, hd, hid, hc⟩ := hlink
    rcases List.mem_append.mp hd with hd | hd
    · exact ⟨d, hd, hid, hc⟩
    · obtain rfl := List.mem_singleton.mp hd
      simp [hlinks] at hc

theorem Rooted.add (h : Rooted root ps) {b : Profile} (hlinks : b.links = []) :
    Rooted root (ps ++ [b]) := by
  have hsame : linksOf (ps ++ [b]) = linksOf ps := by simp [linksOf, hlinks]
  obtain ⟨r, hr, hroot⟩ := h.live
  exact ⟨⟨r, List.mem_append_left _ hr, hroot⟩, hsame ▸ h.free⟩

/-- Some nodes with one more link at the end of the list of `p`. -/
def withLink (p c : NodeId) (ps : List Profile) : List Profile :=
  ps.map fun b => if b.id = p then { b with links := b.links ++ [c] } else b

theorem linked_withLink {x y : NodeId} (h : Linked (withLink p c ps) x y) :
    Linked ps x y ∨ x = p ∧ y = c := by
  obtain ⟨b', hb', hx, hy⟩ := h
  obtain ⟨b, hb, rfl⟩ := List.mem_map.mp hb'
  by_cases hp : b.id = p
  · rw [if_pos hp] at hx hy
    rcases List.mem_append.mp hy with hy | hy
    · exact Or.inl ⟨b, hb, hx, hy⟩
    · exact Or.inr ⟨hx.symm.trans hp, List.mem_singleton.mp hy⟩
  · rw [if_neg hp] at hx hy
    exact Or.inl ⟨b, hb, hx, hy⟩

/-- Of nodes with different identifiers, at most one gets the new link. -/
theorem linksOf_withLink (hids : (ps.map (·.id)).Nodup) :
    linksOf (withLink p c ps) <+~ c :: linksOf ps := by
  induction ps with
  | nil => exact List.nil_subperm
  | cons b ps ih =>
    obtain ⟨hb, hids⟩ := List.nodup_cons.mp hids
    by_cases hp : b.id = p
    -- This is the node that gets the link, and none of the others has its identifier.
    · have hrest : withLink p c ps = ps := by
        unfold withLink
        conv_rhs => rw [← List.map_id ps]
        apply List.map_congr_left
        intro d hd
        have hne : d.id ≠ p := fun h => hb (List.mem_map.mpr ⟨d, hd, h.trans hp.symm⟩)
        simp [hne]
      have hlinks : linksOf (withLink p c (b :: ps)) = b.links ++ c :: linksOf ps := by
        change (if b.id = p then _ else b).links ++ linksOf (withLink p c ps) = _
        rw [if_pos hp, hrest, List.append_assoc, List.singleton_append]
      rw [hlinks]
      exact List.perm_middle.subperm
    · have hlinks : linksOf (withLink p c (b :: ps)) = b.links ++ linksOf (withLink p c ps) := by
        change (if b.id = p then _ else b).links ++ linksOf (withLink p c ps) = _
        rw [if_neg hp]
      rw [hlinks]
      have hlater := (List.Subperm.refl b.links).append (ih hids)
      exact hlater.trans List.perm_middle.subperm

/-- A link to a node without a parent that does not lead back to `p`. -/
theorem Forest.link (h : Forest ps) (hfree : c ∉ linksOf ps)
    (hback : ¬ ReflTransGen (Linked ps) c p) : Forest (withLink p c ps) := by
  have hmap (f : Profile → NodeId)
      (hf : ∀ b : Profile, f { b with links := b.links ++ [c] } = f b) : (withLink p c ps).map f = ps.map f := by
    unfold withLink
    rw [List.map_map]
    apply List.map_congr_left
    intro b _
    change f (if b.id = p then _ else b) = f b
    split
    · exact hf b
    · rfl
  refine ⟨?_, ?_, ?_, ?_⟩
  · rw [hmap _ fun _ => rfl]
    exact h.ids
  · rw [hmap _ fun _ => rfl]
    exact h.guids
  · exact nodup_of_subperm (linksOf_withLink h.ids) (List.nodup_cons.mpr ⟨hfree, h.links⟩)
  · -- A circle has to use the new link, and what follows it would lead back.
    have hsplit {x y : NodeId} (hxy : TransGen (Linked (withLink p c ps)) x y) :
        TransGen (Linked ps) x y ∨ ReflTransGen (Linked ps) x p ∧ ReflTransGen (Linked ps) c y := by
      induction hxy with
      | single hxy =>
        rcases linked_withLink hxy with hxy | ⟨rfl, rfl⟩
        · exact Or.inl (TransGen.single hxy)
        · exact Or.inr ⟨.refl, .refl⟩
      | tail _ hyz ih =>
        rcases linked_withLink hyz with hyz | ⟨rfl, rfl⟩
        · rcases ih with hxy | ⟨hxp, hcy⟩
          · exact Or.inl (hxy.tail hyz)
          · exact Or.inr ⟨hxp, hcy.tail hyz⟩
        · rcases ih with hxy | ⟨-, hcy⟩
          · exact Or.inr ⟨hxy.to_reflTransGen, .refl⟩
          · exact (hback hcy).elim
    intro id hcycle
    rcases hsplit hcycle with hcycle | ⟨hidp, hcid⟩
    · exact h.acyclic id hcycle
    · exact hback (hcid.trans hidp)

theorem Rooted.link (h : Rooted root ps) (hids : (ps.map (·.id)).Nodup) (hne : c ≠ root) :
    Rooted root (withLink p c ps) := by
  obtain ⟨r, hr, hid, htype⟩ := h.live
  refine ⟨⟨_, List.mem_map_of_mem hr, ?_, ?_⟩, ?_⟩
  · split <;> exact hid
  · split <;> exact htype
  · intro hmem
    rcases List.mem_cons.mp ((linksOf_withLink hids).subset hmem) with heq | hmem
    · exact hne heq.symm
    · exact h.free hmem

end BehaviourTree
