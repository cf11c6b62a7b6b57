import BehaviourTree.Proofs.InstanceRuns
import BehaviourTree.Proofs.Reload

/-!
What is read back runs as what was written: instances of a tree that was made by name and never ran,
and of what it is read back as, cannot be told apart but by identifiers.
-/

namespace BehaviourTree

variable {H : Host} {registry : Registry H}

/-! ### Nodes that never ran -/

namespace NodeKind

theorem setLinks_authored (k : NodeKind H) (cs : List NodeId) :
    (k.setLinks cs).authored = k.authored.setLinks cs := by
  cases k <;> rfl

theorem authored_authored (k : NodeKind H) : k.authored.authored = k.authored := by
  cases k <;> rfl

end NodeKind

/-- The operations of an author: nodes are made by name, and nothing is run. -/
def Operation.Authoring : Operation H → Prop
  | .add _ | .tick _ => False
  | _ => True

theorem Operation.Authoring.byName {op : Operation H} (h : op.Authoring) : op.ByName := by
  cases op with
  | add _ => exact h.elim
  | _ => exact trivial

/-- A node that is still what its prototype is, but for links. -/
def Node.AsMade (registry : Registry H) (n : Node H) : Prop :=
  ∃ k cs, registry.prototype? n.typeName = some k ∧ n.kind.authored = k.authored.setLinks cs

theorem asMade_hereditary (hkinds : registry.Tidy) :
    Hereditary registry Operation.Authoring fun _ n => n.AsMade registry where
  root := by
    intro n htypeName hkind
    exact ⟨.root none, [], by rw [htypeName]; rfl, by rw [hkind]; rfl⟩
  described := by
    rintro root board a n ⟨k, hk, -, rfl⟩ -
    obtain ⟨cs, hlink⟩ := TreeTemplate.linkKind_setLinks a k
    refine ⟨k, cs, TreeTemplate.kindOf_ok_iff.mp hk, ?_⟩
    exact (congrArg NodeKind.authored hlink).trans (k.setLinks_authored cs)
  made := by
    intro root op n hop hmade
    cases hmade with
    | create typeName registered =>
      have hproto := hkinds.prototype?_of_create? (typeName ▸ registered)
      exact ⟨n.kind, n.kind.authored.links, hproto, n.kind.authored.setLinks_self.symm⟩
    | add _ _ => exact hop.elim
  edited := by
    rintro root n n' ⟨k, cs, hk, hkind⟩ hedited
    obtain ⟨ds, hkind'⟩ := hedited.kind
    refine ⟨k, ds, hedited.typeName ▸ hk, ?_⟩
    rw [hkind', NodeKind.setLinks_authored, hkind, NodeKind.setLinks_setLinks]
  ticked := fun hop _ _ => hop.elim
  rerooted := fun h _ => h
  copied := by
    rintro root root' n id links board ⟨k, cs, hk, hkind⟩ -
    refine ⟨k, links, hk, ?_⟩
    change (n.kind.authored.setLinks links).authored = _
    rw [NodeKind.setLinks_authored, NodeKind.authored_authored, hkind, NodeKind.setLinks_setLinks]

/-! ### Twins -/

namespace Tree

variable {t t' : Tree H} {board : BlackboardId}

theorem Restores.roots_live (h : t.Restores t') : t.contains t.root ∧ t'.contains t'.root := by
  obtain ⟨r, hr, -, hguid⟩ := h.root
  obtain ⟨r', hr', -⟩ := Option.map_eq_some_iff.mp hguid
  exact ⟨by rw [contains, hr, Option.isSome_some], by rw [contains, hr', Option.isSome_some]⟩

/-- Each node beside the one that bears its authored identity as its identifier. -/
def Restores.pairing (h : t.Restores t') (hform : t.WellFormed) : Pairing where
  ids := t.ids
  ids' := t'.ids
  twins a b := t.guid? a = some b
  live {a b} hab := by
    obtain ⟨n, hn, rfl, rfl⟩ := guid?_eq_some hab
    exact ⟨List.mem_map_of_mem hn, h.ids ▸ List.mem_map_of_mem hn⟩
  unique {a b c d} hab hcd := by
    constructor
    · rintro rfl
      exact Option.some.inj (hab.symm.trans hcd)
    · rintro rfl
      obtain ⟨n, hn, rfl, hnguid⟩ := guid?_eq_some hab
      obtain ⟨m, hm, rfl, hmguid⟩ := guid?_eq_some hcd
      rw [hform.guid_injective hn hm (hnguid.trans hmguid.symm)]

/-- A node that never ran and what it is read back as are made of one prototype, so they are twins
if their links go together. -/
theorem described_twin {P : Pairing} (hkinds : registry.Tidy) {n n' : Node H}
    (hmade : n.MadeByName registry t.root) (hasMade : n.AsMade registry)
    (h : TreeTemplate.Describes registry board (t.authorNode n) n') (hid : P.twins n.id n'.id)
    (hlinks : List.Forall₂ P.Links n.links n'.links) : n.pristine.Twin P n'.pristine := by
  obtain ⟨k, cs, hk, hkind⟩ := hasMade
  obtain ⟨k', hk', -, hn'⟩ := h
  obtain rfl := Option.some.inj (hk.symm.trans ((kindOf_authorNode hkinds hmade).mp hk'))
  -- Setting links undoes what was linked before, so the two differ in nothing else.
  have hkind' : n'.kind.authored = n.kind.authored.setLinks n'.links := by
    obtain ⟨ds, hlink⟩ := TreeTemplate.linkKind_setLinks (t.authorNode n) k
    have hset : n'.kind = k.setLinks ds := by
      rw [hn']
      exact hlink
    calc n'.kind.authored = (n'.kind.setLinks n'.links).authored := by
          rw [Node.links, NodeKind.setLinks_self]
      _ = k.authored.setLinks n'.links := by
          rw [hset, NodeKind.setLinks_setLinks, NodeKind.setLinks_authored]
      _ = n.kind.authored.setLinks n'.links := by rw [hkind, NodeKind.setLinks_setLinks]
  refine ⟨hid, ?_, ?_, ?_, rfl, rfl⟩
  · rw [hn']
    rfl
  · change n.kind.authored.Twin P n'.kind.authored
    rw [hkind']
    exact NodeKind.authored_twin hlinks
  · rw [hn']
    rfl

/-- If no link of a tree leads nowhere, the tree as it was made and what it is read back as are
twins, once they have the same seed. -/
theorem Restores.twin (h : t.Restores t') (hwritable : t.Writable registry)
    (hkinds : registry.Tidy) (hbuilds : t.toTemplate.Builds registry board [] t')
    (hasMade : ∀ n ∈ t.nodes, n.AsMade registry)
    (hlive : ∀ n ∈ t.nodes, ∀ c ∈ n.links, t.contains c) (seed : UInt64) :
    (t.pristine.setSeed seed).Twin (h.pairing hwritable.wellFormed)
      (t'.pristine.setSeed seed) := by
  let P := h.pairing hwritable.wellFormed
  have hpairs := described_of_builds hbuilds
  have hkeep (n : Node H) : n.pristine.id = n.id := rfl
  have hnode (t : Tree H) (id : NodeId) :
      (t.pristine.setSeed seed).node? id = (t.node? id).map Node.pristine :=
    node?_map hkeep rfl id
  have hids' : t'.ids.Nodup := h.ids ▸ hwritable.wellFormed.guidsDistinct
  have hfollow : ∀ n ∈ t.nodes, ∀ c ∈ n.links, ∃ guid, t.guid? c = some guid := by
    intro n hn c hc
    obtain ⟨m, hm⟩ := Option.isSome_iff_exists.mp (hlive n hn c hc)
    exact ⟨m.guid, by rw [guid?, hm, Option.map_some]⟩
  obtain ⟨r, hr, hroot, -⟩ := h.root
  refine ⟨?_, ids_map hkeep rfl, ids_map hkeep rfl, ?_, rfl, rfl, rfl, rfl⟩
  · change t.guid? t.root = some t'.root
    rw [guid?, hr, hroot, Option.map_some]
  · intro a b hab
    obtain ⟨n, hn, rfl, rfl⟩ := guid?_eq_some hab
    obtain ⟨n', hn', hread⟩ := exists_of_mem_right hpairs.flip hn
    have hdescribes : TreeTemplate.Describes registry board (t.authorNode n) n' := hread
    have hid : n'.id = n.guid := hdescribes.id
    have hlinks : List.Forall₂ P.Links n.links n'.links := by
      rw [hdescribes.links hkinds.linkFree]
      exact forall₂_filterMap (hfollow n hn) fun _ _ hc => Or.inl hc
    refine ⟨n.pristine, n'.pristine, ?_, ?_, ?_⟩
    · rw [hnode, node?_of_mem hwritable.wellFormed.idsDistinct hn]
      rfl
    · rw [hnode, ← hid, node?_of_mem hids' hn']
      rfl
    · have htwins : P.twins n.id n'.id := hid ▸ hab
      exact described_twin hkinds (hwritable.nodes n hn) (hasMade n hn) hdescribes htwins hlinks

end Tree

/-! ### Instances -/

namespace Tree

theorem setSeed_setSeed (t : Tree H) (seed later : UInt64) :
    (t.setSeed seed).setSeed later = t.setSeed later := by
  simp only [setSeed, reseed]

theorem setSeed_setOwner (t : Tree H) (seed : UInt64) (agent : AgentHandle) :
    (t.setSeed seed).setOwner agent = (t.setOwner agent).setSeed seed := by
  have hmine : (t.setSeed seed).reachable = t.reachable := reachable_congr rfl rfl
  unfold setOwner
  rw [hmine]
  simp only [setSeed, reseed]

/-- A seed makes no difference where one is set later. -/
theorem setSeed_configure (t : Tree H) (seed : UInt64) {later : UInt64} {settings : List Setting}
    (h : .seed later ∈ settings) : (t.setSeed seed).configure settings = t.configure settings := by
  induction settings generalizing t with
  | nil => simp at h
  | cons setting settings ih =>
    cases setting with
    | seed other =>
      change ((t.setSeed seed).setSeed other).configure settings = _
      rw [setSeed_setSeed]
      rfl
    | owner agent =>
      -- An owner and a seed can be set in either order, so the seed goes on to the later one.
      have hlater : .seed later ∈ settings := by simpa using h
      change ((t.setSeed seed).setOwner agent).configure settings = _
      rw [setSeed_setOwner]
      exact ih (t.setOwner agent) hlater

/-- A copy of a tree, made with identifiers that are not drawn twice. -/
def Instance (t i : Tree H) : Prop :=
  ∃ supply limit, supply.Fresh limit (fun _ => False) ∧ (t.instantiate supply).2.drawn ≤ limit ∧
    i = (t.instantiate supply).1

theorem Instance.account {t i : Tree H} (h : t.Instance i) (hlive : t.contains t.root)
    {worlds : H.World → H.World → Prop} (hH : H.IdBlind worlds) (settings : List Setting)
    (world world' : H.World) (hworld : worlds world world') (audience audience' : H.Audience)
    (frames : List TickContext) :
    (i.configure settings).account world' audience' frames =
      (t.pristine.configure settings).account world audience frames := by
  obtain ⟨supply, limit, hfresh, hlimit, rfl⟩ := h
  obtain ⟨copies, start, hcopied⟩ := t.instantiate_copied hlive hfresh hlimit
  exact hcopied.account hH settings world world' hworld audience audience' frames

end Tree

/-- A tree that was made by name, never ran and has no link that leads nowhere is read back as one
whose instances run like its own, with any seed and any owners that both are given, in one world:
leaves that do not look at the identifier of their node cannot tell the two apart, nor can anybody
from the answers, events, entries and draws of the runs. -/
theorem reload_runs_alike (hkinds : registry.Tidy) {limit : Nat} {s : Session H} {τ : Trace H}
    (reached : Reached registry Operation.Authoring limit s τ) (hlimit : s.supply.drawn ≤ limit)
    (hlive : ∀ n ∈ s.tree.nodes, ∀ c ∈ n.links, s.tree.contains c)
    {visit : List NodeId → List NodeId} (hvisit : ∀ ids, (visit ids).Perm ids)
    (supply : IdSupply) (hH : H.IdBlind Eq) :
    ∃ t', (Tree.ofTemplateVia visit registry s.tree.toTemplate supply).1 = .ok t' ∧
      ∀ i i' seed settings world audience audience' frames, s.tree.Instance i → t'.Instance i' →
        .seed seed ∈ settings → (i'.configure settings).account world audience' frames =
          (i.configure settings).account world audience frames := by
  have hwritable := (reached.mono fun _ => Operation.Authoring.byName).writable hkinds hlimit
  have hasMade := reached.inherit (asMade_hereditary hkinds) hkinds.linkFree
    (fun _ hop => hop.byName.linkFree) hlimit
  obtain ⟨t', board, ht', hbuilds⟩ := hwritable.reload hkinds hvisit supply
  have hrestores := hwritable.restores hkinds hbuilds
  obtain ⟨hroot, hroot'⟩ := hrestores.roots_live
  refine ⟨t', ht', fun i i' seed settings world audience audience' frames hi hi' hseed => ?_⟩
  have htwin := hrestores.twin hwritable hkinds hbuilds hasMade hlive seed
  -- An instance runs like its tree as it was made, and the two trees as they were made run alike.
  calc (i'.configure settings).account world audience' frames =
        (t'.pristine.configure settings).account world audience' frames :=
      hi'.account hroot' hH _ world world rfl audience' audience' frames
    _ = ((t'.pristine.setSeed seed).configure settings).account world audience' frames := by
      rw [Tree.setSeed_configure _ seed hseed]
    _ = ((s.tree.pristine.setSeed seed).configure settings).account world audience frames :=
      (htwin.configure settings).account hH rfl audience audience' frames
    _ = (s.tree.pristine.configure settings).account world audience frames := by
      rw [Tree.setSeed_configure _ seed hseed]
    _ = (i.configure settings).account world audience frames :=
      (hi.account hroot hH _ world world rfl audience audience frames).symm

/-- A new tree in which a random choice between two leaves is made and attached. -/
def Demo.sowing : List (Operation Demo.smallHost) :=
  [.create "RandomChoice", .create "Wait", .create "Toggle", .attach (.ofNat 2) (.ofNat 3),
    .attach (.ofNat 3) (.ofNat 4), .attach (.ofNat 3) (.ofNat 5), .setSeed 7]

/-- The registry of the ready-made leaves. -/
abbrev Demo.leaves : Registry Demo.smallHost := Demo.registry flagsOnly 1

def Demo.plot : Session Demo.smallHost :=
  .new Demo.leaves counted (⟨∅⟩ : TeamBoards) (⟨∅⟩ : Recordings)

def Demo.sown : Session Demo.smallHost := (plot.run sowing).1

/-- What the tree is read back as. -/
def Demo.resown : Except TreeError (Tree Demo.smallHost) :=
  (Tree.ofTemplateVia List.reverse Demo.leaves sown.tree.toTemplate sown.supply).1

theorem reload_runs_alike_sown : ∃ t', Demo.resown = .ok t' ∧
    ∀ settings world audience frames, .seed 9 ∈ settings →
      ((t'.instantiate (Demo.counted.skip 30)).1.configure settings).account world audience frames =
        ((Demo.sown.tree.instantiate (Demo.counted.skip 20)).1.configure settings).account world
          audience frames := by
  have hnew : Reached Demo.leaves Operation.Authoring (2^128) Demo.plot [] :=
    Reached.new (H := Demo.smallHost) Demo.counted_fresh _ _
  have hops : ∀ op ∈ Demo.sowing, op.Authoring := by
    intro op hop
    simp only [Demo.sowing, List.mem_cons, List.not_mem_nil, or_false] at hop
    rcases hop with rfl | rfl | rfl | rfl | rfl | rfl | rfl <;> exact trivial
  have hdrawn : Demo.sown.supply.drawn ≤ 2^128 := by decide +kernel
  have hlive : ∀ n ∈ Demo.sown.tree.nodes, ∀ c ∈ n.links, Demo.sown.tree.contains c := by
    decide +kernel
  have hblind : Demo.smallHost.IdBlind Eq := Demo.host_idBlind Demo.flagsOnly fun _ _ h => h ▸ rfl
  have hlater (draws : Nat) : (Demo.counted.skip draws).Fresh (2^128) fun _ => False :=
    Demo.counted_fresh.later (Demo.counted.precedes_skip draws)
  have hone : (Demo.sown.tree.instantiate (Demo.counted.skip 20)).2.drawn ≤ 2^128 := by
    decide +kernel
  have hother : ∀ t', Demo.resown = .ok t' →
      (t'.instantiate (Demo.counted.skip 30)).2.drawn ≤ 2^128 := by
    have hall : (Demo.resown.toOption.all fun t' =>
        decide ((t'.instantiate (Demo.counted.skip 30)).2.drawn ≤ 2^128)) = true := by
      decide +kernel
    intro t' ht'
    rw [ht'] at hall
    exact of_decide_eq_true hall
  obtain ⟨t', ht', halike⟩ := reload_runs_alike (Demo.registry_tidy Demo.flagsOnly 1)
    (hnew.run hops) hdrawn hlive List.reverse_perm Demo.sown.supply hblind
  refine ⟨t', ht', fun settings world audience frames hseed => ?_⟩
  exact halike _ _ 9 settings world audience audience frames ⟨_, _, hlater 20, hone, rfl⟩
    ⟨_, _, hlater 30, hother t' ht', rfl⟩ hseed

end BehaviourTree
