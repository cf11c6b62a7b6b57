import BehaviourTree.Demo.Registry
import BehaviourTree.Proofs.Effects
import BehaviourTree.Proofs.InstanceForest

/-!
Structure stays a tree: whatever is done to a tree in whatever order, it has a live root, its links
form a forest under it, and all nodes can be told apart.
-/

namespace BehaviourTree

open Relation

variable {H : Host} {registry : Registry H}

/-- What holds of the nodes and links of a tree at any time. A link may lead to a node that is
gone. -/
structure Tree.WellFormed (t : Tree H) : Prop where
  rootLive : ∃ n, t.node? t.root = some n ∧ n.nodeType = .root
  idsDistinct : t.ids.Nodup
  live : ∀ id, t.contains id ↔ id ∈ t.ids
  linkedOnce : (t.nodes.flatMap (·.links)).Nodup
  rootUnlinked : t.root ∉ t.nodes.flatMap (·.links)
  acyclic : ∀ id, ¬ TransGen t.Links id id
  guidsDistinct : (t.nodes.map (·.guid)).Nodup

/-- The operations that bring no links with them but attachments. -/
def Operation.LinkFree : Operation H → Prop
  | .add kind => kind.LinkFree
  | _ => True

namespace Registry

/-- Everything made by name starts without links. -/
def LinkFree (r : Registry H) : Prop := ∀ name k, r.create? name = some k → k.LinkFree

theorem create?_register {r : Registry H} {name other : String} {kind k : NodeKind H}
    (h : (r.register name kind).create? other = some k) :
    name = other ∧ kind = k ∨ r.create? other = some k := by
  unfold create? register at h
  rw [Std.TreeMap.getElem?_insert] at h
  split at h
  · next heq => exact Or.inl ⟨Std.LawfulEqCmp.eq_of_compare heq, Option.some.inj h⟩
  · exact Or.inr h

/-- What is made by name in the end was there before or is one of the kinds that were added. -/
theorem create?_registerAll {r : Registry H} {kinds : List (NodeKind H)} {name : String}
    {k : NodeKind H}
    (h : (kinds.foldl (fun r k => r.register k.nodeType.name k) r).create? name = some k) :
    k ∈ kinds ∧ k.nodeType.name = name ∨ r.create? name = some k := by
  induction kinds generalizing r with
  | nil => exact Or.inr h
  | cons kind kinds ih =>
    rcases ih h with ⟨hmem, hname⟩ | hbefore
    · exact Or.inl ⟨List.mem_cons_of_mem kind hmem, hname⟩
    · rcases create?_register hbefore with ⟨hname, rfl⟩ | hbefore
      · exact Or.inl ⟨List.mem_cons_self, hname⟩
      · exact Or.inr hbefore

theorem create?_builtin {name : String} {k : NodeKind H}
    (h : (builtin : Registry H).create? name = some k) :
    k ∈ builtinKinds ∧ k.nodeType.name = name := by
  rcases create?_registerAll h with hadded | hbefore
  · exact hadded
  · unfold create? at hbefore
    simp at hbefore

theorem builtin_linkFree : (builtin : Registry H).LinkFree := by
  intro name k hk
  have hmem := (create?_builtin hk).1
  simp only [builtinKinds, List.mem_cons, List.not_mem_nil, or_false] at hmem
  rcases hmem with rfl | rfl | rfl | rfl | rfl <;> rfl

end Registry

/-! ### Operations -/

namespace Tree

theorem ofNodes_registry (registry : Registry H) (supply : IdSupply) (nodes : List (Node H))
    (root : Option NodeId) : (ofNodes registry nodes root supply).1.registry = registry := by
  obtain ⟨id, later, hrun, -⟩ := ofNodes_spec registry nodes root supply
  rw [hrun]
  exact ensureRoot_registry _ later

theorem ofTemplateVia_registry {visit : List NodeId → List NodeId} {a : TreeTemplate}
    {supply supply' : IdSupply} {t : Tree H}
    (h : ofTemplateVia visit registry a supply = (.ok t, supply')) : t.registry = registry := by
  obtain ⟨nodes, root, -, hbuilt⟩ := ofTemplateVia_ok h
  have hregistry := ofNodes_registry registry supply nodes root
  rwa [hbuilt] at hregistry

end Tree

namespace Session

variable {s : Session H} {op : Operation H} {limit : Nat}

/-- One operation keeps the links a forest under the root. -/
theorem step_sound (h : s.tree.Sound limit s.supply) (hkinds : s.tree.registry.LinkFree)
    (hop : op.LinkFree) (hlimit : (s.step op).1.supply.drawn ≤ limit) :
    (s.step op).1.tree.Sound limit (s.step op).1.supply := by
  cases op with
  | create kind => exact h.create kind (hkinds kind) hlimit
  | add kind => exact h.addNamed kind.nodeType.name hop hlimit
  | delete id => exact h.delete id hlimit
  | attach parent child => exact h.attach parent child
  | detach parent child => exact h.detach parent child
  | sortChildren parent => exact h.sortChildren parent
  | rename id name => exact h.editNode fun _ => ⟨rfl, rfl, rfl, rfl⟩
  | move id position => exact h.editNode fun _ => ⟨rfl, rfl, rfl, rfl⟩
  | setAlwaysCheck id alwaysCheck => exact h.editNode fun _ => ⟨rfl, rfl, rfl, rfl⟩
  | subscribe id o => exact h.editNode fun _ => ⟨rfl, rfl, rfl, rfl⟩
  | setOwner agent => exact h.setOwner agent
  | tick frame => exact h.tick frame s.world s.audience
  | elsewhere draws world audience => exact h.skip draws
  | subscribeAll _ | setSeed _ | editBlackboard _ => exact ⟨h.forest, h.rooted, h.fresh⟩

end Session

/-- However a tree comes about and whatever is done to it, its links are a forest under its root. -/
theorem Reached.sound (hkinds : registry.LinkFree) {limit : Nat} {s : Session H} {τ : Trace H}
    (h : Reached registry Operation.LinkFree limit s τ) (hlimit : s.supply.drawn ≤ limit) :
    s.tree.registry = registry ∧ s.tree.Sound limit s.supply := by
  induction h with
  | new fresh => exact ⟨Tree.ofNodes_registry _ _ _ _, Tree.new_sound fresh hlimit⟩
  | @ofTemplate _ _ supply _ _ fresh hvisit built =>
    exact ⟨Tree.ofTemplateVia_registry built,
      Tree.ofTemplateVia_sound hvisit hkinds fresh built hlimit⟩
  -- What is left to draw on after the copy was within the limit before it.
  | @instantiate s _ _ ih =>
    have hbefore := (s.tree.instantiate_precedes s.supply).within hlimit
    obtain ⟨hregistry, hsound⟩ := ih hbefore
    exact ⟨(Tree.ensureRoot_registry _ _).trans hregistry, hsound.instantiate hlimit⟩
  | @step s _ op _ isAllowed ih =>
    obtain ⟨hregistry, hsound⟩ := ih ((s.step_effect op).precedes.within hlimit)
    exact ⟨(s.step_effect op).registry.trans hregistry,
      Session.step_sound hsound (hregistry ▸ hkinds) isAllowed hlimit⟩

/-! ### What it means -/

theorem Tree.Sound.wellFormed {t : Tree H} {limit : Nat} {supply : IdSupply}
    (h : t.Sound limit supply) : t.WellFormed := by
  obtain ⟨b, hb, hroot, htype⟩ := h.rooted.live
  obtain ⟨r, hr, rfl⟩ := List.mem_map.mp hb
  have hid : r.id = t.root := hroot
  refine ⟨?_, h.keyed, fun _ => contains_iff, ?_, ?_, fun id hcycle => ?_, ?_⟩
  · have hlive : t.contains t.root := contains_iff.mpr (hid ▸ List.mem_map_of_mem hr)
    obtain ⟨n, hn⟩ := Option.isSome_iff_exists.mp hlive
    obtain ⟨hmem, hnid⟩ := node?_some hn
    have hsame : n = r := List.inj_on_of_nodup_map h.keyed hmem hr (hnid.trans hid.symm)
    exact ⟨n, hn, hsame ▸ htype⟩
  · exact t.linksOf_profiles ▸ h.forest.links
  · exact t.linksOf_profiles ▸ h.rooted.free
  · refine h.forest.acyclic id (TransGen.mono (fun p c hlink => ?_) id id hcycle)
    obtain ⟨n, hn, hc⟩ := hlink.exists_node
    obtain ⟨hmem, hnid⟩ := node?_some hn
    exact linked_profiles.mpr ⟨n, hmem, hnid, hc⟩
  · have hguids := h.forest.guids
    rwa [Tree.profiles, List.map_map] at hguids

/-- With a registry of kinds without links a tree stays a tree, as long as no identifier has been
drawn twice: from its making, from a template or as a copy, through any operations in any order. -/
theorem structure_stays_tree (hkinds : registry.LinkFree) {limit : Nat} {s : Session H}
    {τ : Trace H} (reached : Reached registry Operation.LinkFree limit s τ)
    (hlimit : s.supply.drawn ≤ limit) : s.tree.WellFormed :=
  (reached.sound hkinds hlimit).2.wellFormed

/-- Identifiers by number. -/
def Demo.counted : IdSupply := ⟨.ofNat, 0⟩

theorem Demo.counted_fresh : counted.Fresh (2^128) fun _ => False := by
  refine ⟨fun i j _ hi _ hj hij => ?_, fun _ _ _ => not_false⟩
  have hbits : BitVec.ofNat 128 i = BitVec.ofNat 128 j := congrArg Uuid.bits hij
  have hnat := congrArg BitVec.toNat hbits
  rwa [BitVec.toNat_ofNat, BitVec.toNat_ofNat, Nat.mod_eq_of_lt hi, Nat.mod_eq_of_lt hj] at hnat

/-- Identifiers by number from `n` on are fresh where only smaller ones are in use. -/
theorem Demo.counted_unused {n : Nat} {used : Uuid → Prop}
    (hused : ∀ u, used u → ∃ k < n, u = .ofNat k) : (counted.skip n).Fresh (2^128) used := by
  refine ⟨(counted_fresh.later (counted.precedes_skip n)).distinct, ?_⟩
  intro i hi hlimit hu
  obtain ⟨k, hk, heq⟩ := hused _ hu
  have hle : n ≤ i := by simpa [IdSupply.skip, counted] using hi
  have hsame : i = k :=
    counted_fresh.distinct i k (Nat.zero_le i) hlimit (Nat.zero_le k) (by omega) heq
  omega

/-- A new tree. -/
def Demo.sapling : Session Demo.smallHost :=
  .new .builtin counted (⟨∅⟩ : TeamBoards) (⟨∅⟩ : Recordings)

/-- A sequence is attached and runs, and is deleted on the way, and after it the root. -/
def Demo.pruning : List (Operation Demo.smallHost) :=
  [.add (.sequence (.idle [])), .add (.action (Demo.Action.wait 3 3)),
    .attach (.ofNat 3) (.ofNat 4), .attach (.ofNat 2) (.ofNat 3), .tick ⟨0, 0, 0⟩,
    .delete (.ofNat 3), .delete (.ofNat 2)]

theorem structure_stays_tree_pruning : (Demo.sapling.run Demo.pruning).1.tree.WellFormed := by
  have hnew : Reached .builtin Operation.LinkFree (2^128) Demo.sapling [] :=
    Reached.new (H := Demo.smallHost) Demo.counted_fresh _ _
  have hops : ∀ op ∈ Demo.pruning, op.LinkFree := by
    intro op hop
    simp only [Demo.pruning, List.mem_cons, List.not_mem_nil, or_false] at hop
    rcases hop with rfl | rfl | rfl | rfl | rfl | rfl | rfl
    · exact rfl
    · exact rfl
    all_goals exact trivial
  have hdrawn : (Demo.sapling.run Demo.pruning).1.supply.drawn ≤ 2^128 := by decide +kernel
  exact structure_stays_tree Registry.builtin_linkFree (hnew.run hops) hdrawn

end BehaviourTree
