import BehaviourTree.Proofs.Lockstep
import BehaviourTree.Proofs.TickSafety
import Mathlib.Data.List.Forall2

/-!
Trees that differ in their identifiers alone: which node of one is the twin of which node of the
other, and computations that do the same to both.
-/

namespace BehaviourTree

open Ticking

/-! ### Leaves that look at no identifier -/

section Leaves

variable {ι World Leaf Note α : Type} {V : ι → Type}

/-- What two leaves can see differs in the name of their node at most. -/
structure LeafContext.Alike (c c' : LeafContext) : Prop where
  frame : c'.frame = c.frame
  owner : c'.owner = c.owner

structure LeafStep.Alike (worlds : World → World → Prop)
    (r r' : LeafStep Leaf (Shared V World) Note α) : Prop where
  answer : r'.answer = r.answer
  leaf : r'.leaf = r.leaf
  shared : r.shared.Alike worlds r'.shared

/-- The leaves of a host look neither at the name of their node nor at that of its blackboard. Of
what is outside of the tree they see no more than what `worlds` keeps together: everything if that
is equality, and nothing if it holds of any two worlds. -/
structure Host.IdBlind (H : Host) (worlds : H.World → H.World → Prop) : Prop where
  enter : ∀ {c c'} a {s s' : H.Shared}, c.Alike c' → s.Alike worlds s' →
    (H.enter c a s).Alike worlds (H.enter c' a s')
  update : ∀ {c c'} a {s s' : H.Shared}, c.Alike c' → s.Alike worlds s' →
    (H.update c a s).Alike worlds (H.update c' a s')
  exit : ∀ {c c'} a {s s' : H.Shared}, c.Alike c' → s.Alike worlds s' →
    (H.exit c a s).Alike worlds (H.exit c' a s')
  check : ∀ {c c'} l {s s' : H.Shared}, c.Alike c' → s.Alike worlds s' →
    (H.check c l s).Alike worlds (H.check c' l s')

end Leaves

/-! ### The ready-made leaves -/

section Boards

variable {ι : Type} [DecidableEq ι] {V : ι → Type} {b b' : Blackboard V}
  (h : b'.entries = b.entries) (key : String) (t : ι)

include h

theorem Blackboard.get?_congr : b'.get? key t = b.get? key t := by
  unfold get? get
  rw [h]

/-- Whatever a blackboard is named, an entry is set in the same way or refused for the same
reason. -/
theorem Blackboard.set_congr (v : V t) :
    (∃ c c', b.set key t v = .ok c ∧ b'.set key t v = .ok c' ∧ c'.entries = c.entries) ∨
      ∃ e, b.set key t v = .error e ∧ b'.set key t v = .error e := by
  unfold set
  rw [h]
  split
  · split
    · exact Or.inl ⟨_, _, rfl, rfl, rfl⟩
    · exact Or.inr ⟨_, rfl, rfl⟩
  · exact Or.inl ⟨_, _, rfl, rfl, rfl⟩

end Boards

/-- A toggle looks at the entries of a blackboard, and not at its name. -/
theorem Demo.check_alike {ι : Type} [DecidableEq ι] {V : ι → Type} (flag : FlagType V)
    {worlds : TeamBoards → TeamBoards → Prop} {s s' : Shared V TeamBoards}
    (hs : s.Alike worlds s') (c c' : LeafContext) (l : Demo.Condition) :
    (l.check flag c s).Alike worlds (l.check flag c' s') := by
  obtain ⟨hentries, hrng, hworld⟩ := hs
  cases l with
  | toggle =>
    unfold Demo.Condition.check
    rw [Blackboard.get?_congr hentries]
    rcases Blackboard.set_congr hentries toggleKey flag.type (flag.encode
      (!((s.blackboard.get? toggleKey flag.type).map flag.decode).getD false)) with
      ⟨b, b', hset, hset', hboards⟩ | ⟨e, hset, hset'⟩
    · simp only [hset, hset']
      exact ⟨rfl, rfl, hboards, hrng, hworld⟩
    · simp only [hset, hset']
      exact ⟨rfl, rfl, hentries, hrng, hworld⟩

/-- The ready-made leaves look at no identifier. Of the world they see no more than whether a team
board takes a report, and that goes to the log. -/
theorem Demo.host_idBlind {ι : Type} [DecidableEq ι] {V : ι → Type} (flag : FlagType V)
    {worlds : TeamBoards → TeamBoards → Prop} (hsubmit : ∀ {w w'} team report, worlds w w' →
      worlds (w.submit team report).2 (w'.submit team report).2) :
    (Demo.host flag).IdBlind worlds := by
  refine ⟨?_, ?_, ?_, ?_⟩
  · intro c c' a s s' _ hs
    cases a <;> exact ⟨rfl, rfl, hs⟩
  · intro c c' a s s' hc hs
    cases a with
    | succeed | fail => exact ⟨rfl, rfl, hs⟩
    | wait ticks remaining =>
      by_cases hdone : remaining = 0
      · obtain rfl := hdone
        exact ⟨rfl, rfl, hs⟩
      · simp only [host, noting, Demo.Action.update, hdone, ↓reduceIte]
        exact ⟨rfl, rfl, hs⟩
    | report team =>
      obtain ⟨frame, node, owner⟩ := c
      obtain ⟨frame', node', owner'⟩ := c'
      obtain ⟨rfl, rfl⟩ := hc
      obtain ⟨board, rng, world⟩ := s
      obtain ⟨board', rng', world'⟩ := s'
      obtain ⟨hentries, rfl, hworld⟩ := hs
      -- An agent that nobody owns has nothing to report.
      cases owner' with
      | none => exact ⟨rfl, rfl, hentries, rfl, hworld⟩
      | some owner => exact ⟨rfl, rfl, hentries, rfl, hsubmit team _ hworld⟩
  · intro c c' a s s' _ hs
    exact ⟨rfl, rfl, hs⟩
  · intro c c' l s s' _ hs
    obtain ⟨hanswer, hleaf, hshared⟩ := Demo.check_alike flag hs c c' l
    exact ⟨hanswer, hleaf, hshared⟩

/-! ### Twins -/

/-- Nodes of one tree paired with nodes of another; `ids` and `ids'` are the identifiers of all
nodes of the two, paired or not. -/
structure Pairing where
  ids : List NodeId
  ids' : List NodeId
  twins : NodeId → NodeId → Prop
  live : ∀ {a b}, twins a b → a ∈ ids ∧ b ∈ ids'
  unique : ∀ {a b c d}, twins a b → twins c d → (a = c ↔ b = d)

/-- Two links go together if they lead to twins, or both lead nowhere. -/
def Pairing.Links (P : Pairing) (a b : NodeId) : Prop := P.twins a b ∨ a ∉ P.ids ∧ b ∉ P.ids'

section Pairs

variable {P : Pairing} {a b : NodeId}

theorem Pairing.Links.twins (h : P.Links a b) (hlive : a ∈ P.ids) : P.twins a b :=
  h.resolve_right fun hlost => hlost.1 hlive

/-- Lists of links that go together have twins in the same places. -/
theorem Pairing.mem_iff {xs ys : List NodeId} (h : List.Forall₂ P.Links xs ys)
    (hab : P.twins a b) : a ∈ xs ↔ b ∈ ys := by
  induction h with
  | nil => simp
  | @cons x y xs ys hxy _ ih =>
    have hhead : a = x ↔ b = y := by
      rcases hxy with hxy | ⟨hx, hy⟩
      · exact P.unique hab hxy
      -- A link that leads nowhere is none of the twins.
      · constructor
        · rintro rfl
          exact absurd (P.live hab).1 hx
        · rintro rfl
          exact absurd (P.live hab).2 hy
    rw [List.mem_cons, List.mem_cons, hhead, ih]

theorem forall₂_getElem? {α β : Type} {R : α → β → Prop} {xs : List α} {ys : List β}
    (h : List.Forall₂ R xs ys) (i : Nat) : Option.Rel R xs[i]? ys[i]? := by
  induction h generalizing i with
  | nil => exact .none
  | cons hab _ ih =>
    cases i with
    | zero => exact .some hab
    | succ i => exact ih i

theorem forall₂_isEmpty {α β : Type} {R : α → β → Prop} {xs : List α} {ys : List β}
    (h : List.Forall₂ R xs ys) : ys.isEmpty = xs.isEmpty := by
  cases h <;> rfl

end Pairs

variable {H : Host} {P : Pairing} {worlds : H.World → H.World → Prop}

structure Series.Twin (P : Pairing) (s s' : Series) : Prop where
  children : List.Forall₂ P.Links s.children s'.children
  guards : List.Forall₂ P.Links s.guards s'.guards
  current : s'.current = s.current

inductive NodeKind.Twin (P : Pairing) : NodeKind H → NodeKind H → Prop where
  | root {c c' : Option NodeId} (child : Option.Rel P.Links c c') : Twin P (root c) (root c')
  | action (a : H.Action) : Twin P (action a) (action a)
  | condition (c : H.Condition) : Twin P (condition c) (condition c)
  | repeater {c c' : Option NodeId} (child : Option.Rel P.Links c c') :
    Twin P (repeater c) (repeater c')
  | sequence {s s' : Series} (series : s.Twin P s') : Twin P (sequence s) (sequence s')
  | selector {s s' : Series} (series : s.Twin P s') : Twin P (selector s) (selector s')
  | parallel {cs cs' : List NodeId} (children : List.Forall₂ P.Links cs cs') :
    Twin P (parallel cs) (parallel cs')
  | randomChoice {cs cs' : List NodeId} {c c' : Option NodeId}
    (children : List.Forall₂ P.Links cs cs') (selected : Option.Rel P.Links c c') :
    Twin P (randomChoice cs c) (randomChoice cs' c')

/-- Twins agree in all that a tick looks at, but for identifiers. -/
structure Node.Twin (P : Pairing) (n n' : Node H) : Prop where
  id : P.twins n.id n'.id
  guid : n'.guid = n.guid
  kind : n.kind.Twin P n'.kind
  alwaysCheck : n'.alwaysCheck = n.alwaysCheck
  owner : n'.owner = n.owner
  running : n'.running = n.running

structure Stage.Twin (P : Pairing) (worlds : H.World → H.World → Prop) (s s' : Stage H) :
    Prop where
  ids : s.ids = P.ids
  ids' : s'.ids = P.ids'
  nodes : ∀ {a b}, P.twins a b → ∃ n n', s.node? a = some n ∧ s'.node? b = some n' ∧ n.Twin P n'
  shared : s.shared.Alike worlds s'.shared

theorem NodeKind.Twin.links {k k' : NodeKind H} (h : k.Twin P k') :
    List.Forall₂ P.Links k.links k'.links := by
  have hone {c c' : Option NodeId} (h : Option.Rel P.Links c c') :
      List.Forall₂ P.Links c.toList c'.toList := by
    cases h with
    | none => exact .nil
    | some hc => exact .cons hc .nil
  cases h with
  | root child | repeater child => exact hone child
  | action _ | condition _ => exact .nil
  | sequence series | selector series => exact series.children
  | parallel children | randomChoice children _ => exact children

namespace Stage

variable {s s' r r' : Stage H} {path path' : List NodeId} {a b : NodeId}

theorem Twin.of_nodes (h : s.Twin P worlds s') (hnodes : r.nodes = s.nodes)
    (hnodes' : r'.nodes = s'.nodes) (hshared : r.shared.Alike worlds r'.shared) :
    r.Twin P worlds r' := by
  refine ⟨(ids_eq_of_nodes hnodes).trans h.ids, (ids_eq_of_nodes hnodes').trans h.ids', ?_, hshared⟩
  intro a b hab
  rw [node?_of_nodes hnodes, node?_of_nodes hnodes']
  exact h.nodes hab

/-- Links that go together find twins or nobody, while updates of twins are in progress. -/
theorem Twin.find? (h : s.Twin P worlds s') (hpath : List.Forall₂ P.twins path path')
    (hab : P.Links a b) : Option.Rel (Node.Twin P) (s.find? path a) (s'.find? path' b) := by
  rcases hab with hab | ⟨ha, hb⟩
  · have hbusy : a ∈ path ↔ b ∈ path' := P.mem_iff (hpath.imp fun _ _ => Or.inl) hab
    by_cases hin : a ∈ path
    · rw [find?_eq_none_iff.mpr (Or.inl hin), find?_eq_none_iff.mpr (Or.inl (hbusy.mp hin))]
      exact .none
    · obtain ⟨n, n', hn, hn', htwin⟩ := h.nodes hab
      rw [find?_eq_node? hin, find?_eq_node? fun hb => hin (hbusy.mpr hb), hn, hn']
      exact .some htwin
  · rw [find?_eq_none_iff.mpr (Or.inr (h.ids ▸ ha)), find?_eq_none_iff.mpr (Or.inr (h.ids' ▸ hb))]
    exact .none

/-- Of links that go together both or none lead to a guard, and a guard is there. -/
theorem Twin.isGuard (h : s.Twin P worlds s') (hpath : List.Forall₂ P.twins path path')
    (hab : P.Links a b) :
    s'.isGuard path' b = s.isGuard path a ∧ (s.isGuard path a → a ∈ P.ids) := by
  have hany {x y : Option (Node H)} (hxy : Option.Rel (Node.Twin P) x y) :
      y.any (·.alwaysCheck) = x.any (·.alwaysCheck) := by
    cases hxy with
    | none => rfl
    | some htwin => exact htwin.alwaysCheck
  constructor
  · exact hany (h.find? hpath hab)
  · intro hguard
    by_contra hlost
    rw [Stage.isGuard, find?_eq_none_iff.mpr (Or.inr (h.ids ▸ hlost))] at hguard
    simp at hguard

/-- Where nodes are related to their partners, they still are when one of them and its partner are
replaced by nodes that are related. -/
theorem restore_pair {R : Node H → Node H → Prop} {n n' : Node H}
    (hnodes : ∃ m m', s.node? a = some m ∧ s'.node? b = some m' ∧ R m m')
    (hsame : a = n.id ↔ b = n'.id) (hn : R n n') :
    ∃ m m', (s.restore n).node? a = some m ∧ (s'.restore n').node? b = some m' ∧ R m m' := by
  obtain ⟨m, m', hm, hm', hR⟩ := hnodes
  rw [restore_node?, restore_node?, hm, hm']
  by_cases ha : a = n.id
  · rw [if_pos ha, if_pos (hsame.mp ha)]
    exact ⟨n, n', rfl, rfl, hn⟩
  · rw [if_neg ha, if_neg fun hb => ha (hsame.mpr hb)]
    exact ⟨m, m', rfl, rfl, hR⟩

theorem Twin.restore {n n' : Node H} (h : s.Twin P worlds s') (hn : n.Twin P n') :
    (s.restore n).Twin P worlds (s'.restore n') := by
  refine ⟨(restore_ids s n).trans h.ids, (restore_ids s' n').trans h.ids', ?_, h.shared⟩
  exact fun hab => restore_pair (h.nodes hab) (P.unique hab hn.id) hn

end Stage

/-! ### Computations -/

/-- What a trace tells without identifiers: which authored node was updated when, and how each of
these updates ended. -/
def Trace.told (τ : Trace H) : List (UInt64 × NodeId × Status) :=
  τ.events.map fun e => (e.tick, e.guid, e.status)

theorem Trace.told_append (τ τ' : Trace H) : (τ ++ τ').told = τ.told ++ τ'.told := by
  simp [told, events]

theorem Trace.told_eq_nil {τ : Trace H} (h : ∀ i ∈ τ, ∀ e, i ≠ .event e) : τ.told = [] := by
  have hevents : τ.events = [] := by
    refine List.filterMap_eq_nil_iff.mpr fun i hi => ?_
    cases i with
    | event e => exact absurd rfl (h _ hi e)
    | asked _ _ | answered _ _ _ | entered _ | called _ _ | note _ | warning _ => rfl
  rw [told, hevents, List.map_nil]

/-- Twins are to tell the same. -/
def Pairing.accord (P : Pairing) (worlds : H.World → H.World → Prop) : Accord H worlds where
  stages := Stage.Twin P worlds
  shared := Stage.Twin.shared
  renew := Stage.Twin.of_nodes
  traces τ τ' := τ'.told = τ.told
  append h h' := by rw [Trace.told_append, Trace.told_append, h, h']
  hidden i := ∀ e, i ≠ .event e
  note _ := nofun
  warning _ := nofun
  silent h h' := by rw [Trace.told_eq_nil h, Trace.told_eq_nil h']

namespace Ticking

variable {α β : Type}

/-- Wherever the second computation runs on a twin of the stage that the first one runs on, it does
the same. -/
abbrev Echoes (P : Pairing) (worlds : H.World → H.World → Prop) (R : α → β → Prop)
    (m : Ticking H α) (m' : Ticking H β) : Prop := Lockstep (P.accord worlds) R m m'

theorem echoes_leaf {Leaf : Type} (node node' : NodeId) (hook : α → LeafHook)
    {call call' : H.Shared → LeafStep Leaf H.Shared H.Note α}
    (hcall : ∀ {s s'}, s.Alike worlds s' → (call s).Alike worlds (call' s')) :
    Echoes P worlds Eq (leaf node hook call) (leaf node' hook call') := by
  have hboth : Lockstep (P.accord worlds) (fun r r' => r.1 = r'.1 ∧ r.2 = r'.2)
      (leaf node hook call) (leaf node' hook call') := by
    refine lockstep_leaf (fun _ _ _ => rfl) fun hs => ?_
    obtain ⟨hanswer, hleaf, hshared⟩ := hcall hs
    exact ⟨hanswer.symm, hleaf.symm, hshared⟩
  intro s s' hs
  obtain ⟨⟨hanswer, hleaf⟩, hstage, htold⟩ := hboth s s' hs
  exact ⟨Prod.ext hanswer hleaf, hstage, htold⟩

end Ticking

end BehaviourTree
