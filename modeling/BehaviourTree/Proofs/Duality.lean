import BehaviourTree.Proofs.TwinRuns
import BehaviourTree.Proofs.WithinReach

/-!
Selectors are dual to sequences. Of two trees let one have selectors where the other has sequences,
and leaves that do the same as the other's but answer success for failure and failure for success:
then it does the same, and answers so too.
-/

namespace BehaviourTree

open Ticking

/-! ### Success and failure exchanged -/

/-- Success for failure and failure for success. -/
def Status.flip : Status → Status
  | .running => .running
  | .success => .fail
  | .fail => .success

namespace Status

@[simp]
theorem flip_inj {a b : Status} : a.flip = b.flip ↔ a = b := by
  cases a <;> cases b <;> decide

@[simp]
theorem isRunning_flip (a : Status) : a.flip.isRunning = a.isRunning := by
  cases a <;> rfl

@[simp]
theorem isTerminal_flip (a : Status) : a.flip.isTerminal = a.isTerminal := by
  cases a <;> rfl

/-- The second answer is the first one exchanged. -/
def Flipped (a b : Status) : Prop := b = a.flip

end Status

/-- The same call, with what an update answers exchanged. -/
def LeafHook.flip : LeafHook → LeafHook
  | .update status => .update status.flip
  | .enter => .enter
  | .check holds => .check holds
  | .exit => .exit

variable {H : Host} {worlds : H.World → H.World → Prop}

/-- What an action can see in the node on some frame. -/
abbrev Node.context (n : Node H) (frame : TickContext) : LeafContext := ⟨frame, n.id, n.owner⟩

/-- Actions that go together do the same where they are, call by call, and stay together; but what
the updates of one answer, those of the other answer exchanged. -/
structure Host.Opposes (H : Host) (worlds : H.World → H.World → Prop)
    (c c' : TickContext → LeafContext) (Rel : H.Action → H.Action → Prop) : Prop where
  enter : ∀ frame {a a'} {s s' : H.Shared}, Rel a a' → s.Alike worlds s' →
    (H.enter (c frame) a s).Related worlds Eq Rel (H.enter (c' frame) a' s')
  update : ∀ frame {a a'} {s s' : H.Shared}, Rel a a' → s.Alike worlds s' →
    (H.update (c frame) a s).Related worlds Status.Flipped Rel (H.update (c' frame) a' s')
  exit : ∀ frame {a a'} {s s' : H.Shared}, Rel a a' → s.Alike worlds s' →
    (H.exit (c frame) a s).Related worlds Eq Rel (H.exit (c' frame) a' s')

/-- The second action does what the first one does, and answers the opposite. -/
def Host.Opposite (H : Host) (worlds : H.World → H.World → Prop) (c c' : TickContext → LeafContext)
    (a a' : H.Action) : Prop := ∃ Rel, H.Opposes worlds c c' Rel ∧ Rel a a'

/-! ### Dual nodes -/

/-- Nodes of one tree paired with nodes of another, and ordered by levels so that links lead down.
Actions are at the bottom, and plain nodes are no guards. -/
structure Duality where
  twins : NodeId → NodeId → Prop
  unique : ∀ {a b c d}, twins a b → twins c d → (a = c ↔ b = d)
  level : NodeId → Nat
  plain : NodeId → Prop

/-- Twins further down. -/
def Duality.Below (D : Duality) (level : Nat) (a b : NodeId) : Prop :=
  D.twins a b ∧ D.level a < level

/-- Series that poll no guards and are at the same child. -/
structure Series.Dual (D : Duality) (level : Nat) (s s' : Series) : Prop where
  some : s.children ≠ []
  children : List.Forall₂ (fun a b => D.Below level a b ∧ D.plain a) s.children s'.children
  guards : s.guards = []
  guards' : s'.guards = []
  current : s'.current = s.current

inductive NodeKind.Dual (worlds : H.World → H.World → Prop) (D : Duality)
    (c c' : TickContext → LeafContext) (level : Nat) : NodeKind H → NodeKind H → Prop where
  | root {a b : NodeId} (child : D.Below level a b) : Dual worlds D c c' level (root a) (root b)
  | action {a a' : H.Action} (bottom : level = 0) (opposite : H.Opposite worlds c c' a a') :
    Dual worlds D c c' level (action a) (action a')
  | sequence {s s' : Series} (series : s.Dual D level s') :
    Dual worlds D c c' level (sequence s) (selector s')
  | selector {s s' : Series} (series : s.Dual D level s') :
    Dual worlds D c c' level (selector s) (sequence s')

structure Node.Dual (worlds : H.World → H.World → Prop) (D : Duality) (n n' : Node H) : Prop where
  id : D.twins n.id n'.id
  kind : n.kind.Dual worlds D n.context n'.context (D.level n.id) n'.kind
  running : n'.running = n.running
  turn : n.running → n.kind.InRange
  plain : D.plain n.id → n.alwaysCheck = false ∧ n'.alwaysCheck = false

structure Stage.Dual (worlds : H.World → H.World → Prop) (D : Duality) (s s' : Stage H) :
    Prop where
  nodes : ∀ {a b}, D.twins a b →
    ∃ n n', s.node? a = some n ∧ s'.node? b = some n' ∧ n.Dual worlds D n'
  shared : s.shared.Alike worlds s'.shared

/-- Calls of the same actions that are the same but for what updates answer. -/
def Duality.Calls (D : Duality) (call call' : NodeId × LeafHook) : Prop :=
  (D.twins call.1 call'.1 ∧ D.level call.1 = 0) ∧ call'.2 = call.2.flip

variable {D : Duality} {level : Nat}

namespace Stage

variable {s s' r r' : Stage H} {path path' : List NodeId} {a b : NodeId}

theorem Dual.of_nodes (h : s.Dual worlds D s') (hnodes : r.nodes = s.nodes)
    (hnodes' : r'.nodes = s'.nodes) (hshared : r.shared.Alike worlds r'.shared) :
    r.Dual worlds D r' := by
  refine ⟨fun hab => ?_, hshared⟩
  rw [node?_of_nodes hnodes, node?_of_nodes hnodes']
  exact h.nodes hab

/-- While updates of nodes further up are in progress both twins are found. -/
theorem Dual.find? (h : s.Dual worlds D s') (hab : D.twins a b)
    (hpath : List.Forall₂ (fun p q => D.twins p q ∧ D.level a < D.level p) path path') :
    ∃ n n', s.find? path a = some n ∧ s'.find? path' b = some n' ∧ n.Dual worlds D n' := by
  have hfree : a ∉ path ∧ b ∉ path' := by
    induction hpath with
    | nil => exact ⟨List.not_mem_nil, List.not_mem_nil⟩
    | cons hpq _ ih =>
      have hne : a ≠ _ := fun heq => Nat.lt_irrefl _ (heq ▸ hpq.2)
      exact ⟨List.not_mem_cons_of_ne_of_not_mem hne ih.1,
        List.not_mem_cons_of_ne_of_not_mem (mt (D.unique hab hpq.1).mpr hne) ih.2⟩
  rw [find?_eq_node? hfree.1, find?_eq_node? hfree.2]
  exact h.nodes hab

/-- Plain twins are no guards. -/
theorem Dual.isGuard (h : s.Dual worlds D s') (hab : D.twins a b) (hplain : D.plain a)
    (path path' : List NodeId) : s.isGuard path a = false ∧ s'.isGuard path' b = false := by
  obtain ⟨n, n', hn, hn', hdual⟩ := h.nodes hab
  obtain ⟨-, rfl⟩ : n ∈ s.nodes ∧ n.id = a :=
    ⟨List.mem_of_find?_eq_some hn, by simpa using List.find?_some hn⟩
  obtain ⟨hflag, hflag'⟩ := hdual.plain hplain
  unfold Stage.isGuard Stage.find?
  unfold Stage.node? at hn hn'
  constructor
  · split
    · rfl
    · rw [hn]
      exact hflag
  · split
    · rfl
    · rw [hn']
      exact hflag'

theorem Dual.restore {n n' : Node H} (h : s.Dual worlds D s') (hn : n.Dual worlds D n') :
    (s.restore n).Dual worlds D (s'.restore n') :=
  ⟨fun hab => restore_pair (h.nodes hab) (D.unique hab hn.id) hn, h.shared⟩

end Stage

theorem Trace.calls_eq_nil {τ : Trace H} (h : ∀ i ∈ τ, ∀ node hook, i ≠ .called node hook) :
    τ.calls = [] := by
  refine List.filterMap_eq_nil_iff.mpr fun i hi => ?_
  cases i with
  | called node hook => exact absurd rfl (h _ hi node hook)
  | asked _ _ | answered _ _ _ | entered _ | note _ | event _ | warning _ => rfl

/-- Dual trees are to call their leaves in the same way. -/
def Duality.accord (D : Duality) (worlds : H.World → H.World → Prop) : Accord H worlds where
  stages := Stage.Dual worlds D
  shared := Stage.Dual.shared
  renew := Stage.Dual.of_nodes
  traces τ τ' := List.Forall₂ D.Calls τ.calls τ'.calls
  append {τ τ' υ υ'} h h' := by
    have hsplit (τ υ : Trace H) : (τ ++ υ).calls = τ.calls ++ υ.calls := List.filterMap_append
    rw [hsplit, hsplit]
    exact List.rel_append h h'
  hidden i := ∀ node hook, i ≠ .called node hook
  note _ := nofun
  warning _ := nofun
  silent h h' := by
    rw [Trace.calls_eq_nil h, Trace.calls_eq_nil h']
    exact .nil

/-! ### Dual updates -/

variable {c c' : TickContext → LeafContext} {ask ask' : NodeId → Ticking H Status}

namespace Series

variable {s s' : Series}

theorem Dual.enter (hs : s.Dual D level s') {flagged flagged' : NodeId → Bool}
    (hplain : ∀ {a b}, D.twins a b → D.plain a → flagged a = false ∧ flagged' b = false) :
    (s.enter flagged).Dual D level (s'.enter flagged') := by
  have hnone {flagged : NodeId → Bool} {children : List NodeId}
      (h : ∀ c ∈ children, flagged c = false) : collectGuards flagged children [] = [] := by
    have hall : children.filter flagged = [] :=
      List.filter_eq_nil_iff.mpr fun c hc => by simp [h c hc]
    have hcollected := collectGuards_eraseDups flagged children []
    rwa [hall] at hcollected
  -- There were no guards before, and none of the children is flagged.
  refine ⟨hs.some, hs.children, ?_, ?_, rfl⟩
  · rw [Series.enter, hs.guards]
    refine hnone fun a ha => ?_
    obtain ⟨b, -, hab⟩ := exists_of_mem_right hs.children.flip ha
    exact (hplain hab.1.1 hab.2).1
  · rw [Series.enter, hs.guards']
    refine hnone fun b hb => ?_
    obtain ⟨a, -, hab⟩ := exists_of_mem_right hs.children hb
    exact (hplain hab.1.1 hab.2).2

/-- Where there are no guards to poll, it is the turn of the current child at once. -/
theorem update_unguarded (hsome : s.children ≠ []) (hguards : s.guards = []) (pass : Status)
    (empty : Warning) :
    s.update ask pass empty = s.advance ask pass := by
  funext stage
  have hnonempty : s.children.isEmpty = false := by simpa using hsome
  simp [update, hnonempty, hguards, pollGuards]

/-- When one series passes on, so does its dual, for what one passes on is the other's exchanged. -/
theorem Dual.advance (hs : s.Dual D level s') (hturn : s.current < s.children.length)
    (hask : ∀ {a b}, D.Below level a b →
      Lockstep (D.accord worlds) Status.Flipped (ask a) (ask' b)) (pass : Status) :
    Lockstep (D.accord worlds) (fun r r' => Status.Flipped r.1 r'.1 ∧ r.2.Dual D level r'.2)
      (s.advance ask pass) (s'.advance ask' pass.flip) := by
  have hchild := forall₂_getElem? hs.children s.current
  rw [List.getElem?_eq_getElem hturn] at hchild
  unfold Series.advance
  rw [hs.current, List.getElem?_eq_getElem hturn]
  generalize s.children[s.current] = a, s'.children[s.current]? = next at hchild
  obtain @⟨_, b, hab⟩ := hchild
  refine (hask hab.1).bind ?_
  rintro answer _ rfl
  -- An answer passes on in one series if its opposite does in the other.
  by_cases hpass : answer = pass
  · rw [if_pos hpass, if_pos (Status.flip_inj.mpr hpass)]
    refine lockstep_pure ⟨?_, hs.some, hs.children, hs.guards, hs.guards', rfl⟩
    rw [← hs.children.length_eq]
    unfold Status.Flipped
    split <;> rfl
  · rw [if_neg hpass, if_neg (mt Status.flip_inj.mp hpass)]
    exact lockstep_pure ⟨rfl, hs⟩

theorem Dual.update (hs : s.Dual D level s') (hturn : s.current < s.children.length)
    (hask : ∀ {a b}, D.Below level a b →
      Lockstep (D.accord worlds) Status.Flipped (ask a) (ask' b)) (pass : Status)
    (empty empty' : Warning) :
    Lockstep (D.accord worlds) (fun r r' => Status.Flipped r.1 r'.1 ∧ r.2.Dual D level r'.2)
      (s.update ask pass empty) (s'.update ask' pass.flip empty') := by
  have hsome' : s'.children ≠ [] := by
    intro hnil
    have hlength := hs.children.length_eq
    rw [hnil] at hlength
    exact hs.some (List.eq_nil_of_length_eq_zero hlength)
  rw [update_unguarded hs.some hs.guards, update_unguarded hsome' hs.guards']
  exact hs.advance hturn hask pass

end Series

/-- Two nodes are twins, on that level. -/
structure Duality.Placed (D : Duality) (level : Nat) (a b : NodeId) : Prop where
  twins : D.twins a b
  level : D.level a = level

namespace NodeKind

variable {k k' : NodeKind H} {frame : TickContext}

/-- Calls of opposite actions. -/
theorem lockstep_call {α : Type} {Q : α → α → Prop} {Rel : H.Action → H.Action → Prop}
    {node node' : NodeId} (hplace : D.Placed level node node') (hbottom : level = 0)
    {hook : α → LeafHook} (hhook : ∀ x y, Q x y → hook y = (hook x).flip)
    {call call' : H.Shared → LeafStep H.Action H.Shared H.Note α}
    (hcall : ∀ {s s' : H.Shared}, s.Alike worlds s' → (call s).Related worlds Q Rel (call' s')) :
    Lockstep (D.accord worlds) (fun r r' => Q r.1 r'.1 ∧ Rel r.2 r'.2) (leaf node hook call)
      (leaf node' hook call') := by
  refine lockstep_leaf (fun x y hxy => ?_) hcall
  exact .cons ⟨⟨hplace.twins, hplace.level.trans hbottom⟩, hhook x y hxy⟩ .nil

theorem Dual.enter (hk : k.Dual worlds D c c' level k')
    (hplace : D.Placed level (c frame).node (c' frame).node) {flagged flagged' : NodeId → Bool}
    (hplain : ∀ {a b}, D.twins a b → D.plain a → flagged a = false ∧ flagged' b = false) :
    Lockstep (D.accord worlds) (fun r r' => r.Dual worlds D c c' level r' ∧ r.InRange)
      (k.enter (c frame) flagged) (k'.enter (c' frame) flagged') := by
  -- A series begins with its first child, and it has one.
  have hfirst {series : Series} (hsome : series.children ≠ []) (turn : Nat)
      (hturn : some (series.enter flagged).current = some turn) :
      turn < series.children.length := by
    obtain rfl : 0 = turn := Option.some.inj hturn
    exact List.length_pos_of_ne_nil hsome
  cases hk with
  | root child => exact lockstep_pure ⟨.root child, nofun⟩
  | action hbottom hopposite =>
    obtain ⟨Rel, hRel, ha⟩ := hopposite
    refine (lockstep_call hplace hbottom (fun _ _ _ => rfl) (hRel.enter frame ha)).bind ?_
    rintro r r' ⟨-, ha⟩
    exact lockstep_pure ⟨.action hbottom ⟨Rel, hRel, ha⟩, nofun⟩
  | sequence hs => exact lockstep_pure ⟨.sequence (hs.enter hplain), hfirst hs.some⟩
  | selector hs => exact lockstep_pure ⟨.selector (hs.enter hplain), hfirst hs.some⟩

theorem Dual.update (hk : k.Dual worlds D c c' level k') (hrange : k.InRange)
    (hplace : D.Placed level (c frame).node (c' frame).node)
    (hask : ∀ {a b}, D.Below level a b →
      Lockstep (D.accord worlds) Status.Flipped (ask a) (ask' b)) :
    Lockstep (D.accord worlds)
      (fun r r' => (Status.Flipped r.1 r'.1 ∧ r.2.Dual worlds D c c' level r'.2) ∧
        (r.1 = .running → r.2.InRange))
      (k.update (c frame) ask) (k'.update (c' frame) ask') := by
  refine Lockstep.and_answers ?_ (k.update_inRange (c frame) ask)
  cases hk with
  | root child =>
    exact (hask child).bind fun _ _ hanswer => lockstep_pure ⟨hanswer, .root child⟩
  | action hbottom hopposite =>
    obtain ⟨Rel, hRel, ha⟩ := hopposite
    have hhook (x y : Status) (hxy : x.Flipped y) : LeafHook.update y = (LeafHook.update x).flip :=
      congrArg LeafHook.update hxy
    refine (lockstep_call hplace hbottom hhook (hRel.update frame ha)).bind ?_
    rintro r r' ⟨hanswer, ha⟩
    exact lockstep_pure ⟨hanswer, .action hbottom ⟨Rel, hRel, ha⟩⟩
  -- What a sequence passes on with is the opposite of what a selector does.
  | sequence hs =>
    refine (hs.update (hrange _ rfl) hask .success _ _).bind ?_
    rintro r r' ⟨hanswer, hs⟩
    exact lockstep_pure ⟨hanswer, .sequence hs⟩
  | selector hs =>
    refine (hs.update (hrange _ rfl) hask .fail _ _).bind ?_
    rintro r r' ⟨hanswer, hs⟩
    exact lockstep_pure ⟨hanswer, .selector hs⟩

theorem Dual.settle (hk : k.Dual worlds D c c' level k')
    (hplace : D.Placed level (c frame).node (c' frame).node) (status : Status) :
    Lockstep (D.accord worlds)
      (fun r r' => r.Dual worlds D c c' level r' ∧ (k.InRange → r.InRange))
      (k.settle (c frame) status) (k'.settle (c' frame) status.flip) := by
  unfold NodeKind.settle
  rw [Status.isTerminal_flip]
  split
  · cases hk with
    | root child => exact lockstep_pure ⟨.root child, id⟩
    | action hbottom hopposite =>
      obtain ⟨Rel, hRel, ha⟩ := hopposite
      refine (lockstep_call hplace hbottom (fun _ _ _ => rfl) (hRel.exit frame ha)).bind ?_
      rintro r r' ⟨-, ha⟩
      exact lockstep_pure ⟨.action hbottom ⟨Rel, hRel, ha⟩, fun _ => nofun⟩
    | sequence hs => exact lockstep_pure ⟨.sequence hs, id⟩
    | selector hs => exact lockstep_pure ⟨.selector hs, id⟩
  · exact lockstep_pure ⟨hk, id⟩

end NodeKind

section Updates

variable {n n' : Node H} {path path' : List NodeId} {a b : NodeId}

theorem Node.Dual.begin (hn : n.Dual worlds D n') (frame : TickContext) :
    Lockstep (D.accord worlds)
      (fun k k' => k.Dual worlds D n.context n'.context (D.level n.id) k' ∧ k.InRange)
      (n.begin (n.context frame) fun s c => s.isGuard path c)
      (n'.begin (n'.context frame) fun s c => s.isGuard path' c) := by
  unfold Node.begin
  rw [hn.running]
  split
  · next hrunning => exact lockstep_pure ⟨hn.kind, hn.turn hrunning⟩
  · have hentered : Lockstep (D.accord worlds) (fun _ _ => True) (emit (.entered n.id))
        (emit (.entered n'.id)) := lockstep_emit nofun nofun
    refine hentered.bind fun _ _ _ => ?_
    refine lockstep_stage fun s s' (hs : s.Dual worlds D s') => ?_
    exact hn.kind.enter ⟨hn.id, rfl⟩ (fun hab hplain => hs.isGuard hab hplain path path') s s' hs

theorem Node.Dual.update (hn : n.Dual worlds D n') (frame : TickContext)
    (hask : ∀ {a b}, D.Below (D.level n.id) a b →
      Lockstep (D.accord worlds) Status.Flipped (ask a) (ask' b)) :
    Lockstep (D.accord worlds) (fun r r' => Status.Flipped r.1 r'.1 ∧ r.2.Dual worlds D r'.2)
      (n.update frame (fun s c => s.isGuard path c) ask)
      (n'.update frame (fun s c => s.isGuard path' c) ask') := by
  refine (hn.begin frame).bind fun k k' ⟨hk, hrange⟩ => ?_
  refine (hk.update hrange ⟨hn.id, rfl⟩ hask).bind ?_
  rintro ⟨status, k⟩ ⟨_, k'⟩ ⟨⟨rfl, hk⟩, hrange⟩
  have htold : (D.accord worlds).traces [.event ⟨frame.tick, n.id, n.guid, status⟩]
      [.event ⟨frame.tick, n'.id, n'.guid, status.flip⟩] := .nil
  refine (lockstep_announce htold n.observers n'.observers).bind fun _ _ _ => ?_
  refine (hk.settle ⟨hn.id, rfl⟩ status).bind fun k k' ⟨hk, hkept⟩ => ?_
  refine lockstep_pure ⟨rfl, hn.id, hk, status.isRunning_flip, fun hrunning => ?_, hn.plain⟩
  exact hkept (hrange (by simpa [Status.isRunning] using hrunning))

/-- If updates may go as deep as there are levels, those of twins do the same and answer the
opposite. -/
theorem updateNode_dual (frame : TickContext) (depth : Nat) (hab : D.twins a b)
    (hpath : List.Forall₂ (fun p q => D.twins p q ∧ D.level a < D.level p) path path')
    (hdepth : D.level a < depth) :
    Lockstep (D.accord worlds) Status.Flipped (updateNode frame depth path a)
      (updateNode frame depth path' b) := by
  -- Levels go down with the depth, so what is asked is found as long as there is depth left.
  induction depth generalizing path path' a b with
  | zero => exact absurd hdepth (Nat.not_lt_zero _)
  | succ depth ih =>
    refine lockstep_asking (fun _ _ => nofun) (fun _ _ _ => nofun) ?_
    refine lockstep_stage fun s s' (hs : s.Dual worlds D s') => ?_
    obtain ⟨n, n', hn, hn', hdual⟩ := hs.find? hab hpath
    obtain ⟨-, rfl, -⟩ := find?_some hn
    obtain ⟨-, rfl, -⟩ := find?_some hn'
    rw [hn, hn']
    -- Whoever is asked next is further down than the node and all that lead to it.
    have hask {c d : NodeId} (hcd : D.Below (D.level n.id) c d) :
        Lockstep (D.accord worlds) Status.Flipped (updateNode frame depth (n.id :: path) c)
          (updateNode frame depth (n'.id :: path') d) := by
      have hbelow : List.Forall₂ (fun p q => D.twins p q ∧ D.level c < D.level p) path path' :=
        hpath.imp fun p q hpq => ⟨hpq.1, hcd.2.trans hpq.2⟩
      exact ih hcd.1 (.cons ⟨hab, hcd.2⟩ hbelow) (hcd.2.trans_le (Nat.le_of_lt_succ hdepth))
    refine (hdual.update frame hask).bind ?_ s s' hs
    rintro ⟨status, m⟩ ⟨status', m'⟩ ⟨hanswer, hm⟩
    have hrestore : Lockstep (D.accord worlds) (fun _ _ => True) (edit (·.restore m))
        (edit (·.restore m')) := fun s s' hs => ⟨trivial, hs.restore hm, .nil⟩
    exact hrestore.bind fun _ _ _ => lockstep_pure hanswer

end Updates

/-! ### Dual trees -/

structure Tree.Dual (worlds : H.World → H.World → Prop) (D : Duality) (t t' : Tree H) : Prop where
  root : D.twins t.root t'.root
  nodes : ∀ {a b}, D.twins a b →
    ∃ n n', t.node? a = some n ∧ t'.node? b = some n' ∧ n.Dual worlds D n'
  entries : t'.blackboard.entries = t.blackboard.entries
  rng : t'.rng = t.rng

namespace Tree

variable {t t' : Tree H}

/-- Dual ticks: the leaves are called in the same way, and the trees answer the opposite. -/
structure TickedDual (worlds : H.World → H.World → Prop) (D : Duality) (r r' : Ticked H) :
    Prop where
  status : r'.tree.status = r.tree.status.flip
  calls : List.Forall₂ D.Calls r.trace.calls r'.trace.calls
  world : worlds r.world r'.world
  tree : r.tree.Dual worlds D r'.tree

theorem Dual.tick (h : t.Dual worlds D t') (frame : TickContext) {world world' : H.World}
    (hworld : worlds world world') (audience audience' : H.Audience) :
    TickedDual worlds D (t.tick frame world audience) (t'.tick frame world' audience') := by
  -- A tick that may go deeper is the same, so both may go as deep as is enough for either.
  let depth := t.size+t'.size+D.level t.root+1
  have hrun := t.tick_deeper frame world audience (show t.size < depth by omega)
  have hrun' := t'.tick_deeper frame world' audience' (show t'.size < depth by omega)
  have hstages : (D.accord worlds).stages (t.stage world audience) (t'.stage world' audience') :=
    ⟨h.nodes, h.entries, h.rng, hworld⟩
  obtain ⟨hanswer, hstage, hcalls⟩ :=
    updateNode_dual frame depth h.root .nil (show D.level t.root < depth by omega) _ _ hstages
  rw [hrun, hrun'] at hanswer hstage hcalls
  obtain ⟨hentries, hrng, hworld⟩ := hstage.shared
  exact ⟨hanswer, hcalls, hworld, h.root, hstage.nodes, hentries, hrng⟩

theorem Dual.run (h : t.Dual worlds D t') {world world' : H.World} (hworld : worlds world world')
    (audience audience' : H.Audience) (frames : List TickContext) :
    worlds (t.run world audience frames).1.world (t'.run world' audience' frames).1.world ∧
      (t.run world audience frames).1.tree.Dual worlds D
        (t'.run world' audience' frames).1.tree := by
  induction frames generalizing t t' world world' audience audience' with
  | nil => exact ⟨hworld, h⟩
  | cons frame frames ih =>
    have hfirst := h.tick frame hworld audience audience'
    exact ih hfirst.tree hfirst.world (t.tick frame world audience).audience
      (t'.tick frame world' audience').audience

/-! ### A sequence and a selector -/

/-- The tree has that node right under its root, and neither of them runs. -/
structure RootOver (t : Tree H) (top : NodeId) (kind : NodeKind H) : Prop where
  root : ∃ n, t.node? t.root = some n ∧ n.kind = .root (some top) ∧ n.running = false
  top : ∃ n, t.node? top = some n ∧ n.kind = kind ∧ n.running = false

end Tree

/-- The second node is an action like the first, which does the same and answers the opposite, and
neither is flagged. -/
structure Node.OppositeLeaf (worlds : H.World → H.World → Prop) (n n' : Node H) : Prop where
  actions : ∃ a a', n.kind = .action a ∧ n'.kind = .action a' ∧
    H.Opposite worlds n.context n'.context a a'
  running : n'.running = n.running
  unflagged : n.alwaysCheck = false ∧ n'.alwaysCheck = false

theorem Node.Dual.of_node? {t t' : Tree H} {a b : NodeId} {n n' : Node H}
    (hn : t.node? a = some n) (hn' : t'.node? b = some n') (hab : D.twins a b)
    (hkind : n.kind.Dual worlds D n.context n'.context (D.level a) n'.kind)
    (hrunning : n'.running = n.running) (hturn : n.running → n.kind.InRange)
    (hplain : D.plain a → n.alwaysCheck = false ∧ n'.alwaysCheck = false) :
    n.Dual worlds D n' := by
  obtain ⟨-, rfl⟩ := Tree.node?_some hn
  obtain ⟨-, rfl⟩ := Tree.node?_some hn'
  exact ⟨hab, hkind, hrunning, hturn, hplain⟩

/-- Roots are above series, and series above leaves. -/
def NodeKind.rank : NodeKind H → Nat
  | root _ => 2
  | action _ | condition _ => 0
  | repeater _ | sequence _ | selector _ | parallel _ | randomChoice _ _ => 1

def Tree.rank (t : Tree H) (id : NodeId) : Nat := (t.node? id).elim 0 (·.kind.rank)

namespace Tree

variable {t t' : Tree H} {top top' : NodeId} {cs cs' : List NodeId}

/-- Root and root go together, top and top, and the leaves by their positions. -/
inductive Across (t t' : Tree H) (top top' : NodeId) (cs cs' : List NodeId) :
    NodeId → NodeId → Prop where
  | root : Across t t' top top' cs cs' t.root t'.root
  | top : Across t t' top top' cs cs' top top'
  | leaf {a b : NodeId} (position : (a, b) ∈ cs.zip cs') : Across t t' top top' cs cs' a b

theorem rank_eq {n : Node H} {id : NodeId} (hn : t.node? id = some n) :
    t.rank id = n.kind.rank := by
  rw [rank, hn]
  rfl

theorem RootOver.ranks {kind : NodeKind H} (h : t.RootOver top kind) :
    t.rank t.root = 2 ∧ t.rank top = kind.rank := by
  obtain ⟨n, hn, hroot, -⟩ := h.root
  obtain ⟨m, hm, htop, -⟩ := h.top
  rw [rank_eq hn, rank_eq hm, hroot, htop]
  exact ⟨rfl, rfl⟩

section Across

variable (hleaves : List.Forall₂ (fun a b => ∃ n n', t.node? a = some n ∧ t'.node? b = some n' ∧
  n.OppositeLeaf worlds n') cs cs')

include hleaves

theorem rank_leaf {a b : NodeId} (hab : (a, b) ∈ cs.zip cs') : t.rank a = 0 ∧ t'.rank b = 0 := by
  obtain ⟨n, n', hn, hn', hleaf⟩ := (List.forall₂_iff_zip.mp hleaves).2 hab
  obtain ⟨a, a', hkind, hkind', -⟩ := hleaf.actions
  rw [rank_eq hn, rank_eq hn', hkind, hkind']
  exact ⟨rfl, rfl⟩

variable (hsequence : t.RootOver top (.sequence (.idle cs)))
  (hselector : t'.RootOver top' (.selector (.idle cs')))

include hsequence hselector

/-- No node goes together with two. -/
theorem across_unique
    (hsame : ∀ a b c d, (a, b) ∈ cs.zip cs' → (c, d) ∈ cs.zip cs' → (a = c ↔ b = d))
    {a b c d : NodeId} (hab : Across t t' top top' cs cs' a b)
    (hcd : Across t t' top top' cs cs' c d) : a = c ↔ b = d := by
  -- Nodes of different ranks differ, in both trees.
  have hranks {a b : NodeId} (hab : Across t t' top top' cs cs' a b) :
      (t.rank a = 2 ∧ t'.rank b = 2 ∧ a = t.root ∧ b = t'.root) ∨
        (t.rank a = 1 ∧ t'.rank b = 1 ∧ a = top ∧ b = top') ∨
        (t.rank a = 0 ∧ t'.rank b = 0 ∧ (a, b) ∈ cs.zip cs') := by
    cases hab with
    | root => exact .inl ⟨hsequence.ranks.1, hselector.ranks.1, rfl, rfl⟩
    | top => exact .inr (.inl ⟨hsequence.ranks.2, hselector.ranks.2, rfl, rfl⟩)
    | leaf hab => exact .inr (.inr ⟨(rank_leaf hleaves hab).1, (rank_leaf hleaves hab).2, hab⟩)
  have hleaf := hsame a b c d
  have hfirst := hranks hab
  have hsecond := hranks hcd
  grind

variable (hsame : ∀ a b c d, (a, b) ∈ cs.zip cs' → (c, d) ∈ cs.zip cs' → (a = c ↔ b = d))

/-- The nodes of the two trees that go together. -/
def duality : Duality where
  twins := Across t t' top top' cs cs'
  unique := across_unique hleaves hsequence hselector hsame
  level := t.rank
  plain a := t.rank a = 0

include hsame

theorem dual (hsome : cs ≠ []) (hentries : t'.blackboard.entries = t.blackboard.entries)
    (hrng : t'.rng = t.rng) :
    t.Dual worlds (duality hleaves hsequence hselector hsame) t' := by
  let D := duality hleaves hsequence hselector hsame
  obtain ⟨hroot, htop⟩ := hsequence.ranks
  have hchildren : List.Forall₂ (fun a b => D.Below (D.level top) a b ∧ D.plain a) cs cs' := by
    refine List.forall₂_iff_zip.mpr ⟨hleaves.length_eq, fun {a b} hab => ?_⟩
    have ha : t.rank a = 0 := (rank_leaf hleaves hab).1
    refine ⟨⟨.leaf hab, ?_⟩, ha⟩
    change t.rank a < t.rank top
    rw [ha, htop]
    exact Nat.one_pos
  refine ⟨.root, fun hab => ?_, hentries, hrng⟩
  -- Only leaves are plain, and none of them is flagged.
  cases hab with
  | root =>
    obtain ⟨n, hn, hkind, hidle⟩ := hsequence.root
    obtain ⟨n', hn', hkind', hidle'⟩ := hselector.root
    refine ⟨n, n', hn, hn', .of_node? hn hn' .root ?_ (hidle'.trans hidle.symm) (by simp [hidle])
      fun hplain => nomatch hroot.symm.trans hplain⟩
    rw [hkind, hkind']
    refine .root ⟨.top, ?_⟩
    change t.rank top < t.rank t.root
    rw [hroot, htop]
    exact Nat.one_lt_two
  | top =>
    obtain ⟨n, hn, hkind, hidle⟩ := hsequence.top
    obtain ⟨n', hn', hkind', hidle'⟩ := hselector.top
    refine ⟨n, n', hn, hn', .of_node? hn hn' .top ?_ (hidle'.trans hidle.symm) (by simp [hidle])
      fun hplain => nomatch htop.symm.trans hplain⟩
    rw [hkind, hkind']
    exact .sequence ⟨hsome, hchildren, rfl, rfl, rfl⟩
  | leaf hab =>
    obtain ⟨n, n', hn, hn', hleaf⟩ := (List.forall₂_iff_zip.mp hleaves).2 hab
    obtain ⟨x, x', hkind, hkind', hopposite⟩ := hleaf.actions
    refine ⟨n, n', hn, hn', .of_node? hn hn' (.leaf hab) ?_ hleaf.running ?_ fun _ =>
      hleaf.unflagged⟩
    · rw [hkind, hkind']
      exact .action (rank_leaf hleaves hab).1 hopposite
    · rw [hkind]
      exact fun _ => nofun

end Across

end Tree

/-- Selectors are dual to sequences. One tree has a sequence of leaves under its root, and another
has a selector of leaves that do the same but answer the opposite, a leaf in two places being
replaced by the same in both; no leaf is flagged. After any number of ticks, the next one calls the
same leaves in the same order in both trees with the same hooks, and leaves the same blackboard and
random stream, and the second tree answers the opposite of the first. -/
theorem selector_dual_to_sequence {t t' : Tree H} {top top' : NodeId} {cs cs' : List NodeId}
    (hsequence : t.RootOver top (.sequence (.idle cs)))
    (hselector : t'.RootOver top' (.selector (.idle cs'))) (hsome : cs ≠ [])
    (hleaves : List.Forall₂ (fun a b => ∃ n n', t.node? a = some n ∧ t'.node? b = some n' ∧
      n.OppositeLeaf worlds n') cs cs')
    (hsame : ∀ a b c d, (a, b) ∈ cs.zip cs' → (c, d) ∈ cs.zip cs' → (a = c ↔ b = d))
    (hentries : t'.blackboard.entries = t.blackboard.entries) (hrng : t'.rng = t.rng)
    {world world' : H.World} (hworld : worlds world world') (audience audience' : H.Audience)
    (frames : List TickContext) (frame : TickContext) :
    let r := (t.run world audience frames).1
    let r' := (t'.run world' audience' frames).1
    let next := r.tree.tick frame r.world r.audience
    let next' := r'.tree.tick frame r'.world r'.audience
    next'.tree.status = next.tree.status.flip ∧
      List.Forall₂ (fun call call' =>
        (call.1, call'.1) ∈ cs.zip cs' ∧ call'.2 = call.2.flip) next.trace.calls next'.trace.calls ∧
      next'.tree.blackboard.entries = next.tree.blackboard.entries ∧
      next'.tree.rng = next.tree.rng ∧ worlds next.world next'.world := by
  intro r r' next next'
  have hdual := Tree.dual hleaves hsequence hselector hsame hsome hentries hrng
  obtain ⟨hworlds, hdual⟩ := hdual.run hworld audience audience' frames
  obtain ⟨hstatus, hcalls, hworlds, hdual⟩ := hdual.tick frame hworlds r.audience r'.audience
  refine ⟨hstatus, hcalls.imp fun call call' hcall => ⟨?_, hcall.2⟩, hdual.entries, hdual.rng,
    hworlds⟩
  -- Only leaves are called, and they go together by their positions.
  obtain ⟨⟨hacross, hbottom⟩, -⟩ := hcall
  obtain ⟨hroot, htop⟩ := hsequence.ranks
  generalize call.1 = a, call'.1 = b at hacross hbottom ⊢
  cases hacross with
  | root => exact nomatch hroot.symm.trans hbottom
  | top => exact nomatch htop.symm.trans hbottom
  | leaf hab => exact hab

namespace Demo

/-- Actions that answer from a script, and run for good when it is over. With every update they flip
the toggle. -/
abbrev scripted : Host where
  ValueType := Unit
  Value _ := Bool
  decEqValueType := inferInstance
  World := TeamBoards
  Note := Rejection
  Action := List Status
  Condition := Condition
  Observer := Listener
  Audience := Recordings
  enter _ script s := quiet () script s
  update context script s :=
    ⟨script.headD .running, script.tail, (Condition.toggle.check flagsOnly context s).shared, []⟩
  exit _ script s := quiet () script s
  check context c s := c.check flagsOnly context s
  notify _ o r := ⟨o, r, [], false⟩

/-- With success and failure exchanged in its script an action answers the opposite. -/
theorem scripted_opposite (c c' : TickContext → LeafContext) (script : List Status) :
    scripted.Opposite Eq c c' script (script.map Status.flip) := by
  refine ⟨fun a a' => a' = a.map Status.flip, ⟨?_, ?_, ?_⟩, rfl⟩
  · rintro frame a _ s s' rfl hs
    exact ⟨rfl, rfl, hs⟩
  · rintro frame a _ s s' rfl hs
    refine ⟨?_, List.map_tail.symm, (check_alike flagsOnly hs (c frame) (c' frame) .toggle).shared⟩
    cases a with
    | nil => rfl
    | cons status rest => rfl
  · rintro frame a _ s s' rfl hs
    exact ⟨rfl, rfl, hs⟩

/-- Two actions under a composite of the given kind. -/
def pair (kind : Series → NodeKind scripted) (first second : List Status) : Tree scripted where
  root := .ofNat 1
  nodes := [.make (.ofNat 1) "Root" (.root (some (.ofNat 2))),
    .make (.ofNat 2) "Composite" (kind (.idle [.ofNat 3, .ofNat 4])),
    .make (.ofNat 3) "Scripted" (.action first), .make (.ofNat 4) "Scripted" (.action second)]
  blackboard := .empty default
  owner := none
  registry := .builtin
  seed := 0
  rng := ⟨0⟩
  status := .running
  observers := []

theorem pair_rootOver (kind : Series → NodeKind scripted) (first second : List Status) :
    (pair kind first second).RootOver (.ofNat 2) (kind (.idle [.ofNat 3, .ofNat 4])) :=
  ⟨⟨_, rfl, rfl, rfl⟩, ⟨_, rfl, rfl, rfl⟩⟩

end Demo

/-- The sequence ends in success on the third tick, and the selector in failure. On the fourth both
begin again with the first action. -/
theorem selector_dual_to_sequence_scripted :
    let first : List Status := [.running, .success, .fail]
    let second : List Status := [.success]
    let frames : List TickContext := [⟨0, 0, 0⟩, ⟨1, 0, 0⟩, ⟨2, 0, 0⟩]
    let r := (Demo.pair .sequence first second).run ⟨∅⟩ ⟨∅⟩ frames
    let r' := (Demo.pair .selector (first.map .flip) (second.map .flip)).run ⟨∅⟩ ⟨∅⟩ frames
    let next := r.1.tree.tick ⟨3, 0, 0⟩ r.1.world r.1.audience
    let next' := r'.1.tree.tick ⟨3, 0, 0⟩ r'.1.world r'.1.audience
    r.2 = [.running, .running, .success] ∧ r'.2 = [.running, .running, .fail] ∧
      next.trace.calls = [(.ofNat 3, .enter), (.ofNat 3, .update .fail), (.ofNat 3, .exit)] ∧
      next'.trace.calls = [(.ofNat 3, .enter), (.ofNat 3, .update .success), (.ofNat 3, .exit)] ∧
      next.tree.status = .fail ∧ next'.tree.status = next.tree.status.flip ∧
      next'.tree.blackboard.entries = next.tree.blackboard.entries := by
  intro first second frames r r' next next'
  have hleaf (script : List Status) (id : NodeId) :
      (Node.make (H := Demo.scripted) id "Scripted" (.action script)).OppositeLeaf Eq
        (.make id "Scripted" (.action (script.map Status.flip))) :=
    ⟨⟨script, _, rfl, rfl, Demo.scripted_opposite _ _ script⟩, rfl, rfl, rfl⟩
  have hsame (a b c d : NodeId) :
      (a, b) ∈ [NodeId.ofNat 3, .ofNat 4].zip [.ofNat 3, .ofNat 4] →
        (c, d) ∈ [NodeId.ofNat 3, .ofNat 4].zip [.ofNat 3, .ofNat 4] → (a = c ↔ b = d) := by
    simp only [List.zip_cons_cons, List.zip_nil_right, List.mem_cons, Prod.mk.injEq]
    grind
  obtain ⟨hstatus, -, hentries, -, -⟩ := selector_dual_to_sequence
    (Demo.pair_rootOver .sequence first second)
    (Demo.pair_rootOver .selector (first.map .flip) (second.map .flip)) (List.cons_ne_nil _ _)
    (.cons ⟨_, _, rfl, rfl, hleaf first _⟩ (.cons ⟨_, _, rfl, rfl, hleaf second _⟩ .nil))
    hsame rfl rfl (rfl : (⟨∅⟩ : TeamBoards) = ⟨∅⟩) ⟨∅⟩ ⟨∅⟩ frames ⟨3, 0, 0⟩
  refine ⟨by decide +kernel, by decide +kernel, by decide +kernel, by decide +kernel,
    by decide +kernel, hstatus, ?_⟩
  -- The ticks spelled out, as they are in what was obtained.
  simp only [next, next', r, r']
  exact hentries

end BehaviourTree
