import BehaviourTree.Proofs.Ownership
import BehaviourTree.Proofs.RandomChoices
import BehaviourTree.Proofs.Stock
import BehaviourTree.Proofs.TypedMap

/-!
Toggles: all toggles of a tree share one entry of its blackboard, so it is the checks of the tree
that alternate, whichever toggles they are of and whoever asks for them.
-/

namespace BehaviourTree

open Ticking

variable {H : Host} {id : NodeId}

/-! ### Checks of one entry -/

namespace Demo.Stock

variable (stock : Stock H)

/-- What is under a key that holds a flag. -/
def flagged (b : Bool) : Option ((t : H.ValueType) × H.Value t) :=
  some ⟨stock.flag.type, stock.flag.encode b⟩

/-- What a check answers to what it finds, and what it leaves. -/
def flip (e : Option ((t : H.ValueType) × H.Value t)) :
    Bool × Option ((t : H.ValueType) × H.Value t) :=
  match e with
  | none => (true, stock.flagged true)
  | some ⟨t, v⟩ =>
    if h : t = stock.flag.type then
      (!stock.flag.decode (h ▸ v), stock.flagged (!stock.flag.decode (h ▸ v)))
    else (false, some ⟨t, v⟩)

/-- Checks in a row: each finds what the one before has left. -/
def Flips (e : Option ((t : H.ValueType) × H.Value t)) (checks : List Bool)
    (e' : Option ((t : H.ValueType) × H.Value t)) : Prop :=
  match checks with
  | [] => e' = e
  | holds :: rest => holds = (stock.flip e).1 ∧ Flips (stock.flip e).2 rest e'

variable {stock} {e e' e'' : Option ((t : H.ValueType) × H.Value t)} {b : Bool}
  {checks checks' : List Bool}

theorem flip_flagged (b : Bool) : stock.flip (stock.flagged b) = (!b, stock.flagged (!b)) := by
  simp [flip, flagged, stock.flag.decode_encode]

theorem flip_other {t : H.ValueType} {v : H.Value t} (h : t ≠ stock.flag.type) :
    stock.flip (some ⟨t, v⟩) = (false, some ⟨t, v⟩) := dif_neg h

theorem Flips.append (h : stock.Flips e checks e') (h' : stock.Flips e' checks' e'') :
    stock.Flips e (checks ++ checks') e'' := by
  induction checks generalizing e with
  | nil =>
    obtain rfl : e' = e := h
    exact h'
  | cons holds rest ih => exact ⟨h.1, ih h.2⟩

/-- From a moment on at which the next check is to turn `b` over, they alternate. -/
theorem Flips.alternate (h : stock.Flips e checks e')
    (he : stock.flip e = (!b, stock.flagged (!b))) :
    (∀ k (hk : k < checks.length), checks[k] = (b ^^ (k % 2 = 0))) ∧
      e' = (checks.getLast?.elim e stock.flagged) := by
  induction checks generalizing e b with
  | nil => exact ⟨fun _ hk => absurd hk (Nat.not_lt_zero _), h⟩
  | cons holds rest ih =>
    obtain ⟨hfirst, hrest⟩ := h
    rw [he] at hfirst hrest
    obtain ⟨hlater, hlast⟩ := ih hrest (flip_flagged _)
    refine ⟨fun k hk => ?_, ?_⟩
    · cases k with
      | zero => simpa using hfirst
      | succ k =>
        rw [List.getElem_cons_succ, hlater k (Nat.lt_of_succ_lt_succ hk)]
        by_cases hparity : k % 2 = 0
        · simp [hparity, show (k+1) % 2 = 1 by omega]
        · simp [show k % 2 = 1 by omega, show (k+1) % 2 = 0 by omega]
    · rw [hlast]
      cases rest with
      | nil => exact congrArg stock.flagged hfirst.symm
      | cons next rest => simp [List.getLast?_cons]

/-- None of them holds over a value of another type, and the value stays. -/
theorem Flips.other {t : H.ValueType} {v : H.Value t} (ht : t ≠ stock.flag.type)
    (h : stock.Flips (some ⟨t, v⟩) checks e') :
    (∀ holds ∈ checks, holds = false) ∧ e' = some ⟨t, v⟩ := by
  induction checks with
  | nil => exact ⟨fun _ hin => absurd hin List.not_mem_nil, h⟩
  | cons holds rest ih =>
    obtain ⟨hfirst, hrest⟩ := h
    rw [flip_other ht] at hfirst hrest
    obtain ⟨hlater, hlast⟩ := ih hrest
    exact ⟨List.forall_mem_cons.mpr ⟨hfirst, hlater⟩, hlast⟩

/-- A ready-made toggle turns over what is under its key. -/
theorem check_toggle (context : LeafContext) (s : Shared H.Value TeamBoards) :
    let r := Condition.toggle.check stock.flag context s
    (r.answer, r.shared.blackboard.entries[toggleKey]?) =
      stock.flip s.blackboard.entries[toggleKey]? := by
  intro r
  cases hentry : s.blackboard.entries[toggleKey]? with
  | none =>
    have hget : s.blackboard.get? toggleKey stock.flag.type = none := by
      rw [Blackboard.get?, Blackboard.get_of_none hentry]
      rfl
    simp [r, Condition.check, Blackboard.set, hget, hentry, quiet, flip, flagged]
  | some e =>
    obtain ⟨t, v⟩ := e
    by_cases ht : t = stock.flag.type
    · subst ht
      have hget : s.blackboard.get? toggleKey stock.flag.type = some v := by
        rw [Blackboard.get?, Blackboard.get_of_some hentry]
        rfl
      simp [r, Condition.check, Blackboard.set, hget, hentry, quiet, flip, flagged]
    · rw [flip_other ht]
      simp [r, Condition.check, Blackboard.set, hentry, ht, quiet]

/-- So does a toggle of the host, and stays one. -/
theorem check_flip {c : H.Condition} (h : stock.condition? c = some .toggle)
    (context : LeafContext) (s : H.Shared) :
    let r := H.check context c s
    stock.condition? r.leaf = some .toggle ∧
      (r.answer, r.shared.blackboard.entries[toggleKey]?) =
        stock.flip s.blackboard.entries[toggleKey]? := by
  intro r
  have hserves := stock.check context c s
  refine ⟨?_, ?_⟩
  · rw [hserves.leaf, h]
    rfl
  · rw [hserves.answer _ h, hserves.blackboard _ h]
    exact check_toggle context ⟨s.blackboard, s.rng, stock.boards s.world⟩

end Demo.Stock

/-! ### Checks in a trace -/

/-- What a node of these has answered to a check. -/
def TraceItem.check? (among : NodeId → Bool) : TraceItem H → Option Bool
  | .called node (.check holds) => if among node then some holds else none
  | _ => none

/-- The answers of these nodes to their checks. -/
def Trace.checksOf (among : NodeId → Bool) (τ : Trace H) : List Bool := τ.filterMap (·.check? among)

namespace Trace

variable {among : NodeId → Bool}

theorem checksOf_append (τ τ' : Trace H) :
    checksOf among (τ ++ τ') = checksOf among τ ++ checksOf among τ' := List.filterMap_append

theorem checksOf_eq_nil {τ : Trace H}
    (h : ∀ i ∈ τ, ∀ node holds, i = .called node (.check holds) → among node = false) :
    checksOf among τ = [] := by
  refine List.filterMap_eq_nil_iff.mpr fun i hi => ?_
  cases i with
  | called node hook =>
    cases hook with
    | check holds => simp [TraceItem.check?, h _ hi node holds rfl]
    | _ => rfl
  | _ => rfl

theorem checksOf_notes (notes : List H.Note) : checksOf among (notes.map .note) = [] := by
  refine checksOf_eq_nil fun i hi node holds heq => ?_
  obtain ⟨_, -, rfl⟩ := List.mem_map.mp hi
  cases heq

/-- What is called when the event of a node is out is the exit of an action. -/
theorem checksOf_event (e : StatusEvent) {behind : Trace H} (h : ∀ i ∈ behind, i.Behind id) :
    checksOf among (.event e :: behind) = [] := by
  refine checksOf_eq_nil fun i hi node holds heq => ?_
  subst heq
  cases (h _ ((List.mem_cons.mp hi).resolve_left nofun)).2

/-- Neither a question nor its answer is a check. -/
theorem checksOf_asked (caller : Option NodeId) (node : NodeId) (status : Status) (τ : Trace H) :
    checksOf among (.asked caller node :: τ ++ [.answered caller node status]) =
      checksOf among τ := by
  rw [checksOf_append]
  exact List.append_nil _

theorem checksOf_check {node : NodeId} (h : among node = true) (holds : Bool)
    (notes : List H.Note) (τ : Trace H) :
    checksOf among (.called node (.check holds) :: notes.map .note ++ τ) =
      holds :: checksOf among τ := by
  rw [checksOf_append]
  change List.filterMap _ (_ :: _) ++ _ = _
  rw [List.filterMap_cons_some (b := holds) (by simp [TraceItem.check?, h])]
  exact congrArg (holds :: · ++ checksOf among τ) (checksOf_notes notes)

end Trace

/-- Leaves that leave what is under a key as it is, and turn into no others than such. -/
structure Host.Spares (H : Host) (key : String) (A : H.Action → Prop) (C : H.Condition → Prop) :
    Prop where
  enter : ∀ context a s, A a → A (H.enter context a s).leaf ∧
    (H.enter context a s).shared.blackboard.entries[key]? = s.blackboard.entries[key]?
  update : ∀ context a s, A a → A (H.update context a s).leaf ∧
    (H.update context a s).shared.blackboard.entries[key]? = s.blackboard.entries[key]?
  exit : ∀ context a s, A a → A (H.exit context a s).leaf ∧
    (H.exit context a s).shared.blackboard.entries[key]? = s.blackboard.entries[key]?
  check : ∀ context c s, C c → C (H.check context c s).leaf ∧
    (H.check context c s).shared.blackboard.entries[key]? = s.blackboard.entries[key]?

/-- What is under the key of the toggles. -/
def Stage.toggled (s : Stage H) : Option ((t : H.ValueType) × H.Value t) :=
  s.shared.blackboard.entries[Demo.toggleKey]?

theorem Stage.setRng_toggled (s : Stage H) (rng : SplitMix64) :
    (s.setRng rng).toggled = s.toggled := rfl

namespace Demo.Stock

variable (stock : Stock H) (A : H.Action → Prop) (C : H.Condition → Prop)

def isToggle : NodeKind H → Bool
  | .condition c => stock.condition? c = some .toggle
  | _ => false

/-- The node of the identifier is a toggle. -/
def toggleAmong (nodes : List (Node H)) (id : NodeId) : Bool :=
  (nodes.find? (·.id = id)).any fun n => stock.isToggle n.kind

/-- Toggles and others. -/
def OrToggle (c : H.Condition) : Prop := stock.condition? c = some .toggle ∨ C c

/-- The kind is one of control nodes, toggles and other leaves such, and a toggle if it is to be. -/
structure Fit (toggle : Bool) (k : NodeKind H) : Prop where
  leaf : k.LeafOf A (stock.OrToggle C)
  toggle : stock.isToggle k = toggle

/-- The leaves are toggles and others such, and the toggles are among these nodes. -/
structure Marked (among : NodeId → Bool) (s : Stage H) : Prop where
  leaves : ∀ n ∈ s.nodes, n.kind.LeafOf A (stock.OrToggle C)
  toggles : ∀ id n, s.node? id = some n → stock.isToggle n.kind = among id

/-- On the way the toggles take turns, and nothing else changes what they have left. -/
structure Turned (among : NodeId → Bool) (s : Stage H) (τ : Trace H) (s' : Stage H) : Prop where
  marked : stock.Marked A C among s'
  flips : stock.Flips s.toggled (τ.checksOf among) s'.toggled

/-- So it is on the way through the computation, and its answers have a property. -/
def TurnsTo {α : Type} (among : NodeId → Bool) (Q : α → Prop) (m : Ticking H α) : Prop :=
  ∀ s, stock.Marked A C among s → stock.Turned A C among s (m s).trace (m s).stage ∧ Q (m s).answer

variable {stock A C} {among : NodeId → Bool} {α β : Type} {Q : α → Prop} {R : β → Prop}
  {context : LeafContext}

theorem isToggle_of_control {k : NodeKind H} (h : k.shape ≠ .noChildren) :
    stock.isToggle k = false := by
  cases k with
  | action _ | condition _ => exact absurd rfl h
  | _ => rfl

theorem Fit.of_control {k k' : NodeKind H} {toggle : Bool} (h : stock.Fit A C toggle k)
    (hshape : k.shape ≠ .noChildren) (hkept : k'.shape = k.shape) :
    stock.Fit A C toggle k' := by
  have hshape' : k'.shape ≠ .noChildren := hkept ▸ hshape
  refine ⟨NodeKind.leafOf_of_control hshape', ?_⟩
  rw [isToggle_of_control hshape', ← h.toggle, isToggle_of_control hshape]

theorem Turned.append {s s' s'' : Stage H} {τ τ' : Trace H} (h : stock.Turned A C among s τ s')
    (h' : stock.Turned A C among s' τ' s'') : stock.Turned A C among s (τ ++ τ') s'' := by
  refine ⟨h'.marked, ?_⟩
  rw [Trace.checksOf_append]
  exact h.flips.append h'.flips

theorem Turned.of_same {s s' : Stage H} {τ : Trace H} (h : stock.Marked A C among s)
    (hnodes : s'.nodes = s.nodes) (hentry : s'.toggled = s.toggled)
    (hnone : τ.checksOf among = []) : stock.Turned A C among s τ s' := by
  refine ⟨⟨hnodes ▸ h.leaves, fun id n hn => h.toggles id n ?_⟩, ?_⟩
  · rwa [← Stage.node?_of_nodes hnodes id]
  · rw [hnone]
    exact hentry

theorem turnsTo_pure {a : α} (ha : Q a) : stock.TurnsTo A C among Q (pure a : Ticking H α) :=
  fun _ h => ⟨.of_same h rfl rfl rfl, ha⟩

theorem turnsTo_bind {m : Ticking H α} {f : α → Ticking H β} (hm : stock.TurnsTo A C among Q m)
    (hf : ∀ a, Q a → stock.TurnsTo A C among R (f a)) : stock.TurnsTo A C among R (m >>= f) := by
  intro s h
  obtain ⟨hfirst, ha⟩ := hm s h
  obtain ⟨hrest, hb⟩ := hf _ ha (m s).stage hfirst.marked
  exact ⟨hfirst.append hrest, hb⟩

theorem turnsTo_emit {i : TraceItem H} (hi : i.check? among = none) :
    stock.TurnsTo A C among (fun _ => True) (emit i) :=
  fun _ h => ⟨.of_same h rfl rfl (by simp [emit, Trace.checksOf, hi]), trivial⟩

theorem turnsTo_compositional :
    Compositional (H := H) fun _ m _ => stock.TurnsTo A C among (fun _ => True) m :=
  ⟨fun hm hf => turnsTo_bind hm fun a _ => hf a, fun _ => turnsTo_pure trivial,
    fun _ => turnsTo_emit rfl⟩

/-- A call that is no check of a toggle and spares what toggles leave. -/
theorem turnsTo_leaf {Leaf : Type} {L : Leaf → Prop} (node : NodeId) {hook : α → LeafHook}
    {call : H.Shared → LeafStep Leaf H.Shared H.Note α}
    (hhook : ∀ a, TraceItem.check? (H := H) among (.called node (hook a)) = none)
    (hcall : ∀ s, L (call s).leaf ∧
      (call s).shared.blackboard.entries[toggleKey]? = s.blackboard.entries[toggleKey]?) :
    stock.TurnsTo A C among (fun r : α × Leaf => L r.2) (leaf node hook call) := by
  intro s h
  refine ⟨.of_same h rfl (hcall s.shared).2 ?_, (hcall s.shared).1⟩
  change List.filterMap _ (_ :: _) = _
  rw [List.filterMap_cons_none (hhook _)]
  exact Trace.checksOf_notes _

/-- The check of a toggle. -/
theorem turnsTo_toggle {c : H.Condition} (hc : stock.condition? c = some .toggle)
    (hnode : among context.node = true) :
    stock.TurnsTo A C among (fun r => stock.condition? r.2 = some .toggle)
      (leaf context.node .check (H.check context c)) := by
  intro s h
  obtain ⟨hleaf, hflip⟩ := check_flip hc context s.shared
  obtain ⟨hanswer, hentry⟩ := Prod.mk.inj hflip
  refine ⟨⟨⟨h.leaves, h.toggles⟩, ?_⟩, hleaf⟩
  have hchecks := Trace.checksOf_check (H := H) hnode (H.check context c s.shared).answer
    (H.check context c s.shared).notes []
  rw [List.append_nil] at hchecks
  change stock.Flips _ (Trace.checksOf among (.called context.node _ :: _)) _
  rw [hchecks]
  exact ⟨hanswer, hentry⟩

theorem turnsTo_announce (e : StatusEvent) (own : List H.Observer) :
    stock.TurnsTo A C among (fun _ => True) (announce e own) := by
  intro s h
  obtain ⟨hnodes, -, behind, htrace, hbehind⟩ := announce_hear e own s
  refine ⟨.of_same h hnodes ?_ ?_, trivial⟩
  · rw [Stage.toggled, Stage.toggled, announce_shared]
  · rw [htrace]
    exact Trace.checksOf_event e hbehind

theorem turnsTo_settle (spares : H.Spares toggleKey A C) (status : Status) {k : NodeKind H}
    {toggle : Bool} (hk : stock.Fit A C toggle k) :
    stock.TurnsTo A C among (stock.Fit A C toggle) (k.settle context status) := by
  unfold NodeKind.settle
  split
  · cases k with
    | action a =>
      exact turnsTo_bind (turnsTo_leaf context.node (fun _ => rfl)
        fun s => spares.exit context a s hk.leaf) fun _ ha => turnsTo_pure ⟨ha, hk.toggle⟩
    | _ => exact turnsTo_pure hk
  · exact turnsTo_pure hk

theorem turnsTo_pickChild (cs : List NodeId) :
    stock.TurnsTo (H := H) A C among (fun _ => True) (pickChild cs) := by
  have hdraw : stock.TurnsTo (H := H) A C among (fun _ => True) draw32 := fun s h =>
    ⟨.of_same h (s.setRng_nodes s.shared.rng.next32.2) (s.setRng_toggled s.shared.rng.next32.2) rfl,
      trivial⟩
  exact pickChild_congr turnsTo_compositional hdraw cs

theorem turnsTo_begin (spares : H.Spares toggleKey A C) {n : Node H} {toggle : Bool}
    (hn : stock.Fit A C toggle n.kind) (flagged : Stage H → NodeId → Bool) :
    stock.TurnsTo A C among (stock.Fit A C toggle) (n.begin context flagged) := by
  unfold Node.begin
  split
  · exact turnsTo_pure hn
  · refine turnsTo_bind (turnsTo_emit rfl) fun _ _ => ?_
    refine turnsTo_bind (Q := fun _ => True) (fun _ h => ⟨.of_same h rfl rfl rfl, trivial⟩)
      fun s _ => ?_
    generalize n.kind = k at hn
    cases k with
    | action a =>
      exact turnsTo_bind (turnsTo_leaf context.node (fun _ => rfl)
        fun s => spares.enter context a s hn.leaf) fun _ ha => turnsTo_pure ⟨ha, hn.toggle⟩
    | randomChoice cs picked =>
      exact turnsTo_bind (turnsTo_pickChild cs) fun _ _ => turnsTo_pure ⟨trivial, hn.toggle⟩
    | sequence _ | selector _ => exact turnsTo_pure ⟨trivial, hn.toggle⟩
    | root _ | condition _ | repeater _ | parallel _ => exact turnsTo_pure hn

/-- A leaf is called, which may be a toggle that is checked, and a control node asks. -/
theorem turnsTo_update (spares : H.Spares toggleKey A C) {ask : NodeId → Ticking H Status}
    (hask : ∀ c, stock.TurnsTo A C among (fun _ => True) (ask c)) {k : NodeKind H}
    (hk : stock.Fit A C (among context.node) k) :
    stock.TurnsTo A C among (fun r => stock.Fit A C (among context.node) r.2)
      (k.update context ask) := by
  have hcontrol (hshape : k.shape ≠ .noChildren) :
      stock.TurnsTo A C among (fun r => stock.Fit A C (among context.node) r.2)
        (k.update context ask) := by
    have hall : stock.TurnsTo A C among (fun _ => True) (k.update context ask) :=
      @NodeKind.updateControl_congr H (fun _ m _ => stock.TurnsTo A C among (fun _ => True) m) ask
        ask context turnsTo_compositional k (fun c _ => hask c) hshape
    intro s h
    have hkept : (k.update context ask s).answer.2.shape = k.shape :=
      congrArg NodeType.shape (k.update_alike context ask s).1
    exact ⟨(hall s h).1, hk.of_control hshape hkept⟩
  cases k with
  | action a =>
    exact turnsTo_bind (turnsTo_leaf context.node (fun _ => rfl)
      fun s => spares.update context a s hk.leaf) fun _ ha => turnsTo_pure ⟨ha, hk.toggle⟩
  | condition c =>
    have htoggle : decide (stock.condition? c = some .toggle) = among context.node := hk.toggle
    by_cases hc : stock.condition? c = some .toggle
    · have hnode : among context.node = true := by rw [← htoggle, decide_eq_true hc]
      refine turnsTo_bind (turnsTo_toggle hc hnode) fun _ hleft => turnsTo_pure ⟨.inl hleft, ?_⟩
      exact (decide_eq_true hleft).trans hnode.symm
    · -- Another condition does not become a toggle.
      have hnode : among context.node = false := by rw [← htoggle, decide_eq_false hc]
      have hother (s : H.Shared) :
          (C (H.check context c s).leaf ∧ stock.condition? (H.check context c s).leaf ≠
            some .toggle) ∧
          (H.check context c s).shared.blackboard.entries[toggleKey]? =
            s.blackboard.entries[toggleKey]? := by
        obtain ⟨hleaf, hentry⟩ := spares.check context c s (hk.leaf.resolve_left hc)
        refine ⟨⟨hleaf, ?_⟩, hentry⟩
        cases hready : stock.condition? c with
        | none => simp [(stock.check context c s).leaf, hready]
        | some ready =>
          cases ready
          exact absurd hready hc
      refine turnsTo_bind (turnsTo_leaf (L := fun c => C c ∧ stock.condition? c ≠ some .toggle)
        context.node (fun holds => ?_) hother) fun _ hleft => turnsTo_pure ⟨.inr hleft.1, ?_⟩
      · simp [TraceItem.check?, hnode]
      · exact (decide_eq_false hleft.2).trans hnode.symm
  | root _ | repeater _ | sequence _ | selector _ | parallel _ | randomChoice _ _ =>
    exact hcontrol nofun

theorem turnsTo_stepUpdate (spares : H.Spares toggleKey A C) (frame : TickContext)
    (path : List NodeId) {ask : NodeId → Ticking H Status}
    (hask : ∀ c, stock.TurnsTo A C among (fun _ => True) (ask c)) {n : Node H}
    (hn : stock.Fit A C (among n.id) n.kind) :
    stock.TurnsTo A C among (fun r => stock.Fit A C (among n.id) r.2.kind)
      (stepUpdate frame path ask n) := by
  let context : LeafContext := ⟨frame, n.id, n.owner⟩
  refine turnsTo_bind (turnsTo_begin spares hn _) fun k hbegun => ?_
  have hupdate : stock.TurnsTo A C among (fun r => stock.Fit A C (among n.id) r.2)
      (k.update context ask) := turnsTo_update spares hask hbegun
  exact turnsTo_bind hupdate fun r hr => turnsTo_bind (turnsTo_announce _ _) fun _ _ =>
    turnsTo_bind (turnsTo_settle spares r.1 hr) fun _ hk => turnsTo_pure hk

theorem updateNode_turned (spares : H.Spares toggleKey A C) (frame : TickContext) (depth : Nat)
    (path : List NodeId) (id : NodeId) :
    stock.TurnsTo A C among (fun _ => True) (updateNode (H := H) frame depth path id) := by
  have hkeeps : Keeps (fun s τ s' => stock.Marked A C among s → stock.Turned A C among s τ s')
      (updateNode (H := H) frame depth path id) := by
    apply updateNode_induct
      (R := fun _ s τ s' => stock.Marked A C among s → stock.Turned A C among s τ s')
    · exact fun path id s h => .of_same h rfl rfl rfl
    · intro path id s n ask hfind hask h
      obtain ⟨hmem, rfl, hpath⟩ := find?_some hfind
      rw [Stage.find?_eq_node? hpath] at hfind
      have hn : stock.Fit A C (among n.id) n.kind := ⟨h.leaves n hmem, h.toggles n.id n hfind⟩
      obtain ⟨⟨⟨hleaves, htoggles⟩, hflips⟩, hleft⟩ := turnsTo_stepUpdate spares frame path
        (fun c s h => ⟨hask c s h, trivial⟩) hn s h
      rw [← Stage.find?_eq_node? hpath] at hfind
      rw [updateStep_some frame ask hfind]
      refine ⟨⟨fun m hm => ?_, fun id m hm => ?_⟩, ?_⟩
      · obtain ⟨m', hm', rfl⟩ := List.mem_map.mp hm
        split
        · exact hleft.leaf
        · exact hleaves m' hm'
      · have hid : (stepUpdate frame path ask n s).answer.2.id = n.id :=
          congrArg Profile.id
            (n.update_profile frame (fun s c => s.isGuard (n.id :: path) c) ask s)
        rw [Stage.restore_node?, hid] at hm
        split at hm
        · next heq =>
          obtain ⟨_, -, rfl⟩ := Option.map_eq_some_iff.mp hm
          rw [heq]
          exact hleft.toggle
        · exact htoggles id m hm
      · rw [Trace.checksOf_asked]
        exact hflips
  exact fun s h => ⟨hkeeps s h, trivial⟩

end Demo.Stock

/-! ### Histories -/

/-- What is under the key of the toggles. -/
def Tree.toggled (t : Tree H) : Option ((t : H.ValueType) × H.Value t) :=
  t.blackboard.entries[Demo.toggleKey]?

/-- The operation brings in no leaves but toggles and others such, and leaves what is under the key
of the toggles as it is. -/
def Operation.SparesToggles (stock : Demo.Stock H) (A : H.Action → Prop) (C : H.Condition → Prop) :
    Operation H → Prop
  | .add k => k.LeafOf A (stock.OrToggle C)
  | .editBlackboard f => ∀ b, (f b).entries[Demo.toggleKey]? = b.entries[Demo.toggleKey]?
  | _ => True

/-- The answers of toggles to their checks while things are done to their tree. -/
def Session.toggleChecks (stock : Demo.Stock H) (s : Session H) : List (Operation H) → List Bool
  | [] => []
  | op :: ops => (s.step op).2.checksOf (stock.toggleAmong s.tree.nodes) ++
    (s.step op).1.toggleChecks stock ops

section Histories

variable {stock : Demo.Stock H} {A : H.Action → Prop} {C : H.Condition → Prop} {s : Session H}

theorem Demo.Stock.marked_of_leaves {s : Stage H}
    (h : ∀ n ∈ s.nodes, n.kind.LeafOf A (stock.OrToggle C)) :
    stock.Marked A C (stock.toggleAmong s.nodes) s := by
  refine ⟨h, fun id n hn => ?_⟩
  change s.nodes.find? (·.id = id) = some n at hn
  rw [toggleAmong, hn]
  rfl

theorem Session.tick_turned (spares : H.Spares Demo.toggleKey A C)
    (h : s.tree.LeavesOf A (stock.OrToggle C)) (frame : TickContext) :
    stock.Turned A C (stock.toggleAmong s.tree.nodes) (s.tree.stage s.world s.audience)
      (s.step (.tick frame)).2
      (updateNode frame s.tree.size [] s.tree.root (s.tree.stage s.world s.audience)).stage := by
  have hmarked := Demo.Stock.marked_of_leaves (s := s.tree.stage s.world s.audience) h.nodes
  exact (Demo.Stock.updateNode_turned spares frame s.tree.size [] s.tree.root _ hmarked).1

/-- What one operation does to the entry of the toggles are the checks in it. -/
theorem Session.step_flips (spares : H.Spares Demo.toggleKey A C)
    (h : s.tree.LeavesOf A (stock.OrToggle C)) {op : Operation H}
    (hop : op.SparesToggles stock A C) :
    stock.Flips s.tree.toggled ((s.step op).2.checksOf (stock.toggleAmong s.tree.nodes))
      (s.step op).1.tree.toggled := by
  by_cases hnodes : op.OfNodes
  · obtain ⟨nodes, root, hrenewed⟩ := s.step_renewed hnodes
    have hsilent : (s.step op).2 = [] := by
      cases op with
      | tick _ => exact hnodes.elim
      | _ => rfl
    rw [hsilent, hrenewed]
    exact rfl
  · cases op with
    | tick frame => exact (tick_turned spares h frame).flips
    | editBlackboard f => exact hop s.tree.blackboard
    | subscribeAll _ | setOwner _ | setSeed _ | elsewhere _ _ _ => exact rfl
    | _ => exact absurd trivial hnodes

theorem Session.run_flips (spares : H.Spares Demo.toggleKey A C)
    (h : s.tree.LeavesOf A (stock.OrToggle C)) {ops : List (Operation H)}
    (hops : ∀ op ∈ ops, op.SparesToggles stock A C) :
    stock.Flips s.tree.toggled (s.toggleChecks stock ops) (s.run ops).1.tree.toggled := by
  induction ops generalizing s with
  | nil => exact rfl
  | cons op ops ih =>
    obtain ⟨hop, hlater⟩ := List.forall_mem_cons.mp hops
    have hleaves : (s.step op).1.tree.LeavesOf A (stock.OrToggle C) :=
      (s.step_effect op).leavesOf h (fun frame => (tick_turned spares h frame).marked.leaves)
        fun k hk => by
          subst hk
          exact hop
    exact (step_flips spares h hop).append (ih hleaves hlater)

/-- What a visit makes of a condition. -/
theorem visit_condition {v : Visit H} {c : H.Condition} (hkind : v.node.kind = .condition c) :
    let r := H.check v.context c v.stage.shared
    v.status = .ofBool r.answer ∧ v.play.stage.shared = r.shared ∧
      ∃ opened ended : Trace H, v.play.trace =
        opened ++ (.called v.node.id (.check r.answer) :: r.notes.map .note ++ ended) ∧
        ∀ among, Trace.checksOf among opened = [] ∧ Trace.checksOf among ended = [] := by
  intro r
  obtain ⟨opened, hopening, hopened⟩ : ∃ opened, v.opening = ⟨.condition c, v.stage, opened⟩ ∧
      ∀ among, Trace.checksOf among opened = [] := by
    cases hrunning : v.node.running with
    | true => exact ⟨[], hkind ▸ Visit.opening_of_running hrunning, fun _ => rfl⟩
    | false =>
      have hidle := Visit.opening_of_idle hrunning
      rw [hkind] at hidle
      exact ⟨[.entered v.node.id], hidle, fun _ => rfl⟩
  have hdeciding : v.deciding = ⟨(.ofBool r.answer, .condition r.leaf),
      { v.stage with shared := r.shared },
      .called v.node.id (.check r.answer) :: r.notes.map .note ++ []⟩ := by
    rw [Visit.deciding, hopening]
    rfl
  let announced := announce ⟨v.frame.tick, v.node.id, v.node.guid, v.status⟩ v.node.observers
    v.deciding.stage
  have hsettle : (v.deciding.answer.2.settle v.context v.status announced.stage).stage =
      announced.stage := by
    rw [hdeciding]
    unfold NodeKind.settle
    split <;> rfl
  have hplay : v.play.stage.shared =
      (v.deciding.answer.2.settle v.context v.status announced.stage).stage.shared := rfl
  obtain ⟨e, behind, htrace, hbehind⟩ := v.play_trace
  refine ⟨by rw [Visit.status_eq, hdeciding], ?_, opened, .event e :: behind, ?_,
    fun among => ⟨hopened among, Trace.checksOf_event e hbehind⟩⟩
  · rw [hplay, hsettle, announce_shared, hdeciding]
  · rw [htrace, hopening, hdeciding, List.append_nil]

/-- To visit a toggle is to check it once. It finds what is under the key and leaves its answer, and
the visit succeeds if the check does. -/
theorem Demo.Stock.visit_toggle {v : Visit H} (found : v.Found)
    (h : stock.isToggle v.node.kind = true) : ∃ holds, v.status = .ofBool holds ∧
      v.whole.trace.checksOf (stock.toggleAmong v.stage.nodes) = [holds] ∧
      stock.flip v.stage.toggled = (holds, v.whole.stage.toggled) := by
  obtain ⟨c, hkind, hc⟩ : ∃ c, v.node.kind = .condition c ∧ stock.condition? c = some .toggle := by
    generalize v.node.kind = k at h
    cases k with
    | condition c => exact ⟨c, rfl, of_decide_eq_true h⟩
    | _ => cases h
  have hnode : stock.toggleAmong v.stage.nodes v.node.id = true := by
    have hfound : v.stage.nodes.find? (·.id = v.node.id) = some v.node := Visit.node?_eq found
    rw [toggleAmong, hfound]
    exact h
  obtain ⟨hstatus, hshared, opened, ended, htrace, hnone⟩ := visit_condition hkind
  obtain ⟨hopened, hended⟩ := hnone (stock.toggleAmong v.stage.nodes)
  obtain ⟨-, hflip⟩ := check_flip hc v.context v.stage.shared
  refine ⟨_, hstatus, ?_, ?_⟩
  · rw [Visit.whole_eq found, Trace.checksOf_asked, htrace, Trace.checksOf_append, hopened,
      List.nil_append, Trace.checksOf_check hnode, hended]
  · have hafter : v.whole.stage.toggled = v.play.stage.toggled := by
      rw [Visit.whole_eq found]
      rfl
    rw [hafter, Stage.toggled, Stage.toggled, hshared]
    exact hflip.symm

end Histories

/-! ### All toggles of a tree -/

namespace Demo

theorem Serves.spares {α : Type} {boards : H.World → TeamBoards}
    {action? : H.Action → Option Action}
    {call : Action → Shared H.Value TeamBoards →
      LeafStep Action (Shared H.Value TeamBoards) Rejection α}
    {own : H.Action} {s : H.Shared} {step : LeafStep H.Action H.Shared H.Note α}
    (h : Serves boards action? call own s step) (hown : (action? own).isSome)
    (hcall : ∀ a s, (call a s).shared.blackboard = s.blackboard) (key : String) :
    (action? step.leaf).isSome ∧
      step.shared.blackboard.entries[key]? = s.blackboard.entries[key]? := by
  obtain ⟨a, ha⟩ := Option.isSome_iff_exists.mp hown
  refine ⟨?_, ?_⟩
  · rw [h.leaf, Option.isSome_map, hown]
  · rw [h.blackboard a ha, hcall]

/-- Of the ready-made leaves only toggles write to a blackboard. -/
theorem Stock.spares (stock : Stock H) (key : String) :
    H.Spares key (fun a => (stock.action? a).isSome) fun _ => False := by
  have henter (c : LeafContext) (a : Action) (s : Shared H.Value TeamBoards) :
      (a.enter c s).shared.blackboard = s.blackboard := by
    cases a <;> rfl
  exact ⟨fun c a s ha => (stock.enter c a s).spares ha (henter c) key,
    fun c a s ha => (stock.update c a s).spares ha (Action.update_blackboard c) key,
    fun c a s ha => (stock.exit c a s).spares ha (fun _ _ => rfl) key, fun _ _ _ h => h.elim⟩

end Demo

/-- Toggles alternate by the tree, and not by the node. In a tree whose other leaves spare what is
under the key of the toggles: in an update of any node, from any stage on, every check of a toggle
finds what the check before it has left, whichever toggles they are of, and what the last one has
left is there afterwards. A toggle that is updated, as a guard or as a child, is checked once, on
what is under the key then, and it leaves its answer there and succeeds if the check does. So
whatever is ticked and edited, where nothing is under the key to begin with, it is the first check
that holds, and the third, and so on, and the key holds the outcome of the last one. Where it holds
a value of another type no check holds, and the value stays. -/
theorem toggles_alternate (stock : Demo.Stock H) {A : H.Action → Prop} {C : H.Condition → Prop}
    (spares : H.Spares Demo.toggleKey A C) :
    (∀ frame depth path id (s : Stage H), (∀ n ∈ s.nodes, n.kind.LeafOf A (stock.OrToggle C)) →
      let p := updateNode frame depth path id s
      stock.Flips s.toggled (p.trace.checksOf (stock.toggleAmong s.nodes)) p.stage.toggled) ∧
    (∀ v : Visit H, v.Found → stock.isToggle v.node.kind → ∃ holds, v.status = .ofBool holds ∧
      v.whole.trace.checksOf (stock.toggleAmong v.stage.nodes) = [holds] ∧
      stock.flip v.stage.toggled = (holds, v.whole.stage.toggled)) ∧
    ∀ (s : Session H) ops, s.tree.LeavesOf A (stock.OrToggle C) →
      (∀ op ∈ ops, op.SparesToggles stock A C) →
        let checks := s.toggleChecks stock ops
        (s.tree.toggled = none →
          (∀ k (hk : k < checks.length), checks[k] ↔ k % 2 = 0) ∧
            (s.run ops).1.tree.toggled = checks.getLast?.elim none stock.flagged) ∧
        ∀ t v, s.tree.toggled = some ⟨t, v⟩ → t ≠ stock.flag.type →
          (∀ holds ∈ checks, holds = false) ∧ (s.run ops).1.tree.toggled = some ⟨t, v⟩ := by
  refine ⟨fun frame depth path id s h => ?_, fun v found h => Demo.Stock.visit_toggle found h,
    fun s ops h hops => ⟨fun hnone => ?_, fun t v hother ht => ?_⟩⟩
  · have hmarked := Demo.Stock.marked_of_leaves h
    exact (Demo.Stock.updateNode_turned spares frame depth path id s hmarked).1.flips
  · have hflips := Session.run_flips spares h hops
    rw [hnone] at hflips
    obtain ⟨hchecks, hlast⟩ := hflips.alternate (b := false) rfl
    exact ⟨fun k hk => by simp [hchecks k hk], hlast⟩
  · have hflips := Session.run_flips spares h hops
    rw [hother] at hflips
    exact hflips.other ht

/-- Flags of one of two types of truth values. -/
def Demo.signals : FlagType fun _ : Bool => Bool where
  type := true
  encode b := b
  decode b := b
  decode_encode _ := rfl

/-- A new tree with such flags. -/
def Demo.lantern : Session (Demo.host Demo.signals) :=
  .new .builtin counted (⟨∅⟩ : TeamBoards) (⟨∅⟩ : Recordings)

/-- A toggle is ticked under the root, and then as a guard and a child of a selector that has
another one. -/
def Demo.signalling : List (Operation (Demo.host Demo.signals)) :=
  [.add (.condition Demo.Condition.toggle), .add (.selector (.idle [])),
    .add (.condition Demo.Condition.toggle), .attach (.ofNat 2) (.ofNat 3), .tick ⟨0, 0, 0⟩,
    .detach (.ofNat 2) (.ofNat 3), .attach (.ofNat 2) (.ofNat 4), .attach (.ofNat 4) (.ofNat 3),
    .attach (.ofNat 4) (.ofNat 5), .setAlwaysCheck (.ofNat 3) true, .tick ⟨1, 0, 0⟩,
    .tick ⟨2, 0, 0⟩, .tick ⟨3, 0, 0⟩]

/-- The same tree when another type of value is under the key. -/
def Demo.smeared : Session (Demo.host Demo.signals) :=
  let board : Blackboard (Demo.host Demo.signals).Value :=
    ⟨lantern.tree.blackboard.id, .insert ∅ toggleKey ⟨false, true⟩⟩
  { lantern with tree := { lantern.tree with blackboard := board } }

/-- The six checks are of two toggles, some of them twice in a tick. -/
theorem toggles_alternate_signalling :
    let stock := Demo.stock Demo.signals
    Demo.lantern.toggleChecks stock Demo.signalling = [true, false, true, false, true, false] ∧
    (∀ k (hk : k < (Demo.lantern.toggleChecks stock Demo.signalling).length),
      (Demo.lantern.toggleChecks stock Demo.signalling)[k] ↔ k % 2 = 0) ∧
    (Demo.lantern.run Demo.signalling).1.tree.toggled = stock.flagged false ∧
    (Demo.smeared.toggleChecks stock Demo.signalling).length = 4 ∧
    (∀ holds ∈ Demo.smeared.toggleChecks stock Demo.signalling, holds = false) ∧
    (Demo.smeared.run Demo.signalling).1.tree.toggled = some ⟨false, true⟩ := by
  intro stock
  obtain ⟨-, -, hruns⟩ := toggles_alternate stock (stock.spares Demo.toggleKey)
  have hchecks : Demo.lantern.toggleChecks stock Demo.signalling =
      [true, false, true, false, true, false] := by decide +kernel
  have hleaves : Demo.lantern.tree.LeavesOf (fun a => (stock.action? a).isSome)
      (stock.OrToggle fun _ => False) := by
    refine ⟨?_, fun name k hk => ?_⟩
    · intro n hn
      obtain rfl := List.mem_singleton.mp hn
      trivial
    · have hmem := (Registry.create?_builtin hk).1
      simp only [Registry.builtinKinds, List.mem_cons, List.not_mem_nil, or_false] at hmem
      rcases hmem with rfl | rfl | rfl | rfl | rfl <;> trivial
  have hops : ∀ op ∈ Demo.signalling,
      op.SparesToggles stock (fun a => (stock.action? a).isSome) fun _ => False := by
    have htoggle : stock.OrToggle (fun _ => False) Demo.Condition.toggle := Or.inl rfl
    simp [Demo.signalling, Operation.SparesToggles, NodeKind.LeafOf, htoggle]
  obtain ⟨hclean, -⟩ := hruns Demo.lantern Demo.signalling hleaves hops
  obtain ⟨hparity, hlast⟩ := hclean rfl
  obtain ⟨-, hother⟩ := hruns Demo.smeared Demo.signalling ⟨hleaves.nodes, hleaves.registered⟩ hops
  obtain ⟨hfalse, hkept⟩ := hother false true rfl Bool.false_ne_true
  refine ⟨hchecks, hparity, ?_, by decide +kernel, hfalse, hkept⟩
  rw [hlast, hchecks]
  rfl

end BehaviourTree
