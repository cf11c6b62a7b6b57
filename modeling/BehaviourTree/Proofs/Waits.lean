import BehaviourTree.Proofs.Stock
import BehaviourTree.Proofs.VisitPhases

/-!
Waits: a run of a wait is as many updates that return `running` as the wait is long, and a success,
whatever becomes of the nodes around it, and whatever it had counted to when it was copied.
-/

namespace BehaviourTree

open Ticking

variable {H : Host} {registry : Registry H} {limit : Nat} {s : Session H} {τ : Trace H}
  {id : NodeId} {ticks : UInt32} {again : Nat}

/-! ### Births -/

/-- All is known of a node that is there. -/
theorem Recorded.known (h : Recorded limit s τ) {n : Node H} (hn : s.tree.node? id = some n) :
    Known limit id n.nodeType s τ := by
  have hlife := Tree.lifeIn_of_node? hn
  obtain ⟨type, hknown⟩ := (h.each id).resolve_left fun hunborn => by
    cases hunborn.life.symm.trans hlife
  have hsome := hknown.life.resolve_left fun hnone => by cases hnone.symm.trans hlife
  have htype : type = n.nodeType :=
    congrArg Prod.fst (Option.some.inj (hsome.symm.trans hlife))
  exact htype ▸ hknown

/-- It is idle if nothing has happened yet. -/
theorem Recorded.idle_of_nil (h : Recorded limit s []) {n : Node H}
    (hn : s.tree.node? id = some n) : n.running = false := by
  have hlife := Tree.lifeIn_of_node? hn
  have hsome := (h.known hn).life.resolve_left fun hnone => by cases hnone.symm.trans hlife
  exact congrArg Prod.snd (Option.some.inj (hlife.symm.trans hsome))

/-- What a step brings in is idle, and nothing was heard of it before. -/
theorem Recorded.born (h : Recorded limit s τ) {op : Operation H}
    (hnone : s.tree.node? id = none) {n : Node H} (hn : (s.step op).1.tree.node? id = some n)
    (hlimit : (s.step op).1.supply.drawn ≤ limit) :
    n.running = false ∧ (τ ++ (s.step op).2).Silent id := by
  have he := s.step_effect op
  by_cases htick : ∃ frame, op = .tick frame
  · -- A tick brings in nothing.
    obtain ⟨frame, rfl⟩ := htick
    have hlife := (tick_lived s frame id).life
    rw [Tree.lifeIn_node? s.tree, hnone] at hlife
    cases (Tree.lifeIn_of_node? hn).symm.trans hlife
  · have hnothing : (s.step op).2 = [] := by
      cases op with
      | tick frame => exact absurd ⟨frame, rfl⟩ htick
      | _ => rfl
    rw [hnothing] at he
    rw [hnothing, List.append_nil]
    rcases he.found_or_made hn with ⟨m, hm, -⟩ | ⟨hidle, hid, hdraw⟩
    · cases hnone.symm.trans hm
    · refine ⟨hidle, ?_⟩
      rcases h.each id with hunborn | ⟨_, hknown⟩
      · exact hunborn.silent
      · rw [hdraw] at hlimit
        exact absurd (congrArg NodeId.uuid hid).symm (hknown.fresh.draw_unused hlimit)

/-- A node that is there was made at some moment, and idle then. Until then nothing was heard of
it. -/
theorem Reached.exists_birth {allowed : Operation H → Prop}
    (h : Reached registry allowed limit s τ) (hlimit : s.supply.drawn ≤ limit) {n : Node H}
    (hn : s.tree.node? id = some n) :
    ∃ s₀ τ₀ n₀ ops, Reached registry allowed limit s₀ τ₀ ∧ s₀.tree.node? id = some n₀ ∧
      n₀.running = false ∧ τ₀.Silent id ∧ s = (s₀.run ops).1 ∧ τ = τ₀ ++ (s₀.run ops).2 := by
  induction h generalizing n with
  | new fresh world audience =>
    have hreached : Reached registry allowed limit _ [] := .new fresh world audience
    exact ⟨_, [], n, [], hreached, hn, (hreached.recorded hlimit).idle_of_nil hn,
      Trace.silent_nil id, rfl, rfl⟩
  | ofTemplate fresh hvisit built world audience =>
    have hreached : Reached registry allowed limit _ [] :=
      .ofTemplate fresh hvisit built world audience
    exact ⟨_, [], n, [], hreached, hn, (hreached.recorded hlimit).idle_of_nil hn,
      Trace.silent_nil id, rfl, rfl⟩
  | instantiate reached _ =>
    have hreached := reached.instantiate
    exact ⟨_, [], n, [], hreached, hn, (hreached.recorded hlimit).idle_of_nil hn,
      Trace.silent_nil id, rfl, rfl⟩
  | @step s τ op reached isAllowed ih =>
    have he := s.step_effect op
    have hbefore := he.precedes.within hlimit
    cases hthere : s.tree.node? id with
    | some m =>
      obtain ⟨s₀, τ₀, n₀, ops, hreached, hn₀, hidle, hsilent, rfl, rfl⟩ := ih hbefore hthere
      refine ⟨s₀, τ₀, n₀, ops ++ [op], hreached, hn₀, hidle, hsilent, ?_, ?_⟩
      · rw [Session.run_append]
        rfl
      · rw [Session.run_append, List.append_assoc]
        simp [Session.run]
    | none =>
      obtain ⟨hidle, hsilent⟩ := (reached.recorded hbefore).born hthere hn hlimit
      exact ⟨_, _, n, [], reached.step isAllowed, hn, hidle, hsilent, rfl,
        (List.append_nil _).symm⟩

theorem Session.Followed.append {before after : List (Operation H)} {vs vs' : List (Visit H)}
    (h : s.Followed id before vs) (h' : (s.run before).1.Followed id after vs') :
    s.Followed id (before ++ after) (vs ++ vs') := by
  induction h with
  | nil _ => exact h'
  | tick visited _ ih =>
    rw [List.append_assoc]
    exact .tick visited (ih h')
  | edit silent _ ih => exact .edit silent (ih h')

/-! ### Runs of one length -/

/-- What the updates of a run return that waits for so many of them. -/
def waitAnswers (length : Nat) : List Status := List.replicate length .running ++ [.success]

/-- The calls of such a run, from its entry to its end. -/
def waitRun (length : Nat) : List LeafHook :=
  .enter :: (List.replicate length (.update .running) ++ [.update .success, .exit])

/-- The calls of one that has gone on for some updates, if it has begun. -/
def waitBegun (again : Nat) : List LeafHook :=
  if again = 0 then [] else .enter :: List.replicate again (.update .running)

/-- What is updated when it is idle is entered. -/
theorem turns_idle {statuses : List Status} (h : statuses ≠ []) :
    turns false statuses = .enter :: turns true statuses := by
  obtain ⟨status, rest, rfl⟩ := List.exists_cons_of_ne_nil h
  rfl

theorem turns_running (n : Nat) (rest : List Status) :
    turns true (List.replicate n .running ++ rest) =
      List.replicate n (.update .running) ++ turns true rest := by
  induction n with
  | zero => rfl
  | succ n ih =>
    rw [List.replicate_succ, List.replicate_succ, List.cons_append, List.cons_append, ← ih]
    rfl

theorem turns_waitAnswers (length : Nat) (rest : List Status) :
    turns false (waitAnswers length ++ rest) = waitRun length ++ turns false rest := by
  have hsome : waitAnswers length ++ rest ≠ [] := by simp [waitAnswers]
  have hend : turns true (.success :: rest) = .update .success :: .exit :: turns false rest := rfl
  rw [turns_idle hsome, waitAnswers, List.append_assoc, turns_running, List.singleton_append, hend]
  simp [waitRun]

/-- The calls of complete runs and of one that has begun. -/
theorem turns_waits (length runs again : Nat) :
    turns false ((List.replicate runs (waitAnswers length)).flatten ++
        List.replicate again .running) =
      (List.replicate runs (waitRun length)).flatten ++ waitBegun again := by
  induction runs with
  | zero =>
    cases again with
    | zero => rfl
    | succ again =>
      have hsome : List.replicate (again+1) Status.running ≠ [] := by simp
      have hrunning := turns_running (again+1) []
      rw [List.append_nil] at hrunning
      change turns false (List.replicate (again+1) .running) = _
      rw [turns_idle hsome, hrunning]
      simp [waitBegun, turns]
  | succ runs ih =>
    rw [List.replicate_succ, List.replicate_succ, List.flatten_cons, List.flatten_cons,
      List.append_assoc, List.append_assoc, turns_waitAnswers, ih]

/-! ### The length -/

namespace Demo

def Action.length? : Action → Option UInt32
  | .wait ticks _ => some ticks
  | _ => none

theorem Action.enter_length (c : LeafContext) (a : Action) (s : Shared H.Value TeamBoards) :
    (a.enter c s).leaf.length? = a.length? := by
  cases a <;> rfl

theorem Action.update_length (c : LeafContext) (a : Action) (s : Shared H.Value TeamBoards) :
    (a.update c s).leaf.length? = a.length? := by
  cases a with
  | succeed | fail => rfl
  | wait ticks remaining =>
    simp only [Action.update]
    split <;> rfl
  | report team =>
    simp only [Action.update]
    split <;> rfl

/-- What keeps the length of a ready-made wait keeps that of a host's. -/
theorem Serves.length {α : Type} {boards : H.World → TeamBoards}
    {action? : H.Action → Option Action}
    {call : Action → Shared H.Value TeamBoards →
      LeafStep Action (Shared H.Value TeamBoards) Rejection α}
    {own : H.Action} {s : H.Shared} {step : LeafStep H.Action H.Shared H.Note α}
    (h : Serves boards action? call own s step)
    (hcall : ∀ a s, (call a s).leaf.length? = a.length?) :
    (action? step.leaf).bind Action.length? = (action? own).bind Action.length? := by
  rw [h.leaf]
  cases action? own with
  | none => rfl
  | some a => exact hcall a _

namespace Stock

variable (stock : Stock H)

/-- The ready-made action that a node has for a leaf, if it is one. -/
def actionOf? : NodeKind H → Option Action
  | .action a => stock.action? a
  | _ => none

def lengthOf? (k : NodeKind H) : Option UInt32 := (stock.actionOf? k).bind Action.length?

variable {stock} {k k' : NodeKind H} {a : Action}

theorem actionOf?_some (h : stock.actionOf? k = some a) :
    ∃ own, k = .action own ∧ stock.action? own = some a := by
  cases k with
  | action own => exact ⟨own, rfl, h⟩
  | _ => cases h

theorem actionOf?_setLinks (k : NodeKind H) (cs : List NodeId) :
    stock.actionOf? (k.setLinks cs) = stock.actionOf? k := by
  cases k <;> rfl

/-- Only actions have a length. -/
theorem lengthOf?_eq (htype : k'.nodeType = k.nodeType)
    (h : ∀ own own', k = .action own → k' = .action own' →
      stock.lengthOf? k' = stock.lengthOf? k) : stock.lengthOf? k' = stock.lengthOf? k := by
  cases k with
  | action own => cases k' with
    | action own' => exact h own own' rfl rfl
    | _ => cases htype
  | _ => cases k' with
    | action own' => cases htype
    | _ => rfl

theorem actionOf?_settle (context : LeafContext) (status : Status) (k : NodeKind H) (s : Stage H) :
    stock.actionOf? (k.settle context status s).answer = stock.actionOf? k := by
  unfold NodeKind.settle
  split
  · cases k with
    | action own =>
      have hexit := (stock.exit context own s.shared).leaf
      change stock.action? (H.exit context own s.shared).leaf = stock.action? own
      rw [hexit]
      exact Option.map_id'
    | _ => rfl
  · rfl

/-- The end of a visit changes no ready-made leaf. -/
theorem actionOf?_left (v : Visit H) :
    stock.actionOf? v.left.kind = stock.actionOf? v.deciding.answer.2 := by
  let announced := announce ⟨v.frame.tick, v.node.id, v.node.guid, v.status⟩ v.node.observers
    v.deciding.stage
  exact actionOf?_settle v.context v.status v.deciding.answer.2 announced.stage

theorem lengthOf?_begin (context : LeafContext) (flagged : Stage H → NodeId → Bool) (n : Node H)
    (s : Stage H) :
    stock.lengthOf? (n.begin context flagged s).answer = stock.lengthOf? n.kind := by
  refine lengthOf?_eq (n.begin_alike context flagged s).1 fun own own' hown _ => ?_
  unfold Node.begin
  split
  · rfl
  · rw [hown]
    exact (stock.enter context own s.shared).length (Action.enter_length context)

theorem lengthOf?_update (context : LeafContext) (ask : NodeId → Ticking H Status)
    (k : NodeKind H) (s : Stage H) :
    stock.lengthOf? (k.update context ask s).answer.2 = stock.lengthOf? k := by
  refine lengthOf?_eq (k.update_alike context ask s).1 fun own own' hown _ => ?_
  rw [hown]
  exact (stock.update context own s.shared).length (Action.update_length context)

/-- Nothing changes the length of a wait. -/
theorem lengthOf?_left (v : Visit H) :
    stock.lengthOf? v.left.kind = stock.lengthOf? v.node.kind := by
  calc stock.lengthOf? v.left.kind
    _ = stock.lengthOf? v.deciding.answer.2 := by rw [lengthOf?, actionOf?_left, lengthOf?]
    _ = stock.lengthOf? v.opening.answer :=
      lengthOf?_update v.context v.ask v.opening.answer v.opening.stage
    _ = stock.lengthOf? v.node.kind := lengthOf?_begin v.context _ v.node v.stage

theorem lengthOf?_edited {n n' : Node H} (h : n.Edited n') :
    stock.lengthOf? n'.kind = stock.lengthOf? n.kind := by
  obtain ⟨cs, hcs⟩ := h.kind
  rw [hcs, lengthOf?, actionOf?_setLinks, lengthOf?]

theorem lengthOf?_leftBy {n m : Node H} {vs : List (Visit H)}
    (hchain : vs.IsChain fun v v' => v.left.Edited v'.node)
    (hhead : ∀ v ∈ vs.head?, n.Edited v.node) (h : leftBy (some n) vs = some m) :
    stock.lengthOf? m.kind = stock.lengthOf? n.kind := by
  induction vs generalizing n with
  | nil => rw [Option.some.inj h]
  | cons v vs ih =>
    obtain ⟨hnext, hchain'⟩ := List.isChain_cons.mp hchain
    rw [ih hchain' hnext h, lengthOf?_left, lengthOf?_edited (hhead v rfl)]

end Stock

end Demo

/-! ### The counter -/

namespace Demo.Stock

variable (stock : Stock H)

/-- A wait that has gone on for so many updates of its present run. What it counts when it is idle
is of no account. -/
structure Waits (ticks : UInt32) (again : Nat) (n : Node H) : Prop where
  kind : ∃ remaining, stock.actionOf? n.kind = some (.wait ticks remaining) ∧
    (0 < again → remaining.toNat+again = ticks.toNat)
  running : n.running = decide (0 < again)

/-- The visit works with a count that is not above the length of the wait. It takes one off and goes
on, or the count is at zero and it succeeds. -/
def CountsDown (ticks : UInt32) (v : Visit H) : Prop :=
  ∃ before after : UInt32, before ≤ ticks ∧
    stock.actionOf? v.opening.answer = some (.wait ticks before) ∧
    stock.actionOf? v.left.kind = some (.wait ticks after) ∧
    (v.status = .running ∧ before.toNat = after.toNat+1 ∨
      v.status = .success ∧ before = 0 ∧ after = 0)

variable {stock}

theorem Waits.of_idle {n : Node H} {remaining : UInt32}
    (kind : stock.actionOf? n.kind = some (.wait ticks remaining)) (idle : n.running = false) :
    stock.Waits ticks 0 n :=
  ⟨⟨remaining, kind, fun h => absurd h (Nat.lt_irrefl 0)⟩, idle⟩

theorem Waits.edited {n n' : Node H} (h : stock.Waits ticks again n) (he : n.Edited n') :
    stock.Waits ticks again n' := by
  obtain ⟨remaining, hkind, hcount⟩ := h.kind
  obtain ⟨cs, hedited⟩ := he.kind
  refine ⟨⟨remaining, ?_, hcount⟩, he.running.trans h.running⟩
  rw [hedited, actionOf?_setLinks, hkind]

theorem Waits.le {n : Node H} (h : stock.Waits ticks again n) : again ≤ ticks.toNat := by
  obtain ⟨remaining, -, hcount⟩ := h.kind
  omega

/-- A run begins with the full count. -/
theorem Waits.opening {v : Visit H} (h : stock.Waits ticks again v.node) :
    ∃ remaining, stock.actionOf? v.opening.answer = some (.wait ticks remaining) ∧
      remaining.toNat+again = ticks.toNat := by
  obtain ⟨remaining, hkind, hcount⟩ := h.kind
  have hrunning := h.running
  rcases Nat.eq_zero_or_pos again with rfl | hpos
  · obtain ⟨own, hown, hleaf⟩ := actionOf?_some hkind
    have henter := (stock.enter v.context own v.stage.shared).leaf
    rw [hleaf] at henter
    refine ⟨ticks, ?_, rfl⟩
    rw [Visit.opening_of_idle hrunning, hown]
    exact henter
  · rw [decide_eq_true hpos] at hrunning
    refine ⟨remaining, ?_, hcount hpos⟩
    rw [Visit.opening_of_running hrunning, hkind]

/-- What a visit makes of the action that it works with. -/
theorem visit_action {v : Visit H} {a : Action}
    (h : stock.actionOf? v.opening.answer = some a) :
    let r := a.update v.context ⟨v.opening.stage.shared.blackboard, v.opening.stage.shared.rng,
      stock.boards v.opening.stage.shared.world⟩
    v.status = r.answer ∧ stock.actionOf? v.left.kind = some r.leaf := by
  intro r
  obtain ⟨own, hown, hleaf⟩ := actionOf?_some h
  have hupdate := stock.update v.context own v.opening.stage.shared
  have hdeciding : v.deciding.answer = ((H.update v.context own v.opening.stage.shared).answer,
      .action (H.update v.context own v.opening.stage.shared).leaf) := by
    rw [Visit.deciding, hown]
    rfl
  refine ⟨?_, ?_⟩
  · rw [Visit.status_eq, hdeciding]
    exact hupdate.answer a hleaf
  · rw [actionOf?_left, hdeciding]
    change stock.action? _ = some r.leaf
    rw [hupdate.leaf, hleaf]
    rfl

/-- Every update of a wait takes one off the count or ends the run. -/
theorem Waits.visit {v : Visit H} (h : stock.Waits ticks again v.node) :
    stock.CountsDown ticks v ∧
      (v.status = .running ∧ stock.Waits ticks (again+1) v.left ∨
        v.status = .success ∧ again = ticks.toNat ∧ stock.Waits ticks 0 v.left) := by
  obtain ⟨remaining, hopening, hcount⟩ := h.opening
  obtain ⟨hstatus, hleft⟩ := visit_action hopening
  have hrunning : v.left.running = v.status.isRunning := v.left_running
  have hle : remaining ≤ ticks := UInt32.le_iff_toNat_le.mpr (by omega)
  by_cases hdone : remaining = 0
  · subst hdone
    have hlength : again = ticks.toNat := by simpa using hcount
    simp only [Action.update, if_pos, quiet] at hstatus hleft
    rw [hstatus] at hrunning
    exact ⟨⟨0, 0, hle, hopening, hleft, Or.inr ⟨hstatus, rfl, rfl⟩⟩,
      Or.inr ⟨hstatus, hlength, .of_idle hleft hrunning⟩⟩
  · simp only [Action.update, if_neg hdone, quiet] at hstatus hleft
    have hpos : 1 ≤ remaining.toNat :=
      Nat.pos_of_ne_zero fun hzero => hdone (UInt32.toNat_inj.mp hzero)
    have hone : (remaining-1).toNat = remaining.toNat-1 :=
      UInt32.toNat_sub_of_le _ _ (UInt32.le_iff_toNat_le.mpr hpos)
    rw [hstatus] at hrunning
    have hgoes : v.left.running = decide (0 < again+1) :=
      hrunning.trans (decide_eq_true (Nat.succ_pos again)).symm
    exact ⟨⟨remaining, remaining-1, hle, hopening, hleft, Or.inl ⟨hstatus, by omega⟩⟩,
      Or.inl ⟨hstatus, ⟨remaining-1, hleft, fun _ => by omega⟩, hgoes⟩⟩

/-- Updates in a row, with edits at most between them, are complete runs and one that has begun. -/
theorem Waits.visits {n : Node H} (h : stock.Waits ticks again n) {vs : List (Visit H)}
    (hchain : vs.IsChain fun v v' => v.left.Edited v'.node)
    (hhead : ∀ v ∈ vs.head?, n.Edited v.node) :
    (∀ v ∈ vs, stock.CountsDown ticks v) ∧ ∃ runs later, later ≤ ticks.toNat ∧
      List.replicate again .running ++ vs.map Visit.status =
        (List.replicate runs (waitAnswers ticks.toNat)).flatten ++ List.replicate later .running ∧
      ∀ m, leftBy (some n) vs = some m → stock.Waits ticks later m := by
  induction vs generalizing n again with
  | nil =>
    refine ⟨by simp, 0, again, h.le, by simp, fun m hm => ?_⟩
    obtain rfl : n = m := Option.some.inj hm
    exact h
  | cons v vs ih =>
    obtain ⟨hnext, hchain'⟩ := List.isChain_cons.mp hchain
    obtain ⟨hcounts, hgoes | hends⟩ := (h.edited (hhead v rfl)).visit
    · obtain ⟨hstatus, hleft⟩ := hgoes
      obtain ⟨hall, runs, later, hle, hanswers, hlast⟩ := ih hleft hchain' hnext
      refine ⟨List.forall_mem_cons.mpr ⟨hcounts, hall⟩, runs, later, hle, ?_, hlast⟩
      rw [← hanswers, List.map_cons, hstatus, List.replicate_succ', List.append_assoc]
      rfl
    · -- With the last answer the present run is complete.
      obtain ⟨hstatus, rfl, hleft⟩ := hends
      obtain ⟨hall, runs, later, hle, hanswers, hlast⟩ := ih hleft hchain' hnext
      refine ⟨List.forall_mem_cons.mpr ⟨hcounts, hall⟩, runs+1, later, hle, ?_, hlast⟩
      change vs.map Visit.status = _ at hanswers
      rw [List.map_cons, hstatus, hanswers, List.replicate_succ, List.flatten_cons, waitAnswers,
        List.append_assoc, List.append_assoc]
      rfl

/-- So are the updates that a wait gets while things are done to its tree. -/
theorem Waits.followed {n : Node H} (h : stock.Waits ticks again n)
    (there : s.tree.node? id = some n) {ops : List (Operation H)} {vs : List (Visit H)}
    (followed : s.Followed id ops vs) (hfresh : s.supply.Fresh limit (· = id.uuid))
    (hlimit : (s.run ops).1.supply.drawn ≤ limit) :
    (∀ v ∈ vs, stock.CountsDown ticks v) ∧ ∃ runs later, later ≤ ticks.toNat ∧
      List.replicate again .running ++ (s.run ops).2.statusesOf id =
        (List.replicate runs (waitAnswers ticks.toNat)).flatten ++ List.replicate later .running ∧
      ∀ m, (s.run ops).1.tree.node? id = some m → stock.Waits ticks later m := by
  obtain ⟨hchain, hfirst, hlast⟩ := followed.persists hfresh hlimit
  have hhead (v : Visit H) (hv : v ∈ vs.head?) : n.Edited v.node := by
    obtain ⟨m, hm, hedited⟩ := hfirst v hv
    rwa [Option.some.inj (there.symm.trans hm)]
  obtain ⟨hcounts, runs, later, hle, hanswers, hleft⟩ := h.visits hchain hhead
  refine ⟨hcounts, runs, later, hle, ?_, fun m hm => ?_⟩
  · rw [followed.told.1, hanswers]
  · obtain ⟨k, hk, hedited⟩ := hlast m hm
    rw [there] at hk
    exact (hleft k hk).edited hedited

end Demo.Stock

/-- What has a length has it since it was made. -/
theorem Demo.Stock.lengthOf?_followed {stock : Demo.Stock H} {n m : Node H}
    (hn : s.tree.node? id = some n) {ops : List (Operation H)} {vs : List (Visit H)}
    (followed : s.Followed id ops vs) (hfresh : s.supply.Fresh limit (· = id.uuid))
    (hlimit : (s.run ops).1.supply.drawn ≤ limit) (hm : (s.run ops).1.tree.node? id = some m) :
    stock.lengthOf? m.kind = stock.lengthOf? n.kind := by
  obtain ⟨hchain, hfirst, hlast⟩ := followed.persists hfresh hlimit
  have hhead (v : Visit H) (hv : v ∈ vs.head?) : n.Edited v.node := by
    obtain ⟨m, hm, hedited⟩ := hfirst v hv
    rwa [Option.some.inj (hn.symm.trans hm)]
  obtain ⟨k, hk, hedited⟩ := hlast m hm
  rw [hn] at hk
  rw [lengthOf?_edited hedited, lengthOf?_leftBy hchain hhead hk]

/-- The calls of a wait since it was made, and what it has counted. -/
theorem Demo.Stock.waits_since_made {stock : Demo.Stock H} {n : Node H} {ops : List (Operation H)}
    {vs : List (Visit H)} (silent : τ.Silent id) (fresh : s.supply.Fresh limit (· = id.uuid))
    (there : s.tree.node? id = some n) (idle : n.running = false)
    (length : stock.lengthOf? n.kind = some ticks) (followed : s.Followed id ops vs)
    (hlimit : (s.run ops).1.supply.drawn ≤ limit) :
    (∀ v ∈ vs, stock.CountsDown ticks v) ∧ ∃ runs again, again ≤ ticks.toNat ∧
      (τ ++ (s.run ops).2).callsOf id =
        (List.replicate runs (waitRun ticks.toNat)).flatten ++ waitBegun again ∧
      ∀ m, (s.run ops).1.tree.node? id = some m → stock.Waits ticks again m := by
  obtain ⟨a, ha, hticks⟩ := Option.bind_eq_some_iff.mp length
  obtain ⟨remaining, rfl⟩ : ∃ remaining, a = .wait ticks remaining := by
    cases a with
    | wait _ remaining => exact ⟨remaining, by rw [Option.some.inj hticks]⟩
    | _ => cases hticks
  obtain ⟨own, hown, -⟩ := actionOf?_some ha
  have hstart : stock.Waits ticks 0 n := .of_idle ha idle
  obtain ⟨hcounts, runs, again, hle, hanswers, hwaits⟩ :=
    hstart.followed there followed fresh hlimit
  have hlife : lifeIn s.tree.nodes id = some (.action, false) := by
    rw [Tree.lifeIn_of_node? there, idle, Node.nodeType, hown]
    rfl
  have hcalls := ((Known.of_birth silent fresh hlife).run ops hlimit).calls rfl
  change (s.run ops).2.statusesOf id = _ at hanswers
  rw [Trace.statusesOf_append, silent.2, List.nil_append, hanswers, turns_waits] at hcalls
  exact ⟨hcounts, runs, again, hle, hcalls, hwaits⟩

/-- A wait waits for its length in every run. Take one in a tree that has come about in any way, as
a copy of one in the middle of its wait too, and whatever is done to it and to the nodes around it:
all its calls since it was made are those of complete runs, each of as many updates that return
`running` as the wait is long and of a success, and of one more run that has gone on for some
updates. As long as that run goes on, the updates and what is left to count are the length of the
wait. And in every update the count is at most the length, and goes down by one or is at zero. -/
theorem waits_last_their_length (stock : Demo.Stock H) {allowed : Operation H → Prop}
    (reached : Reached registry allowed limit s τ) {n : Node H} {left : UInt32}
    (there : s.tree.node? id = some n) (kind : stock.actionOf? n.kind = some (.wait ticks left))
    (ops : List (Operation H)) (hlimit : (s.run ops).1.supply.drawn ≤ limit) :
    (∃ runs again, again ≤ ticks.toNat ∧
      (τ ++ (s.run ops).2).callsOf id =
        (List.replicate runs (waitRun ticks.toNat)).flatten ++ waitBegun again ∧
      ∀ m, (s.run ops).1.tree.node? id = some m →
        ∃ left, stock.actionOf? m.kind = some (.wait ticks left) ∧ (m.running ↔ 0 < again) ∧
          (m.running → left.toNat+again = ticks.toNat)) ∧
    ∀ vs, s.Followed id ops vs → ∀ v ∈ vs, stock.CountsDown ticks v := by
  have hbefore := (Session.run_precedes s ops).within hlimit
  obtain ⟨s₀, τ₀, n₀, before, hreached, hthere, hidle, hsilent, rfl, rfl⟩ :=
    reached.exists_birth hbefore there
  -- The identifier of a node that is there is not drawn again.
  have hrecorded := hreached.recorded ((Session.run_precedes s₀ before).within hbefore)
  have hfresh : s₀.supply.Fresh limit (· = id.uuid) := (hrecorded.known hthere).fresh
  obtain ⟨vs₀, hfollowed⟩ := s₀.exists_followed id before
  have hlength : stock.lengthOf? n₀.kind = some ticks := by
    rw [← Demo.Stock.lengthOf?_followed hthere hfollowed hfresh hbefore there,
      Demo.Stock.lengthOf?, kind]
    rfl
  have hrun := s₀.run_append before ops
  have hall (vs : List (Visit H)) (h : (s₀.run before).1.Followed id ops vs) :=
    Demo.Stock.waits_since_made hsilent hfresh hthere hidle hlength (hfollowed.append h)
      (hrun ▸ hlimit)
  refine ⟨?_, fun vs h v hv => (hall vs h).1 v (List.mem_append_right _ hv)⟩
  obtain ⟨vs, h⟩ := (s₀.run before).1.exists_followed id ops
  obtain ⟨-, runs, again, hle, hcalls, hwaits⟩ := hall vs h
  rw [hrun] at hcalls hwaits
  rw [← List.append_assoc] at hcalls
  refine ⟨runs, again, hle, hcalls, fun m hm => ?_⟩
  obtain ⟨left, hkind, hcount⟩ := (hwaits m hm).kind
  have hrunning : m.running ↔ 0 < again := by simp [(hwaits m hm).running]
  exact ⟨left, hkind, hrunning, fun h => hcount (hrunning.mp h)⟩

/-- A wait of two under the root, ticked once, and a copy of all that. -/
def Demo.cutting : Session Demo.smallHost :=
  let s := (sapling.run [.add (.action (Demo.Action.wait 2 2)), .attach (.ofNat 2) (.ofNat 3),
    .tick ⟨0, 0, 0⟩]).1
  { s with tree := (s.tree.instantiate s.supply).1, supply := (s.tree.instantiate s.supply).2 }

/-- The copy of the wait is half done and idle. It is detached in its first run and attached again,
and begins a second one in the end. -/
theorem waits_last_their_length_cutting :
    let ops : List (Operation Demo.smallHost) := [.tick ⟨0, 0, 0⟩, .detach (.ofNat 4) (.ofNat 5),
      .tick ⟨1, 0, 0⟩, .attach (.ofNat 4) (.ofNat 5), .tick ⟨2, 0, 0⟩, .tick ⟨3, 0, 0⟩,
      .tick ⟨4, 0, 0⟩]
    let later := Demo.cutting.run ops
    (∃ n, Demo.cutting.tree.node? (.ofNat 5) = some n ∧ n.running = false ∧
      n.kind = .action (Demo.Action.wait 2 1)) ∧
    later.2.callsOf (.ofNat 5) = waitRun 2 ++ waitBegun 1 ∧
    (∃ runs again, again ≤ 2 ∧ later.2.callsOf (.ofNat 5) =
        (List.replicate runs (waitRun 2)).flatten ++ waitBegun again ∧
      ∀ m, later.1.tree.node? (.ofNat 5) = some m →
        ∃ left, (Demo.stock Demo.flagsOnly).actionOf? m.kind = some (.wait 2 left) ∧
          (m.running ↔ 0 < again) ∧ (m.running → left.toNat+again = 2)) ∧
    ∀ vs, Demo.cutting.Followed (.ofNat 5) ops vs →
      ∀ v ∈ vs, (Demo.stock Demo.flagsOnly).CountsDown 2 v := by
  intro ops later
  let n : Node Demo.smallHost :=
    { Node.make (.ofNat 5) "Action" (.action (Demo.Action.wait 2 1)) with
      guid := .ofNat 3, blackboard := some ⟨.ofNat 6⟩ }
  have hnew : Reached .builtin (fun _ => True) (2^128) Demo.sapling [] :=
    Reached.new (H := Demo.smallHost) Demo.counted_fresh _ _
  have hreached : Reached .builtin (fun _ => True) (2^128) Demo.cutting [] :=
    (hnew.run fun _ _ => trivial).instantiate
  have hthere : Demo.cutting.tree.node? (.ofNat 5) = some n := rfl
  have hdrawn : later.1.supply.drawn ≤ 2^128 := by decide +kernel
  obtain ⟨hcalls, hcounts⟩ := waits_last_their_length (Demo.stock Demo.flagsOnly) hreached hthere
    rfl ops hdrawn
  exact ⟨⟨n, hthere, rfl, rfl⟩, by decide +kernel, hcalls, hcounts⟩

end BehaviourTree
