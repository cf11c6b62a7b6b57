import BehaviourTree.Proofs.TickEvents
import Mathlib.Logic.Function.Basic

/-!
Who hears what: the notices that events in a row bring to observers, each of which sits with one
node or with the whole tree.
-/

namespace BehaviourTree

variable {H : Host}

/-- Where an observer sits: with one node or, without a scope, with the whole tree, and at which
place in the row there. -/
structure Seat where
  scope : Option NodeId
  place : Nat
deriving DecidableEq

namespace Seat

/-- An event is within the scope of those who sit there. -/
def hears (σ : Seat) (e : StatusEvent) : Bool := σ.scope.all (e.node = ·)

end Seat

/-- One call of an observer: who is told of which event, and what the audience is then. -/
structure Notice (H : Host) where
  seat : Seat
  event : StatusEvent
  observer : H.Observer
  audience : H.Audience

namespace Notice

def reaction (c : Notice H) : Reaction H.Observer H.Audience H.Note :=
  H.notify c.event c.observer c.audience

/-- What it leaves in the trace: the notes, and one warning for a panic. -/
def outcry (c : Notice H) : Trace H :=
  c.reaction.notes.map .note ++
    if c.reaction.panicked then [.warning (.observerPanicked c.event.node)] else []

end Notice

/-- Notices in a row hand something on: each finds what the one before it has left. -/
inductive Relay {α : Type} (finds leaves : Notice H → α) : α → List (Notice H) → α → Prop where
  | nil (x : α) : Relay finds leaves x [] x
  | notice {c : Notice H} {cs : List (Notice H)} {x : α}
      (rest : Relay finds leaves (leaves c) cs x) : Relay finds leaves (finds c) (c :: cs) x

/-- The notices that a row of observers gets of an event, from a place on. -/
def noticesFrom (scope : Option NodeId) (e : StatusEvent) :
    Nat → List H.Observer → H.Audience → List (Notice H)
  | _, [], _ => []
  | place, o :: os, a =>
    let c : Notice H := ⟨⟨scope, place⟩, e, o, a⟩
    c :: noticesFrom scope e (place+1) os c.reaction.audience

/-- All who can hear of a tree, with their audience: the observers of each node, and those of the
whole tree, who have no scope. -/
structure Ears (H : Host) where
  seated : Option NodeId → List H.Observer
  audience : H.Audience

namespace Ears

def at? (x : Ears H) (σ : Seat) : Option H.Observer := (x.seated σ.scope)[σ.place]?

/-- One row hears an event. -/
def hearAt (x : Ears H) (scope : Option NodeId) (e : StatusEvent) : Ears H :=
  let (os, a) := hearAll e (x.seated scope) x.audience
  ⟨Function.update x.seated scope os, a⟩

def noticesAt (x : Ears H) (scope : Option NodeId) (e : StatusEvent) : List (Notice H) :=
  noticesFrom scope e 0 (x.seated scope) x.audience

/-- An event is heard by the observers of its node, and then by those of the whole tree. -/
def hear (x : Ears H) (e : StatusEvent) : Ears H := (x.hearAt (some e.node) e).hearAt none e

def noticesOf (x : Ears H) (e : StatusEvent) : List (Notice H) :=
  x.noticesAt (some e.node) e ++ (x.hearAt (some e.node) e).noticesAt none e

/-- After events in a row. -/
def after (x : Ears H) (es : List StatusEvent) : Ears H := es.foldl hear x

/-- All the notices that events in a row bring. -/
def notices (x : Ears H) : List StatusEvent → List (Notice H)
  | [] => []
  | e :: es => x.noticesOf e ++ (x.hear e).notices es

/-- A trace with what the observers add to it: behind each event, what they do about it. -/
def voice (x : Ears H) : Trace H → Trace H
  | [] => []
  | .event e :: τ => .event e :: ((x.noticesOf e).flatMap Notice.outcry ++ (x.hear e).voice τ)
  | i :: τ => i :: x.voice τ

end Ears

/-! ### What is handed on -/

section Relay

variable {α : Type} {finds leaves : Notice H → α} {x y z : α} {cs ds : List (Notice H)}

theorem Relay.append (h : Relay finds leaves x cs y) (h' : Relay finds leaves y ds z) :
    Relay finds leaves x (cs ++ ds) z := by
  induction h with
  | nil => exact h'
  | notice _ ih => exact .notice (ih h')

/-- What no notice ends is so at each of them, and behind the last. -/
theorem Relay.forall_finds {P : α → Prop} (h : Relay finds leaves x cs y) (hx : P x)
    (hstep : ∀ c, P (finds c) → P (leaves c)) : (∀ c ∈ cs, P (finds c)) ∧ P y := by
  induction h with
  | nil => exact ⟨by simp, hx⟩
  | @notice c cs y _ ih =>
    obtain ⟨hcs, hy⟩ := ih (hstep c hx)
    exact ⟨List.forall_mem_cons.mpr ⟨hx, hcs⟩, hy⟩

end Relay

/-! ### One seat -/

/-- The notices that come to one seat. -/
def atSeat (σ : Seat) (cs : List (Notice H)) : List (Notice H) := cs.filter (·.seat = σ)

section AtSeat

variable {σ : Seat} {c : Notice H} {cs : List (Notice H)}

theorem atSeat_nil (σ : Seat) : atSeat σ ([] : List (Notice H)) = [] := rfl

theorem atSeat_append (σ : Seat) (cs ds : List (Notice H)) :
    atSeat σ (cs ++ ds) = atSeat σ cs ++ atSeat σ ds := List.filter_append ..

theorem atSeat_cons_self (h : c.seat = σ) : atSeat σ (c :: cs) = c :: atSeat σ cs :=
  List.filter_cons_of_pos (by simpa using h)

theorem atSeat_cons_of_ne (h : c.seat ≠ σ) : atSeat σ (c :: cs) = atSeat σ cs :=
  List.filter_cons_of_neg (by simpa using h)

theorem atSeat_eq_nil (h : ∀ c ∈ cs, c.seat ≠ σ) : atSeat σ cs = [] :=
  List.filter_eq_nil_iff.mpr fun c hc => by simpa using h c hc

end AtSeat

/-! ### One row -/

section Row

variable (scope : Option NodeId) (e : StatusEvent)

theorem noticesFrom_audience (place : Nat) (os : List H.Observer) (a : H.Audience) :
    Relay Notice.audience (·.reaction.audience) a (noticesFrom scope e place os a)
      (hearAll e os a).2 := by
  induction os generalizing place a with
  | nil => exact .nil a
  | cons o os ih => exact .notice (c := ⟨⟨scope, place⟩, e, o, a⟩) (ih (place+1) _)

theorem noticesFrom_places (place : Nat) (os : List H.Observer) (a : H.Audience) :
    (noticesFrom scope e place os a).map Notice.seat =
      (List.range' place os.length).map (Seat.mk scope) := by
  induction os generalizing place a with
  | nil => rfl
  | cons o os ih => exact congrArg (List.cons _) (ih (place+1) _)

theorem hearAll_length (os : List H.Observer) (a : H.Audience) :
    (hearAll e os a).1.length = os.length := by
  induction os generalizing a with
  | nil => rfl
  | cons o os ih => exact congrArg (· + 1) (ih _)

/-- Who sits in the row is told once, and what that leaves sits there then. -/
theorem noticesFrom_atSeat (place : Nat) {os : List H.Observer} (a : H.Audience) {i : Nat}
    {o : H.Observer} (ho : os[i]? = some o) :
    ∃ c : Notice H, atSeat ⟨scope, place+i⟩ (noticesFrom scope e place os a) = [c] ∧
      c.event = e ∧ c.observer = o ∧ (hearAll e os a).1[i]? = some c.reaction.observer := by
  induction os generalizing place a i with
  | nil => simp at ho
  | cons head os ih =>
    let c : Notice H := ⟨⟨scope, place⟩, e, head, a⟩
    have hrow : noticesFrom scope e place (head :: os) a =
        c :: noticesFrom scope e (place+1) os c.reaction.audience := rfl
    rw [hrow]
    cases i with
    | zero =>
      -- The places of the others come behind this one.
      have hothers : ∀ d ∈ noticesFrom scope e (place+1) os c.reaction.audience,
          d.seat ≠ ⟨scope, place⟩ := by
        intro d hd hseat
        have hmem := List.mem_map_of_mem (f := Notice.seat) hd
        rw [noticesFrom_places, hseat] at hmem
        obtain ⟨k, hk, hplace⟩ := List.mem_map.mp hmem
        have hle := (List.mem_range'_1.mp hk).1
        injection hplace with _ hplace
        omega
      refine ⟨c, ?_, rfl, by simpa using ho, rfl⟩
      have hc : c.seat = ⟨scope, place⟩ := rfl
      rw [Nat.add_zero, atSeat_cons_self hc, atSeat_eq_nil hothers]
    | succ i =>
      have hnext : place+(i+1) = place+1+i := by omega
      obtain ⟨d, hd, hevent, hobserver, hleft⟩ := ih (place+1) c.reaction.audience ho
      refine ⟨d, ?_, hevent, hobserver, hleft⟩
      have hother : c.seat ≠ ⟨scope, place+1+i⟩ := by
        intro hseat
        injection hseat with _ hplace
        omega
      rw [hnext, atSeat_cons_of_ne hother, hd]

end Row

namespace Ears

/-! ### All rows -/

variable {x y z : Ears H} {σ : Seat} {o : H.Observer} {cs ds : List (Notice H)}
  {es fs : List StatusEvent}

/-- Of the notices `cs` those that come to one seat tell of the events `es`, of each once and in
order. Who sits there is handed on from one to the next, and in the end sits there again. -/
def Attends (σ : Seat) (o : H.Observer) (cs : List (Notice H)) (es : List StatusEvent)
    (x' : Ears H) : Prop :=
  (atSeat σ cs).map Notice.event = es ∧ ∃ o', x'.at? σ = some o' ∧
    Relay Notice.observer (·.reaction.observer) o (atSeat σ cs) o'

theorem Attends.append (h : Attends σ o cs es y)
    (h' : ∀ o', y.at? σ = some o' → Attends σ o' ds fs z) :
    Attends σ o (cs ++ ds) (es ++ fs) z := by
  obtain ⟨hevents, o', ho', hrelay⟩ := h
  obtain ⟨hevents', o'', ho'', hrelay'⟩ := h' o' ho'
  rw [Attends, atSeat_append, List.map_append, hevents, hevents']
  exact ⟨rfl, o'', ho'', hrelay.append hrelay'⟩

theorem noticesAt_scope (x : Ears H) (scope : Option NodeId) (e : StatusEvent) :
    ∀ c ∈ x.noticesAt scope e, c.seat.scope = scope ∧ x.at? c.seat ≠ none := by
  intro c hc
  have hmem := List.mem_map_of_mem (f := Notice.seat) hc
  rw [noticesAt, noticesFrom_places] at hmem
  obtain ⟨place, hplace, hseat⟩ := List.mem_map.mp hmem
  rw [← hseat]
  have hlt := (List.mem_range'_1.mp hplace).2
  exact ⟨rfl, by simpa [at?] using hlt⟩

theorem hearAt_attends (scope : Option NodeId) (e : StatusEvent) (ho : x.at? σ = some o) :
    Attends σ o (x.noticesAt scope e) (if σ.scope = scope then [e] else []) (x.hearAt scope e) := by
  by_cases hscope : σ.scope = scope
  · subst hscope
    obtain ⟨c, hnotices, hevent, hobserver, hleft⟩ :=
      noticesFrom_atSeat σ.scope e 0 x.audience (i := σ.place) ho
    rw [Nat.zero_add] at hnotices
    have hrow : atSeat σ (x.noticesAt σ.scope e) = [c] := hnotices
    rw [Attends, hrow, if_pos rfl]
    refine ⟨congrArg (fun e => [e]) hevent, c.reaction.observer, ?_, ?_⟩
    · simpa [at?, hearAt] using hleft
    · exact hobserver ▸ .notice (.nil _)
  · have hnone : atSeat σ (x.noticesAt scope e) = [] := by
      refine atSeat_eq_nil fun c hc hseat => ?_
      exact hscope (hseat ▸ (x.noticesAt_scope scope e c hc).1)
    rw [Attends, hnone, if_neg hscope]
    refine ⟨rfl, o, ?_, .nil o⟩
    simpa [at?, hearAt, Function.update_of_ne hscope] using ho

theorem hear_attends (e : StatusEvent) (ho : x.at? σ = some o) :
    Attends σ o (x.noticesOf e) ([e].filter σ.hears) (x.hear e) := by
  -- An event comes to the seats of its node and to those of the tree, and to no seat twice.
  have hscope : [e].filter σ.hears =
      (if σ.scope = some e.node then [e] else []) ++ if σ.scope = none then [e] else [] := by
    by_cases htree : σ.scope = none
    · simp [Seat.hears, htree]
    · obtain ⟨id, hid⟩ := Option.ne_none_iff_exists'.mp htree
      by_cases hnode : id = e.node
      · simp [Seat.hears, hid, hnode]
      · simp [Seat.hears, hid, hnode, Ne.symm hnode]
  rw [hscope]
  exact (hearAt_attends (some e.node) e ho).append fun _ ho' => hearAt_attends none e ho'

/-- Whoever sits somewhere is told of every event in the scope, once and in order. -/
theorem after_attends (es : List StatusEvent) (ho : x.at? σ = some o) :
    Attends σ o (x.notices es) (es.filter σ.hears) (x.after es) := by
  induction es generalizing x o with
  | nil => exact ⟨rfl, o, ho, .nil o⟩
  | cons e es ih =>
    rw [← List.singleton_append, List.filter_append]
    exact (hear_attends e ho).append fun _ ho' => ih ho'

theorem after_append (x : Ears H) (es fs : List StatusEvent) :
    x.after (es ++ fs) = (x.after es).after fs := List.foldl_append

theorem hearAt_empty (x : Ears H) (scope : Option NodeId) (e : StatusEvent) (σ : Seat) :
    (x.hearAt scope e).at? σ = none ↔ x.at? σ = none := by
  have hlength : ((x.hearAt scope e).seated σ.scope).length = (x.seated σ.scope).length := by
    by_cases hscope : σ.scope = scope
    · simp [hearAt, hscope, hearAll_length]
    · simp [hearAt, Function.update_of_ne hscope]
  rw [at?, at?, List.getElem?_eq_none_iff, List.getElem?_eq_none_iff, hlength]

/-- Only who sits somewhere is told anything. -/
theorem seat_taken (x : Ears H) (es : List StatusEvent) :
    ∀ c ∈ x.notices es, x.at? c.seat ≠ none := by
  induction es generalizing x with
  | nil => simp [notices]
  | cons e es ih =>
    intro c hc
    rcases List.mem_append.mp hc with hc | hc
    · rcases List.mem_append.mp hc with hc | hc
      · exact (x.noticesAt_scope _ e c hc).2
      · have htaken := ((x.hearAt (some e.node) e).noticesAt_scope _ e c hc).2
        rwa [ne_eq, hearAt_empty] at htaken
    · have htaken := ih (x.hear e) c hc
      rwa [hear, ne_eq, hearAt_empty, hearAt_empty] at htaken

/-- What the observers have outside of them is handed on through all notices. -/
theorem after_audience (x : Ears H) (es : List StatusEvent) :
    Relay Notice.audience (·.reaction.audience) x.audience (x.notices es)
      (x.after es).audience := by
  induction es generalizing x with
  | nil => exact .nil _
  | cons e es ih =>
    have hrow (x : Ears H) (scope : Option NodeId) :
        Relay Notice.audience (·.reaction.audience) x.audience (x.noticesAt scope e)
          (x.hearAt scope e).audience := noticesFrom_audience scope e 0 _ _
    exact ((hrow x _).append (hrow _ none)).append (ih (x.hear e))

/-! ### Recorders -/

/-- The observer only writes what it hears to the end of a log, and no other does so. -/
structure Records (o : H.Observer) (log : H.Audience → TraceLog) : Prop where
  writes : ∀ e a, (H.notify e o a).observer = o ∧
    log (H.notify e o a).audience = (log a).push e
  others : ∀ e o' a, o' ≠ o → (H.notify e o' a).observer ≠ o ∧
    log (H.notify e o' a).audience = log a

/-- The observer sits there and nowhere else. -/
def OnlyAt (x : Ears H) (o : H.Observer) (σ : Seat) : Prop := ∀ σ', x.at? σ' = some o ↔ σ' = σ

/-- A recorder is what is told in its seat, and in no other. -/
theorem OnlyAt.observer_iff {log : H.Audience → TraceLog} (h : x.OnlyAt o σ)
    (hrec : Records o log) : ∀ c ∈ x.notices es, c.observer = o ↔ c.seat = σ := by
  intro c hc
  obtain ⟨o', ho'⟩ := Option.ne_none_iff_exists'.mp (x.seat_taken es c hc)
  obtain ⟨-, o'', -, hrelay⟩ := after_attends es ho'
  have hmem : c ∈ atSeat c.seat (x.notices es) := List.mem_filter.mpr ⟨hc, decide_eq_true rfl⟩
  by_cases hseat : c.seat = σ
  · obtain rfl : o' = o := by
      rw [hseat, (h σ).mpr rfl] at ho'
      exact (Option.some.inj ho').symm
    have hstays := (hrelay.forall_finds (P := (· = o')) rfl fun d hd => by
      rw [Notice.reaction, hd]
      exact (hrec.writes d.event d.audience).1).1 c hmem
    exact iff_of_true hstays hseat
  · have hne : o' ≠ o := fun heq => hseat ((h c.seat).mp (heq ▸ ho'))
    have hstays := (hrelay.forall_finds (P := (· ≠ o)) hne fun d hd =>
      (hrec.others d.event d.observer d.audience hd).1).1 c hmem
    exact iff_of_false hstays hseat

/-- A recorder writes the events in its scope to its log, in order, and nothing else is written. -/
theorem OnlyAt.log_after {log : H.Audience → TraceLog} (h : x.OnlyAt o σ) (hrec : Records o log)
    (es : List StatusEvent) :
    (log (x.after es).audience).events = (log x.audience).events ++ es.filter σ.hears := by
  have hwritten (cs : List (Notice H)) (a a' : H.Audience)
      (hcs : ∀ c ∈ cs, c.observer = o ↔ c.seat = σ)
      (hrelay : Relay Notice.audience (·.reaction.audience) a cs a') :
      (log a').events = (log a).events ++ (atSeat σ cs).map Notice.event := by
    induction hrelay with
    | nil => simp [atSeat_nil]
    | @notice c cs a' _ ih =>
      obtain ⟨hc, hcs⟩ := List.forall_mem_cons.mp hcs
      rw [ih hcs]
      by_cases hseat : c.seat = σ
      · have hlog := (hrec.writes c.event c.audience).2
        rw [← hc.mpr hseat] at hlog
        rw [Notice.reaction, hlog, atSeat_cons_self hseat]
        simp [TraceLog.push, TraceLog.events]
      · have hlog := (hrec.others c.event c.observer c.audience fun heq => hseat (hc.mp heq)).2
        rw [Notice.reaction, hlog, atSeat_cons_of_ne hseat]
  rw [hwritten _ _ _ (h.observer_iff hrec) (x.after_audience es)]
  obtain ⟨hevents, -⟩ := after_attends es ((h σ).mpr rfl)
  rw [hevents]

end Ears

/-! ### The trace -/

namespace Trace

/-- The nodes of whose events an observer made a panic. -/
def panics (τ : Trace H) : List NodeId := τ.filterMap fun
  | .warning (.observerPanicked id) => some id
  | _ => none

theorem panics_append (τ τ' : Trace H) : panics (τ ++ τ') = panics τ ++ panics τ' :=
  List.filterMap_append

theorem calls_append (τ τ' : Trace H) : calls (τ ++ τ') = calls τ ++ calls τ' :=
  List.filterMap_append

end Trace

namespace Notice

/-- Observers add nothing to a trace but notes and warnings. -/
theorem outcry_spec (c : Notice H) :
    c.outcry.events = [] ∧ c.outcry.calls = [] ∧
      c.outcry.panics = if c.reaction.panicked then [c.event.node] else [] := by
  have hnotes (notes : List H.Note) : Trace.events (notes.map TraceItem.note) = [] ∧
      Trace.calls (notes.map TraceItem.note) = [] ∧
      Trace.panics (notes.map TraceItem.note) = [] := by
    simp [Trace.events, Trace.calls, Trace.panics, List.filterMap_map]
  obtain ⟨hevents, hcalls, hpanics⟩ := hnotes c.reaction.notes
  rw [outcry, Trace.events_append, Trace.calls_append, Trace.panics_append, hevents, hcalls,
    hpanics]
  split
  · exact ⟨rfl, rfl, rfl⟩
  · exact ⟨rfl, rfl, rfl⟩

theorem outcries_spec (cs : List (Notice H)) :
    Trace.events (cs.flatMap outcry) = [] ∧ Trace.calls (cs.flatMap outcry) = [] ∧
      Trace.panics (cs.flatMap outcry) =
        (cs.filter (·.reaction.panicked)).map (·.event.node) := by
  induction cs with
  | nil => exact ⟨rfl, rfl, rfl⟩
  | cons c cs ih =>
    obtain ⟨hevents, hcalls, hpanics⟩ := ih
    obtain ⟨hevents', hcalls', hpanics'⟩ := c.outcry_spec
    rw [List.flatMap_cons, Trace.events_append, Trace.calls_append, Trace.panics_append, hevents,
      hcalls, hpanics, hevents', hcalls', hpanics']
    refine ⟨rfl, rfl, ?_⟩
    by_cases hpanicked : c.reaction.panicked
    · simp [hpanicked]
    · simp [hpanicked]

/-- What the trace has of a row that hears an event; who sits where does not matter to it. -/
theorem tellAll_trace (scope : Option NodeId) (e : StatusEvent) (place : Nat)
    (os : List H.Observer) (s : Stage H) :
    (Ticking.tellAll e os s).trace = (noticesFrom scope e place os s.audience).flatMap outcry := by
  induction os generalizing place s with
  | nil => rfl
  | cons o os ih =>
    let told := Ticking.tell e o s
    let c : Notice H := ⟨⟨scope, place⟩, e, o, s.audience⟩
    change told.trace ++ ((Ticking.tellAll e os told.stage).trace ++ []) = _
    rw [ih (place+1), List.append_nil]
    change c.outcry ++ _ = (c :: _).flatMap outcry
    rw [List.flatMap_cons]
    rfl

end Notice

namespace Ears

theorem hear_node (x : Ears H) (e : StatusEvent) :
    (x.hear e).seated (some e.node) = (hearAll e (x.seated (some e.node)) x.audience).1 := by
  simp [hear, hearAt]

theorem hear_tree (x : Ears H) (e : StatusEvent) :
    ((x.hear e).seated none, (x.hear e).audience) =
      hearAll e (x.seated none) (hearAll e (x.seated (some e.node)) x.audience).2 := by
  simp [hear, hearAt]

theorem noticesOf_eq (x : Ears H) (e : StatusEvent) :
    x.noticesOf e = noticesFrom (some e.node) e 0 (x.seated (some e.node)) x.audience ++
      noticesFrom none e 0 (x.seated none)
        (hearAll e (x.seated (some e.node)) x.audience).2 := by
  simp [noticesOf, noticesAt, hearAt]

theorem hear_other (x : Ears H) {e : StatusEvent} {id : NodeId} (h : e.node ≠ id) :
    (x.hear e).seated (some id) = x.seated (some id) := by
  have hne : some id ≠ some e.node := fun heq => h (Option.some.inj heq).symm
  simp [hear, hearAt, Function.update_of_ne hne]

/-- Events of other nodes leave the observers of a node alone. -/
theorem after_seated (x : Ears H) {es : List StatusEvent} {id : NodeId}
    (h : ∀ e ∈ es, e.node ≠ id) : (x.after es).seated (some id) = x.seated (some id) := by
  induction es generalizing x with
  | nil => rfl
  | cons e es ih =>
    obtain ⟨he, hes⟩ := List.forall_mem_cons.mp h
    calc (x.after (e :: es)).seated (some id)
      _ = (x.hear e).seated (some id) := ih (x.hear e) hes
      _ = x.seated (some id) := x.hear_other he

theorem voice_append (x : Ears H) (τ τ' : Trace H) :
    x.voice (τ ++ τ') = x.voice τ ++ (x.after τ.events).voice τ' := by
  induction τ generalizing x with
  | nil => rfl
  | cons i τ ih =>
    cases i with
    | event e =>
      have hevents : Trace.events (.event e :: τ) = e :: Trace.events τ := rfl
      simp only [List.cons_append, voice, hevents, ih, List.append_assoc]
      rfl
    | asked _ _ | answered _ _ _ | entered _ | called _ _ | note _ | warning _ =>
      exact congrArg (List.cons _) (ih x)

/-- Where there is no event there is nothing to hear. -/
theorem voice_of_events (x : Ears H) {τ : Trace H} (h : τ.events = []) : x.voice τ = τ := by
  induction τ with
  | nil => rfl
  | cons i τ ih =>
    rw [← List.singleton_append, Trace.events_append, List.append_eq_nil_iff] at h
    cases i with
    | event e => simp [Trace.events] at h
    | asked _ _ | answered _ _ _ | entered _ | called _ _ | note _ | warning _ =>
      exact congrArg (List.cons _) (ih h.2)

/-- The events and the calls of leaves are what they would be if nobody listened. The panics are
those of the notices. -/
theorem voice_spec (x : Ears H) {τ : Trace H} (hquiet : τ.panics = []) :
    (x.voice τ).events = τ.events ∧ (x.voice τ).calls = τ.calls ∧
      (x.voice τ).panics =
        ((x.notices τ.events).filter (·.reaction.panicked)).map (·.event.node) := by
  induction τ generalizing x with
  | nil => exact ⟨rfl, rfl, rfl⟩
  | cons i τ ih =>
    rw [← List.singleton_append, Trace.panics_append, List.append_eq_nil_iff] at hquiet
    obtain ⟨hi, hτ⟩ := hquiet
    obtain ⟨hevents, hcalls, hpanics⟩ := ih x hτ
    cases i with
    | event e =>
      obtain ⟨hevents, hcalls, hpanics⟩ := ih (x.hear e) hτ
      obtain ⟨hevents', hcalls', hpanics'⟩ := Notice.outcries_spec (x.noticesOf e)
      refine ⟨?_, ?_, ?_⟩
      · change e :: Trace.events (_ ++ _) = e :: Trace.events τ
        rw [Trace.events_append, hevents', hevents, List.nil_append]
      · change Trace.calls (_ ++ _) = Trace.calls τ
        rw [Trace.calls_append, hcalls', hcalls, List.nil_append]
      · change Trace.panics (_ ++ _) =
          ((x.noticesOf e ++ (x.hear e).notices (Trace.events τ)).filter _).map _
        rw [Trace.panics_append, hpanics', hpanics, List.filter_append, List.map_append]
    | called node hook => exact ⟨hevents, congrArg (List.cons (node, hook)) hcalls, hpanics⟩
    | warning w =>
      cases w with
      | observerPanicked id => simp [Trace.panics] at hi
      | rootWithoutChild | repeatWithoutChild | sequenceWithoutChildren | selectorWithoutChildren
      | choiceWithoutChildren | guardRunning _ | unresolved _ => exact ⟨hevents, hcalls, hpanics⟩
    | asked _ _ | answered _ _ _ | entered _ | note _ => exact ⟨hevents, hcalls, hpanics⟩

end Ears

end BehaviourTree
