import BehaviourTree.Blackboard
import Mathlib.Data.List.Basic
import Mathlib.Data.List.Induction
import Mathlib.Logic.Function.Basic

/-!
A blackboard is a map from keys to values of any types. Whatever is asked of it, in whatever order,
it answers as such a map would, and what it refuses changes nothing.
-/

namespace BehaviourTree

variable {ι : Type} {V : ι → Type}

/-! ### Calls -/

/-- What can be asked of a blackboard. -/
inductive BlackboardCall (V : ι → Type) where
  | set (key : String) (t : ι) (v : V t)
  | get (key : String) (t : ι)
  | get? (key : String) (t : ι)
  | modify (key : String) (t : ι) (f : V t → V t)
  | remove (key : String)
  | contains (key : String)
  | clear

inductive BlackboardReply (V : ι → Type) where
  | done
  | value (t : ι) (v : V t)
  | nothing
  | holds (b : Bool)
  | refused (e : BlackboardError ι)

/-- A reply that keeps the reason for a refusal to itself. -/
def BlackboardReply.tactful : BlackboardReply V → BlackboardReply V
  | refused _ => nothing
  | r => r

namespace BlackboardCall

/-- The key of a call. To clear a blackboard takes none. -/
def key? : BlackboardCall V → Option String
  | set key _ _ | get key _ | get? key _ | modify key _ _ | remove key | contains key => some key
  | clear => none

/-- The type that a call requests an entry to have. -/
def type? : BlackboardCall V → Option ι
  | set _ t _ | get _ t | get? _ t | modify _ t _ => some t
  | remove _ | contains _ | clear => none

/-- Without an entry there is nothing to read, to edit or to remove. -/
def needsEntry : BlackboardCall V → Bool
  | get _ _ | get? _ _ | modify _ _ _ | remove _ => true
  | set _ _ _ | contains _ | clear => false

/-- The call is about the key, or about all of them. -/
def Concerns (c : BlackboardCall V) (key : String) : Prop := ∀ k ∈ c.key?, k = key

/-- How the caller learns of a refusal. -/
def refuse (e : BlackboardError ι) : BlackboardCall V → BlackboardReply V
  | get? _ _ => .nothing
  | _ => .refused e

/-- Calls in a row on anything that answers them: the replies, and what is left. -/
def runAll {S : Type} (step : S → BlackboardCall V → BlackboardReply V × S) (s : S) :
    List (BlackboardCall V) → List (BlackboardReply V) × S
  | [] => ([], s)
  | c :: cs => ((step s c).1 :: (runAll step (step s c).2 cs).1, (runAll step (step s c).2 cs).2)

end BlackboardCall
variable [DecidableEq ι]

/-! ### Blackboards -/

namespace Blackboard

/-- One call. -/
def call (b : Blackboard V) : BlackboardCall V → BlackboardReply V × Blackboard V
  | .set key t v =>
    match b.set key t v with
    | .ok b' => (.done, b')
    | .error e => (.refused e, b)
  | .get key t =>
    match b.get key t with
    | .ok v => (.value t v, b)
    | .error e => (.refused e, b)
  | .get? key t =>
    match b.get? key t with
    | some v => (.value t v, b)
    | none => (.nothing, b)
  | .modify key t f =>
    match b.modify key t f with
    | .ok b' => (.done, b')
    | .error e => (.refused e, b)
  | .remove key =>
    match b.remove key with
    | .ok b' => (.done, b')
    | .error e => (.refused e, b)
  | .contains key => (.holds (b.contains key), b)
  | .clear => (.done, b.clear)

/-- What is left after calls. -/
def after (b : Blackboard V) (cs : List (BlackboardCall V)) : Blackboard V :=
  (BlackboardCall.runAll call b cs).2

end Blackboard

/-! ### The map that it is -/

/-- What there is under each key. -/
abbrev Sheet (V : ι → Type) : Type := String → Option ((t : ι) × V t)

namespace Sheet

/-- A call is refused if there is no entry and it needs one, or if there is an entry of another type
than it requests. -/
def refusal? (m : Sheet V) (c : BlackboardCall V) : Option (BlackboardError ι) :=
  match c.key? with
  | none => none
  | some key =>
    match m key with
    | none => if c.needsEntry then some (.missingKey key) else none
    | some ⟨s, _⟩ =>
      match c.type? with
      | none => none
      | some t => if s = t then none else some (.typeMismatch key s t)

/-- Edits the value of an entry of the type. -/
def edit (t : ι) (f : V t → V t) (e : (t : ι) × V t) : (t : ι) × V t :=
  if h : e.1 = t then ⟨t, f (h ▸ e.2)⟩ else e

/-- What a call leaves that is not refused. -/
def accept (m : Sheet V) : BlackboardCall V → Sheet V
  | .set key t v => Function.update m key (some ⟨t, v⟩)
  | .modify key t f => Function.update m key ((m key).map (edit t f))
  | .remove key => Function.update m key none
  | .clear => fun _ => none
  | .get _ _ | .get? _ _ | .contains _ => m

def answer (m : Sheet V) : BlackboardCall V → BlackboardReply V
  | .get key _ | .get? key _ => (m key).elim .nothing fun e => .value e.1 e.2
  | .contains key => .holds (m key).isSome
  | .set _ _ _ | .modify _ _ _ | .remove _ | .clear => .done

def call (m : Sheet V) (c : BlackboardCall V) : BlackboardReply V × Sheet V :=
  match m.refusal? c with
  | some e => (c.refuse e, m)
  | none => (m.answer c, m.accept c)

variable {m : Sheet V} {c : BlackboardCall V} {key : String} {t : ι}

theorem refusal?_eq_some {e : BlackboardError ι} : m.refusal? c = some e ↔
    (c.needsEntry ∧ ∃ key, c.key? = some key ∧ m key = none ∧ e = .missingKey key) ∨
      ∃ key t stored, c.key? = some key ∧ c.type? = some t ∧ m key = some stored ∧
        stored.1 ≠ t ∧ e = .typeMismatch key stored.1 t := by
  cases hkey : c.key? with
  | none => simp [refusal?, hkey]
  | some key =>
    cases hentry : m key with
    | none => simp [refusal?, hkey, hentry, eq_comm (a := e)]
    | some stored =>
      cases htype : c.type? with
      | none => simp [refusal?, hkey, hentry, htype]
      | some t =>
        have hrefusal : m.refusal? c =
            if stored.1 = t then none else some (.typeMismatch key stored.1 t) := by
          simp only [refusal?, hkey, hentry, htype]
        rw [hrefusal]
        constructor
        · intro h
          split at h
          · cases h
          · next hne =>
            exact Or.inr ⟨key, t, stored, rfl, rfl, hentry, hne, (Option.some.inj h).symm⟩
        · rintro (⟨-, k, hk, hnone, -⟩ | ⟨k, t', stored', hk, ht, hsome, hne, rfl⟩)
          · obtain rfl : key = k := Option.some.inj hk
            cases hentry.symm.trans hnone
          · obtain rfl : key = k := Option.some.inj hk
            obtain rfl : t = t' := Option.some.inj ht
            obtain rfl : stored = stored' := Option.some.inj (hentry.symm.trans hsome)
            exact if_neg hne

omit [DecidableEq ι] in
theorem update_eq_some {k : String} {x : Option ((t : ι) × V t)} {e : (t : ι) × V t} :
    Function.update m k x key = some e ↔ k = key ∧ x = some e ∨ k ≠ key ∧ m key = some e := by
  rw [Function.update_apply]
  split
  · next hk => simp [hk]
  · next hk => simp [Ne.symm hk]

/-- The entry that a call finds that is not refused, if it requests a type. -/
theorem typed_of_accepted (h : m.refusal? c = none) (hkey : c.key? = some key)
    (htype : c.type? = some t) :
    m key = none ∧ c.needsEntry = false ∨ ∃ v, m key = some ⟨t, v⟩ := by
  simp only [refusal?, hkey, htype] at h
  cases hentry : m key with
  | none =>
    rw [hentry] at h
    exact Or.inl ⟨rfl, by simpa using h⟩
  | some e =>
    obtain ⟨s, v⟩ := e
    rw [hentry] at h
    obtain rfl : s = t := by simpa using h
    exact Or.inr ⟨v, rfl⟩

theorem isSome_of_accepted (h : m.refusal? c = none) (hkey : c.key? = some key)
    (hneeds : c.needsEntry = true) : (m key).isSome := by
  simp only [refusal?, hkey] at h
  cases hentry : m key with
  | none => simp [hentry, hneeds] at h
  | some e => rfl

end Sheet

/-- The blackboard shows the entries of the sheet. -/
def Blackboard.Shows (b : Blackboard V) (m : Sheet V) : Prop := ∀ key, b.entries[key]? = m key

namespace Blackboard

variable {b : Blackboard V} {m : Sheet V} {key : String} {t : ι}

omit [DecidableEq ι] in
theorem Shows.insert (h : b.Shows m) (key : String) (e : (t : ι) × V t) :
    (⟨b.id, b.entries.insert key e⟩ : Blackboard V).Shows (Function.update m key (some e)) := by
  intro k
  rw [Std.TreeMap.getElem?_insert, Function.update_apply]
  simp only [Std.compare_eq_iff_eq, eq_comm (a := key), h k]

omit [DecidableEq ι] in
theorem Shows.erase (h : b.Shows m) (key : String) :
    (⟨b.id, b.entries.erase key⟩ : Blackboard V).Shows (Function.update m key none) := by
  intro k
  rw [Std.TreeMap.getElem?_erase, Function.update_apply]
  simp only [Std.compare_eq_iff_eq, eq_comm (a := key), h k]

theorem get_of_none (h : b.entries[key]? = none) : b.get key t = .error (.missingKey key) := by
  simp only [get, h]

theorem get_of_some {v : V t} (h : b.entries[key]? = some ⟨t, v⟩) : b.get key t = .ok v := by
  simp only [get, h, dif_pos]

theorem get_of_other {e : (t : ι) × V t} (h : b.entries[key]? = some e) (he : e.1 ≠ t) :
    b.get key t = .error (.typeMismatch key e.1 t) := by
  simp only [get, h, dif_neg he]

/-- A call that the sheet refuses, the blackboard refuses for the same reason. -/
theorem call_refused (h : b.Shows m) {c : BlackboardCall V} {e : BlackboardError ι}
    (hrefusal : m.refusal? c = some e) : b.call c = (c.refuse e, b) := by
  rcases Sheet.refusal?_eq_some.mp hrefusal with ⟨hneeds, key, hkey, hnone, rfl⟩ |
    ⟨key, t, stored, hkey, htype, hsome, hne, rfl⟩
  -- For want of an entry.
  · rw [← h key] at hnone
    cases c with
    | set _ _ _ | contains _ | clear => cases hneeds
    | get k t | get? k t | modify k t f =>
      obtain rfl : k = key := Option.some.inj hkey
      simp only [call, modify, get?, get_of_none hnone]
      rfl
    | remove k =>
      obtain rfl : k = key := Option.some.inj hkey
      have hnot : b.entries.contains k = false := by
        rw [Std.TreeMap.contains_eq_isSome_getElem?, hnone]
        rfl
      simp only [call, Blackboard.remove, hnot]
      rfl
  -- For an entry of another type.
  · rw [← h key] at hsome
    cases c with
    | remove _ | contains _ | clear => cases htype
    | get k t' | get? k t' | modify k t' f =>
      obtain rfl : k = key := Option.some.inj hkey
      obtain rfl : t' = t := Option.some.inj htype
      simp only [call, modify, get?, get_of_other hsome hne]
      rfl
    | set k t' v =>
      obtain rfl : k = key := Option.some.inj hkey
      obtain rfl : t' = t := Option.some.inj htype
      simp only [call, Blackboard.set, hsome, if_neg hne]
      rfl

/-- A call that the sheet accepts, the blackboard answers as the sheet does. -/
theorem call_accepted (h : b.Shows m) {c : BlackboardCall V} (haccepted : m.refusal? c = none) :
    (b.call c).1 = m.answer c ∧ (b.call c).2.Shows (m.accept c) := by
  cases c with
  | set key t v =>
    have hset : b.set key t v = .ok ⟨b.id, b.entries.insert key ⟨t, v⟩⟩ := by
      rcases Sheet.typed_of_accepted haccepted rfl rfl with ⟨hnone, -⟩ | ⟨u, hsome⟩
      · rw [← h key] at hnone
        simp only [Blackboard.set, hnone]
      · rw [← h key] at hsome
        simp only [Blackboard.set, hsome, if_pos]
    simp only [call, hset]
    exact ⟨rfl, h.insert key _⟩
  | get key t | get? key t =>
    rcases Sheet.typed_of_accepted haccepted rfl rfl with ⟨-, hneeds⟩ | ⟨v, hsome⟩
    · cases hneeds
    · have hentry := (h key).trans hsome
      simp only [call, get?, get_of_some hentry, Sheet.answer, hsome]
      exact ⟨rfl, h⟩
  | modify key t f =>
    rcases Sheet.typed_of_accepted haccepted rfl rfl with ⟨-, hneeds⟩ | ⟨v, hsome⟩
    · cases hneeds
    · have hentry := (h key).trans hsome
      have hedit : (m key).map (Sheet.edit t f) = some ⟨t, f v⟩ := by
        simp only [hsome, Option.map_some, Sheet.edit, dif_pos]
      simp only [call, modify, get_of_some hentry, Sheet.accept, hedit]
      exact ⟨rfl, h.insert key _⟩
  | remove key =>
    have hthere : b.entries.contains key = true := by
      rw [Std.TreeMap.contains_eq_isSome_getElem?, h key]
      exact Sheet.isSome_of_accepted haccepted rfl rfl
    simp only [call, Blackboard.remove, hthere]
    exact ⟨rfl, h.erase key⟩
  | contains key =>
    refine ⟨congrArg BlackboardReply.holds ?_, h⟩
    rw [contains, Std.TreeMap.contains_eq_isSome_getElem?, h key]
  | clear => exact ⟨rfl, fun key => Std.TreeMap.getElem?_emptyc⟩

theorem call_shows (h : b.Shows m) (c : BlackboardCall V) :
    (b.call c).1 = (m.call c).1 ∧ (b.call c).2.Shows (m.call c).2 := by
  unfold Sheet.call
  cases hrefusal : m.refusal? c with
  | none => exact call_accepted h hrefusal
  | some e =>
    rw [call_refused h hrefusal]
    exact ⟨rfl, h⟩

end Blackboard

/-! ### The layout of the entries -/

/-- A value of any type, and beside it the name of the type that its entry was made for. Only the
value knows of what type it is. -/
structure Slot (V : ι → Type) where
  value : (t : ι) × V t
  label : ι

/-- A slot as it is made. -/
def Slot.of (e : (t : ι) × V t) : Slot V := ⟨e, e.1⟩

/-- Puts another value in, and leaves the label. -/
def Slot.put (slot : Slot V) (t : ι) (v : V t) : Slot V := { slot with value := ⟨t, v⟩ }

structure Shelf (V : ι → Type) where
  slots : Std.TreeMap String (Slot V)

namespace Shelf

/-- Opens the slot of a key as one of a type. What cannot be opened is told of by its label. -/
def access (s : Shelf V) (key : String) (t : ι) : Except (BlackboardError ι) (Slot V × V t) :=
  match s.slots[key]? with
  | none => .error (.missingKey key)
  | some slot =>
    if h : slot.value.1 = t then .ok (slot, h ▸ slot.value.2)
    else .error (.typeMismatch key slot.label t)

def call (s : Shelf V) : BlackboardCall V → BlackboardReply V × Shelf V
  | .set key t v =>
    match s.access key t with
    | .ok (slot, _) => (.done, ⟨s.slots.insert key (slot.put t v)⟩)
    | .error (.missingKey _) => (.done, ⟨s.slots.insert key (.of ⟨t, v⟩)⟩)
    | .error e => (.refused e, s)
  | .get key t =>
    match s.access key t with
    | .ok (_, v) => (.value t v, s)
    | .error e => (.refused e, s)
  | .get? key t =>
    match s.access key t with
    | .ok (_, v) => (.value t v, s)
    | .error _ => (.nothing, s)
  | .modify key t f =>
    match s.access key t with
    | .ok (slot, v) => (.done, ⟨s.slots.insert key (slot.put t (f v))⟩)
    | .error e => (.refused e, s)
  | .remove key =>
    if s.slots.contains key then (.done, ⟨s.slots.erase key⟩)
    else (.refused (.missingKey key), s)
  | .contains key => (.holds (s.slots.contains key), s)
  | .clear => (.done, ⟨∅⟩)

/-- The shelf holds the entries of the blackboard, each with the label of its type. -/
def Holds (s : Shelf V) (b : Blackboard V) : Prop :=
  ∀ key : String, s.slots[key]? = b.entries[key]?.map Slot.of

variable {s : Shelf V} {b : Blackboard V} {key : String} {t : ι}

omit [DecidableEq ι] in
theorem Holds.insert (h : s.Holds b) (key : String) (e : (t : ι) × V t) :
    Holds ⟨s.slots.insert key (.of e)⟩ ⟨b.id, b.entries.insert key e⟩ := by
  intro k
  rw [Std.TreeMap.getElem?_insert, Std.TreeMap.getElem?_insert, apply_ite (Option.map Slot.of), h k]
  rfl

omit [DecidableEq ι] in
theorem Holds.erase (h : s.Holds b) (key : String) :
    Holds ⟨s.slots.erase key⟩ ⟨b.id, b.entries.erase key⟩ := by
  intro k
  rw [Std.TreeMap.getElem?_erase, Std.TreeMap.getElem?_erase, apply_ite (Option.map Slot.of), h k]
  rfl

omit [DecidableEq ι] in
theorem Holds.contains (h : s.Holds b) (key : String) :
    s.slots.contains key = b.entries.contains key := by
  rw [Std.TreeMap.contains_eq_isSome_getElem?, Std.TreeMap.contains_eq_isSome_getElem?, h key,
    Option.isSome_map]

/-- What can be read can be accessed, in a slot with the label of its type. -/
theorem Holds.access (h : s.Holds b) (key : String) (t : ι) :
    s.access key t = (b.get key t).map fun v => (.of ⟨t, v⟩, v) := by
  unfold Shelf.access
  rw [h key]
  cases hentry : b.entries[key]? with
  | none =>
    rw [Blackboard.get_of_none hentry]
    rfl
  | some e =>
    obtain ⟨s, v⟩ := e
    by_cases hs : s = t
    · subst hs
      rw [Blackboard.get_of_some hentry]
      simp only [Option.map_some, Slot.of, dif_pos]
      rfl
    · rw [Blackboard.get_of_other hentry hs]
      simp only [Option.map_some, Slot.of, dif_neg hs]
      rfl

/-- Labels and values agree as long as the shelf lives, so it replies as the blackboard does. -/
theorem call_holds (h : s.Holds b) (c : BlackboardCall V) :
    (s.call c).1 = (b.call c).1 ∧ (s.call c).2.Holds (b.call c).2 := by
  cases c with
  | set key t v =>
    cases hentry : b.entries[key]? with
    | none =>
      simp only [call, h.access, Blackboard.get_of_none hentry, Except.map, Blackboard.call,
        Blackboard.set, hentry]
      exact ⟨trivial, h.insert key _⟩
    | some e =>
      obtain ⟨u, w⟩ := e
      by_cases hu : u = t
      · subst hu
        simp only [call, h.access, Blackboard.get_of_some hentry, Except.map, Blackboard.call,
          Blackboard.set, hentry, if_pos]
        exact ⟨trivial, h.insert key _⟩
      · simp only [call, h.access, Blackboard.get_of_other hentry hu, Except.map, Blackboard.call,
          Blackboard.set, hentry, if_neg hu]
        exact ⟨trivial, h⟩
  | get key t | get? key t =>
    simp only [call, h.access, Blackboard.call, Blackboard.get?]
    cases b.get key t <;> exact ⟨rfl, h⟩
  | modify key t f =>
    simp only [call, h.access, Blackboard.call, Blackboard.modify]
    cases b.get key t with
    | error e => exact ⟨rfl, h⟩
    | ok v => exact ⟨rfl, h.insert key _⟩
  | remove key =>
    simp only [call, h.contains, Blackboard.call, Blackboard.remove]
    split
    · exact ⟨rfl, h.erase key⟩
    · exact ⟨rfl, h⟩
  | contains key =>
    refine ⟨congrArg BlackboardReply.holds (h.contains key), h⟩
  | clear =>
    refine ⟨rfl, fun key => ?_⟩
    simp only [call, Blackboard.call, Blackboard.clear, Std.TreeMap.getElem?_emptyc,
      Option.map_none]

end Shelf

/-! ### Single calls -/

namespace BlackboardCall

/-- The call reports why it is refused. -/
def Reports : BlackboardCall V → Prop
  | get? _ _ => False
  | set _ _ _ | get _ _ | modify _ _ _ | remove _ | contains _ | clear => True

/-- The call puts a value under the key: one that it brings, or one made of the value there. -/
def Puts (key : String) (e : (t : ι) × V t) (old : Option ((t : ι) × V t)) :
    BlackboardCall V → Prop
  | set k t v => k = key ∧ e = ⟨t, v⟩
  | modify k t f => k = key ∧ ∃ v, old = some ⟨t, v⟩ ∧ e = ⟨t, f v⟩
  | get _ _ | get? _ _ | remove _ | contains _ | clear => False

/-- The call takes away what is under the key. -/
def Empties (key : String) : BlackboardCall V → Prop
  | remove k => k = key
  | clear => True
  | set _ _ _ | get _ _ | get? _ _ | modify _ _ _ | contains _ => False

end BlackboardCall

namespace Blackboard

variable {b : Blackboard V} {c : BlackboardCall V} {key : String} {t : ι} {e : (t : ι) × V t}

omit [DecidableEq ι] in
def sheet (b : Blackboard V) : Sheet V := fun key => b.entries[key]?

omit [DecidableEq ι] in
theorem shows_sheet (b : Blackboard V) : b.Shows b.sheet := fun _ => rfl

/-- The call succeeds in changing what is under the key. -/
def Settles (b : Blackboard V) (c : BlackboardCall V) (key : String) : Prop :=
  (b.call c).1 = .done ∧ c.Concerns key

/-- The call succeeds in putting the value under the key. -/
def Writes (b : Blackboard V) (c : BlackboardCall V) (key : String) (e : (t : ι) × V t) : Prop :=
  (b.call c).1 = .done ∧ c.Puts key e b.entries[key]?

theorem refused_iff {r : BlackboardError ι} :
    (b.call c).1 = .refused r ↔ c.Reports ∧ b.sheet.refusal? c = some r := by
  cases hrefusal : b.sheet.refusal? c with
  | none =>
    rw [(call_accepted b.shows_sheet hrefusal).1]
    cases c with
    | get key t | get? key t => cases h : b.sheet key <;> simp [Sheet.answer, h]
    | set _ _ _ | modify _ _ _ | remove _ | contains _ | clear => simp [Sheet.answer]
  | some r' =>
    rw [call_refused b.shows_sheet hrefusal]
    cases c <;> simp [BlackboardCall.refuse, BlackboardCall.Reports]

theorem missing_iff : (b.call c).1 = .refused (.missingKey key) ↔
    c.Reports ∧ c.needsEntry ∧ c.key? = some key ∧ b.contains key = false := by
  have hgone : b.contains key = false ↔ b.sheet key = none := by
    rw [contains, Std.TreeMap.contains_eq_isSome_getElem?, Option.isSome_eq_false_iff,
      Option.isNone_iff_eq_none]
    rfl
  rw [refused_iff, Sheet.refusal?_eq_some, hgone]
  refine and_congr_right fun _ => ⟨?_, fun ⟨hneeds, hkey, hnone⟩ => ?_⟩
  · rintro (⟨hneeds, k, hkey, hnone, heq⟩ | ⟨_, _, _, _, _, _, _, heq⟩)
    · obtain rfl : key = k := by simpa using heq
      exact ⟨hneeds, hkey, hnone⟩
    · cases heq
  · exact Or.inl ⟨hneeds, key, hkey, hnone, rfl⟩

theorem mismatch_iff {s : ι} : (b.call c).1 = .refused (.typeMismatch key s t) ↔
    c.Reports ∧ c.key? = some key ∧ c.type? = some t ∧ b.typeOf? key = some s ∧ s ≠ t := by
  rw [refused_iff, Sheet.refusal?_eq_some]
  refine and_congr_right fun _ => ⟨?_, fun ⟨hkey, htype, hstored, hne⟩ => ?_⟩
  · rintro (⟨_, _, _, _, heq⟩ | ⟨k, t', stored, hkey, htype, hstored, hne, heq⟩)
    · cases heq
    · obtain ⟨rfl, rfl, rfl⟩ : key = k ∧ s = stored.1 ∧ t = t' := by simpa using heq
      exact ⟨hkey, htype, congrArg (Option.map Sigma.fst) hstored, hne⟩
  · obtain ⟨stored, hentry, rfl⟩ := Option.map_eq_some_iff.mp hstored
    exact Or.inr ⟨key, t, stored, hkey, htype, hentry, hne, rfl⟩

theorem get_not_done : (b.call (.get key t)).1 ≠ .done := by
  simp only [call]
  cases b.get key t <;> nofun

theorem get?_not_done : (b.call (.get? key t)).1 ≠ .done := by
  simp only [call]
  cases b.get? key t <;> nofun

/-- Who is not told that it is done has changed nothing. -/
theorem unchanged_of_not_done (h : (b.call c).1 ≠ .done) : (b.call c).2 = b := by
  cases hrefusal : b.sheet.refusal? c with
  | some r => rw [call_refused b.shows_sheet hrefusal]
  | none =>
    rw [(call_accepted b.shows_sheet hrefusal).1] at h
    cases c with
    | set _ _ _ | modify _ _ _ | remove _ | clear => exact absurd rfl h
    | contains _ => rfl
    | get key t =>
      simp only [call]
      cases b.get key t <;> rfl
    | get? key t =>
      simp only [call]
      cases b.get? key t <;> rfl

theorem accepted_of_done (h : (b.call c).1 = .done) : b.sheet.refusal? c = none := by
  by_contra hne
  obtain ⟨r, hr⟩ := Option.ne_none_iff_exists'.mp hne
  rw [call_refused b.shows_sheet hr] at h
  cases c <;> cases h

/-- What is under a key after a call was put there by it, or was there before and stays. -/
theorem entry_call : (b.call c).2.entries[key]? = some e ↔
    b.Writes c key e ∨ ¬ b.Settles c key ∧ b.entries[key]? = some e := by
  unfold Writes Settles
  by_cases hdone : (b.call c).1 = .done
  · have haccepted : b.sheet.refusal? c = none := accepted_of_done hdone
    rw [(call_accepted b.shows_sheet haccepted).2 key]
    simp only [hdone, true_and, BlackboardCall.Concerns]
    change _ ↔ _ ∨ _ ∧ b.sheet key = _
    cases c with
    | set k t v =>
      simp [Sheet.accept, Sheet.update_eq_some, BlackboardCall.Puts, BlackboardCall.key?,
        eq_comm (a := e)]
    | modify k t f =>
      rcases Sheet.typed_of_accepted haccepted rfl rfl with ⟨-, hneeds⟩ | ⟨v, hsome⟩
      · cases hneeds
      have hold : b.entries[k]? = some ⟨t, v⟩ := hsome
      rw [Sheet.accept, Sheet.update_eq_some, hsome]
      by_cases hk : k = key
      · subst hk
        simp [BlackboardCall.Puts, BlackboardCall.key?, hold, Sheet.edit, eq_comm]
      · simp [BlackboardCall.Puts, BlackboardCall.key?, hk]
    | remove k =>
      simp [Sheet.accept, Sheet.update_eq_some, BlackboardCall.Puts, BlackboardCall.key?]
    | clear => simp [Sheet.accept, BlackboardCall.Puts, BlackboardCall.key?]
    | contains _ => cases hdone
    | get _ _ => exact absurd hdone get_not_done
    | get? _ _ => exact absurd hdone get?_not_done
  · rw [unchanged_of_not_done hdone]
    simp [hdone]

theorem Writes.settles (h : b.Writes c key e) : b.Settles c key := by
  obtain ⟨hdone, hputs⟩ := h
  refine ⟨hdone, fun k hk => ?_⟩
  cases c with
  | set k' _ _ | modify k' _ _ => exact (Option.some.inj hk).symm.trans hputs.1
  | get _ _ | get? _ _ | remove _ | contains _ | clear => exact hputs.elim

theorem entry_of_not_settles (h : ¬ b.Settles c key) :
    (b.call c).2.entries[key]? = b.entries[key]? := by
  refine Option.ext fun e => ?_
  have hnot : ¬ b.Writes c key e := fun hwrites => h hwrites.settles
  simp only [entry_call, hnot, h, false_or, not_false_iff, true_and]

/-- What is written over an entry has its type. -/
theorem Writes.type (h : b.Writes c key e) {old : (t : ι) × V t}
    (hold : b.entries[key]? = some old) : e.1 = old.1 := by
  obtain ⟨hdone, hputs⟩ := h
  cases c with
  | set k t v =>
    obtain ⟨rfl, rfl⟩ := hputs
    rcases Sheet.typed_of_accepted (accepted_of_done hdone) rfl rfl with ⟨hnone, -⟩ | ⟨u, hsome⟩
    · exact absurd (hnone.symm.trans hold) nofun
    · obtain rfl : ⟨t, u⟩ = old := Option.some.inj (hsome.symm.trans hold)
      rfl
  | modify k t f =>
    obtain ⟨-, v, hsome, rfl⟩ := hputs
    obtain rfl : ⟨t, v⟩ = old := Option.some.inj (hsome.symm.trans hold)
    rfl
  | get _ _ | get? _ _ | remove _ | contains _ | clear => exact hputs.elim

/-- An entry keeps its type in every call but one that takes it away. -/
theorem typeOf?_call {s : ι} (h : b.typeOf? key = some s) :
    (b.call c).2.typeOf? key = some s ∨ (b.call c).1 = .done ∧ c.Empties key := by
  obtain ⟨old, hold, rfl⟩ := Option.map_eq_some_iff.mp h
  cases hnew : (b.call c).2.entries[key]? with
  | some e =>
    refine Or.inl ?_
    rw [typeOf?, hnew]
    rcases entry_call.mp hnew with hwrites | ⟨-, hsame⟩
    · exact congrArg some (hwrites.type hold)
    · exact congrArg (Option.map Sigma.fst) (hsame.symm.trans hold)
  | none =>
    -- The call has settled the key, and has not written to it.
    have hsettles : b.Settles c key := by
      by_contra hnot
      rw [entry_of_not_settles hnot, hold] at hnew
      cases hnew
    obtain ⟨hdone, hconcerns⟩ := hsettles
    have hunwritten (e : (t : ι) × V t) : ¬ b.Writes c key e := by
      intro hwrites
      rw [entry_call.mpr (Or.inl hwrites)] at hnew
      cases hnew
    refine Or.inr ⟨hdone, ?_⟩
    cases c with
    | set k t v => exact absurd ⟨hdone, hconcerns k rfl, rfl⟩ (hunwritten ⟨t, v⟩)
    | modify k t f =>
      obtain rfl : k = key := hconcerns k rfl
      rcases Sheet.typed_of_accepted (accepted_of_done hdone) rfl rfl with ⟨-, hneeds⟩ | ⟨v, hsome⟩
      · cases hneeds
      · exact absurd ⟨hdone, rfl, v, hsome, rfl⟩ (hunwritten ⟨t, f v⟩)
    | remove k => exact hconcerns k rfl
    | clear => trivial
    | contains _ => cases hdone
    | get _ _ => exact absurd hdone get_not_done
    | get? _ _ => exact absurd hdone get?_not_done

theorem get?_call (b : Blackboard V) (key : String) (t : ι) :
    (b.call (.get? key t)).1 = (b.call (.get key t)).1.tactful := by
  simp only [call, get?]
  cases b.get key t <;> rfl

theorem get_value_iff {v : V t} :
    (b.call (.get key t)).1 = .value t v ↔ b.entries[key]? = some ⟨t, v⟩ := by
  simp only [call]
  cases hentry : b.entries[key]? with
  | none => simp [get_of_none hentry]
  | some e =>
    obtain ⟨s, w⟩ := e
    by_cases hs : s = t
    · subst hs
      simp [get_of_some hentry]
    · simp [get_of_other hentry hs, hs]

end Blackboard

/-! ### Histories -/

omit [DecidableEq ι] in
/-- What answers every call alike, and stays alike, answers all calls alike. -/
theorem BlackboardCall.runAll_agree {S S' : Type} {R : S → S' → Prop}
    {step : S → BlackboardCall V → BlackboardReply V × S}
    {step' : S' → BlackboardCall V → BlackboardReply V × S'}
    (hstep : ∀ s s' c, R s s' →
      (step s c).1 = (step' s' c).1 ∧ R (step s c).2 (step' s' c).2)
    {s : S} {s' : S'} (h : R s s') (cs : List (BlackboardCall V)) :
    (runAll step s cs).1 = (runAll step' s' cs).1 ∧
      R (runAll step s cs).2 (runAll step' s' cs).2 := by
  induction cs generalizing s s' with
  | nil => exact ⟨rfl, h⟩
  | cons c cs ih =>
    obtain ⟨hreply, hafter⟩ := hstep s s' c h
    obtain ⟨hreplies, hend⟩ := ih hafter
    exact ⟨congrArg₂ List.cons hreply hreplies, hend⟩

namespace Blackboard

variable {b : Blackboard V} {key : String}

theorem after_append (b : Blackboard V) (cs ds : List (BlackboardCall V)) :
    b.after (cs ++ ds) = (b.after cs).after ds := by
  induction cs generalizing b with
  | nil => rfl
  | cons c cs ih => exact ih (b.call c).2

omit [DecidableEq ι] in
/-- One of calls in a row is the last one, or comes ahead of it. -/
theorem split_concat {cs before later : List (BlackboardCall V)} {last c : BlackboardCall V}
    (h : cs ++ [last] = before ++ c :: later) : (later = [] ∧ cs = before ∧ last = c) ∨
      ∃ rest, later = rest ++ [last] ∧ cs = before ++ c :: rest := by
  rcases List.eq_nil_or_concat' later with rfl | ⟨rest, d, rfl⟩
  · obtain ⟨hbefore, hlast⟩ := List.append_inj' h rfl
    exact Or.inl ⟨rfl, hbefore, List.singleton_inj.mp hlast⟩
  · rw [← List.cons_append, ← List.append_assoc] at h
    obtain ⟨hbefore, hlast⟩ := List.append_inj' h rfl
    rw [List.singleton_inj.mp hlast]
    exact Or.inr ⟨rest, rfl, hbefore⟩

/-- What is under a key of a new blackboard was written there, and no call since then has succeeded
in changing it. -/
theorem entry_after (hnew : b.entries[key]? = none) (cs : List (BlackboardCall V))
    {e : (t : ι) × V t} : (b.after cs).entries[key]? = some e ↔
      ∃ before c later, cs = before ++ c :: later ∧ (b.after before).Writes c key e ∧
        ∀ mid d rest, later = mid ++ d :: rest →
          ¬ (b.after (before ++ c :: mid)).Settles d key := by
  induction cs using List.reverseRecOn with
  | nil =>
    change b.entries[key]? = some e ↔ _
    simp [hnew]
  | append_singleton cs last ih =>
    have hcall : b.after (cs ++ [last]) = ((b.after cs).call last).2 := b.after_append cs [last]
    rw [hcall, entry_call]
    -- The last call has written the entry itself, or has left what those before it had written.
    constructor
    · rintro (hwrites | ⟨hnot, hold⟩)
      · exact ⟨cs, last, [], rfl, hwrites, fun mid d rest h => by simp at h⟩
      · obtain ⟨before, c, later, rfl, hwrites, hstays⟩ := ih.mp hold
        refine ⟨before, c, later ++ [last], by simp, hwrites, fun mid d rest hsplit => ?_⟩
        rcases split_concat hsplit with ⟨-, rfl, rfl⟩ | ⟨rest, -, hlater⟩
        · exact hnot
        · exact hstays mid d rest hlater
    · rintro ⟨before, c, later, hsplit, hwrites, hstays⟩
      rcases split_concat hsplit with ⟨-, rfl, rfl⟩ | ⟨rest, rfl, rfl⟩
      · exact Or.inl hwrites
      · refine Or.inr ⟨hstays rest last [] rfl, ih.mpr ⟨before, c, rest, rfl, hwrites, ?_⟩⟩
        rintro mid d rest rfl
        exact hstays mid d (rest ++ [last]) (by simp)

/-- A key changes its type only after its entry has been taken away. -/
theorem typeOf?_after {s t : ι} {cs : List (BlackboardCall V)} (h : b.typeOf? key = some s)
    (h' : (b.after cs).typeOf? key = some t) (hne : s ≠ t) :
    ∃ mid d rest, cs = mid ++ d :: rest ∧ ((b.after mid).call d).1 = .done ∧ d.Empties key := by
  induction cs generalizing b with
  | nil => exact absurd (Option.some.inj (h.symm.trans h')) hne
  | cons c cs ih =>
    rcases typeOf?_call h with hkept | ⟨hdone, hempties⟩
    · obtain ⟨mid, d, rest, rfl, htaken⟩ := ih hkept h'
      exact ⟨c :: mid, d, rest, rfl, htaken⟩
    · exact ⟨[], c, cs, rfl, hdone, hempties⟩

end Blackboard

/-- Whatever is asked of a new blackboard, with any keys and types in any order: it replies as the
map from keys to typed values does, and as the shelf does that keeps the names of types beside the
values. An access is refused for want of an entry, never if it brings one, or because the entry has
another type; it is told which key and types are at odds. Who is not told that it is done has
changed nothing, and who is has changed nothing under other keys. What is read was put there by the
last call that succeeded in changing it, and a key changes its type only if its entry is taken away
in between. -/
theorem blackboard_is_typed_map (id : BlackboardId) (cs : List (BlackboardCall V)) :
    let new : Blackboard V := .empty id
    let blank : Sheet V := fun _ => none
    let b := new.after cs
    (BlackboardCall.runAll Blackboard.call new cs).1 =
        (BlackboardCall.runAll Sheet.call blank cs).1 ∧
      b.Shows (BlackboardCall.runAll Sheet.call blank cs).2 ∧
      (BlackboardCall.runAll Shelf.call ⟨∅⟩ cs).1 =
        (BlackboardCall.runAll Blackboard.call new cs).1 ∧
      (∀ c key, (b.call c).1 = .refused (.missingKey key) ↔
        c.Reports ∧ c.needsEntry ∧ c.key? = some key ∧ b.contains key = false) ∧
      (∀ c key s t, (b.call c).1 = .refused (.typeMismatch key s t) ↔
        c.Reports ∧ c.key? = some key ∧ c.type? = some t ∧ b.typeOf? key = some s ∧ s ≠ t) ∧
      (∀ key t, (b.call (.get? key t)).1 = (b.call (.get key t)).1.tactful) ∧
      (∀ c, (b.call c).1 ≠ .done → (b.call c).2 = b) ∧
      (∀ c key, ¬ c.Concerns key → (b.call c).2.entries[key]? = b.entries[key]?) ∧
      (∀ key t v, (b.call (.get key t)).1 = .value t v ↔
        ∃ before c later, cs = before ++ c :: later ∧ (new.after before).Writes c key ⟨t, v⟩ ∧
          ∀ mid d rest, later = mid ++ d :: rest →
            ¬ (new.after (before ++ c :: mid)).Settles d key) ∧
      ∀ before later key s t, cs = before ++ later → (new.after before).typeOf? key = some s →
        b.typeOf? key = some t → s ≠ t → ∃ mid d rest, later = mid ++ d :: rest ∧
          ((new.after (before ++ mid)).call d).1 = .done ∧ d.Empties key := by
  intro new blank b
  have hnew (key : String) : new.entries[key]? = none := Std.TreeMap.getElem?_emptyc
  have hblank : new.Shows blank := hnew
  have hshelf : Shelf.Holds ⟨∅⟩ new := by
    intro key
    rw [hnew]
    exact Std.TreeMap.getElem?_emptyc
  obtain ⟨hreplies, hshows⟩ :=
    BlackboardCall.runAll_agree (fun _ _ c h => Blackboard.call_shows h c) hblank cs
  obtain ⟨hlabels, -⟩ := BlackboardCall.runAll_agree (fun _ _ c h => Shelf.call_holds h c) hshelf cs
  refine ⟨hreplies, hshows, hlabels, fun _ _ => Blackboard.missing_iff,
    fun _ _ _ _ => Blackboard.mismatch_iff, b.get?_call,
    fun _ => Blackboard.unchanged_of_not_done, fun c key hother => ?_, fun key t v => ?_, ?_⟩
  · exact Blackboard.entry_of_not_settles fun hsettles => hother hsettles.2
  · rw [Blackboard.get_value_iff]
    exact Blackboard.entry_after (hnew key) cs
  · rintro before later key s t rfl hs ht hne
    have hafter : b = (new.after before).after later := new.after_append before later
    rw [hafter] at ht
    obtain ⟨mid, d, rest, rfl, hdone, hempties⟩ := Blackboard.typeOf?_after hs ht hne
    refine ⟨mid, d, rest, rfl, ?_, hempties⟩
    rwa [new.after_append]

end BehaviourTree
