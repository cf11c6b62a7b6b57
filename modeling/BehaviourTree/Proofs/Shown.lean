import BehaviourTree.Document.Format
import Mathlib.Data.List.Forall2

/-!
What a format keeps of a document: a reader who expects its shape is shown all it says. What stands
in for parts that are not there is the reader's own affair.
-/

namespace BehaviourTree

/-- Documents that any format is made for: whole numbers of 64 bits, other numbers finite, and the
parts of a record under different names. -/
inductive Document.Carriable : Document → Prop
  | text (s : String) : Carriable (.text s)
  | flag (b : Bool) : Carriable (.flag b)
  | natural {n : Nat} (h : n < UInt64.size) : Carriable (.natural n)
  | single {x : Float32} (h : x.isFinite) : Carriable (.single x)
  | list {items : List Document} (h : ∀ d ∈ items, Carriable d) : Carriable (.list items)
  | record {parts : List (String × Document)} (hnames : (parts.map (·.1)).Nodup)
    (h : ∀ p ∈ parts, Carriable p.2) : Carriable (.record parts)

namespace Dialect

variable {V : Type}

/-- What is there on one side is there on the other, and as it should be. -/
def both (agree : V → Document → Bool) : Option V → Option Document → Bool
  | none, none => true
  | some v, some doc => agree v doc
  | _, _ => false

variable (d : Dialect V)

mutual

/-- To a reader who expects its shape, a value says what a document says. A text says it also to one
who would be content with nothing. -/
def shows : Shape → V → Document → Bool
  | .single, v, .text s => decide (d.text v = some s ∧ (d.optional v).join.bind d.text = some s)
  | .single, v, .flag b => decide (d.flag v = some b)
  | .single, v, .natural n => decide (d.natural v = some n)
  | .single, v, .single x => decide (d.single v = some x)
  | .list shape, v, .list items => match d.list v with
    | some vs => vs.length = items.length && (vs.zip items).all fun p => shows shape p.1 p.2
    | none => false
  | .record shapes, v, .record parts => match d.record (shapes.map (·.1)) v with
    | some vs => showsParts shapes vs parts
    | none => false
  | _, _, _ => false

/-- The same of all parts that are read. One that the document has not is not there. -/
def showsParts : List (String × Shape) → List (Option V) → List (String × Document) → Bool
  | [], [], _ => true
  | (name, shape) :: shapes, part :: rest, parts =>
    both (shows shape) part (parts.lookup name) && showsParts shapes rest parts
  | _, _, _ => false

end

variable {d} {v : V} {shape : Shape}

theorem shows_text_iff {s : String} :
    d.shows .single v (.text s) ↔ d.text v = some s ∧ (d.optional v).join.bind d.text = some s := by
  rw [shows, decide_eq_true_iff]

theorem shows_flag_iff {b : Bool} : d.shows .single v (.flag b) ↔ d.flag v = some b := by
  rw [shows, decide_eq_true_iff]

theorem shows_single_iff {x : Float32} : d.shows .single v (.single x) ↔ d.single v = some x := by
  rw [shows, decide_eq_true_iff]

theorem shows_list_iff {items : List Document} :
    d.shows (.list shape) v (.list items) ↔
      ∃ vs, d.list v = some vs ∧ List.Forall₂ (fun v item => d.shows shape v item) vs items := by
  rw [shows]
  cases hlist : d.list v with
  | none => simp
  | some vs =>
    rw [Bool.and_eq_true, decide_eq_true_iff, List.all_eq_true]
    simp only [Option.some.injEq, exists_eq_left', List.forall₂_iff_zip]
    refine and_congr_right fun _ => ⟨fun h {a b} hab => h (a, b) hab, fun h p hp => h hp⟩

theorem shows_record_iff {shapes : List (String × Shape)} {parts : List (String × Document)} :
    d.shows (.record shapes) v (.record parts) ↔
      ∃ vs, d.record (shapes.map (·.1)) v = some vs ∧ d.showsParts shapes vs parts := by
  rw [shows]
  cases hrecord : d.record (shapes.map (·.1)) v with
  | none => simp
  | some vs => simp

theorem showsParts_nil_iff {parts : List (String × Document)} {vs : List (Option V)} :
    d.showsParts [] vs parts ↔ vs = [] := by
  cases vs with
  | nil => simp [showsParts]
  | cons => simp [showsParts]

theorem showsParts_cons_iff {name : String} {shapes : List (String × Shape)}
    {parts : List (String × Document)} {vs : List (Option V)} :
    d.showsParts ((name, shape) :: shapes) vs parts ↔
      ∃ part rest, vs = part :: rest ∧ both (d.shows shape) part (parts.lookup name) ∧
        d.showsParts shapes rest parts := by
  cases vs with
  | nil => simp [showsParts]
  | cons part rest => simp [showsParts]

/-! ### Readers that are shown a document -/

variable {α : Type} {read : V → Option α} {part : Option V} {a : α}

theorem required_eq_of_both {item : Document} (h : both (d.shows shape) part (some item))
    (hread : ∀ v, d.shows shape v item → read v = some a) : required read part = some a := by
  cases part with
  | none => simp [both] at h
  | some v => exact hread v h

/-- A part may be left out where it says what the reader would take a missing one for. -/
theorem defaulting_eq_of_both {item : Option Document} {standard : α}
    (h : both (d.shows shape) part item) (hnone : item = none → standard = a)
    (hread : ∀ doc, item = some doc → ∀ v, d.shows shape v doc → read v = some a) :
    defaulting standard read part = some a := by
  cases part with
  | none =>
    cases item with
    | none => exact congrArg some (hnone rfl)
    | some doc => simp [both] at h
  | some v =>
    cases item with
    | none => simp [both] at h
    | some doc => exact hread doc rfl v h

theorem each_eq_of_shows {as : List α} {doc : α → Document}
    (h : d.shows (.list shape) v (.list (as.map doc)))
    (hread : ∀ a ∈ as, ∀ v, d.shows shape v (doc a) → read v = some a) :
    d.each read v = some as := by
  obtain ⟨vs, hlist, hitems⟩ := shows_list_iff.mp h
  rw [each, hlist, Option.bind_eq_bind, Option.bind_some]
  clear h hlist
  induction as generalizing vs with
  | nil =>
    cases hitems
    rfl
  | cons a as ih =>
    rw [List.map_cons] at hitems
    obtain ⟨v, vs, hv, hvs, rfl⟩ := List.forall₂_cons_right_iff.mp hitems
    rw [List.mapM_cons, hread a List.mem_cons_self v hv,
      ih (fun b hb => hread b (List.mem_cons_of_mem a hb)) vs hvs]
    rfl

end Dialect

namespace FileFormat

end FileFormat

end BehaviourTree
