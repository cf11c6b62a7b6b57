import BehaviourTree.TeamBoard
import BehaviourTree.Proofs.NumberOrder
import Mathlib.Data.List.Pairwise
import Mathlib.Data.Option.Basic

/-!
What the boards of the teams hold after any calls, by any agents in any order: under each key the
best report since the board was cleared, the earliest of them where several are equally good.
-/

namespace BehaviourTree

/-! ### Which report is better -/

namespace TeamReport

open Decimal

variable {r r' : TeamReport}

structure Numeric (r : TeamReport) : Prop where
  confidence : ¬ r.confidence.isNaN
  time : ¬ r.time.isNaN

/-- First the confidences are compared, then the times. -/
def Below (r r' : TeamReport) : Prop :=
  r.confidence < r'.confidence ∨ r.confidence == r'.confidence ∧ r.time < r'.time

def Ties (r r' : TeamReport) : Prop := r.confidence == r'.confidence ∧ r.time == r'.time

instance : Decidable r.Numeric :=
  decidable_of_iff (¬ r.confidence.isNaN ∧ ¬ r.time.isNaN) ⟨fun h => ⟨h.1, h.2⟩, fun h => ⟨h.1, h.2⟩⟩

instance : Decidable (r.Below r') :=
  inferInstanceAs (Decidable (r.confidence < r'.confidence ∨
    r.confidence == r'.confidence ∧ r.time < r'.time))

instance : Decidable (r.Ties r') :=
  inferInstanceAs (Decidable (r.confidence == r'.confidence ∧ r.time == r'.time))

/-- Where a report stands among all: the comparisons of numbers are a linear order there. -/
def standing (r : TeamReport) : (ℤ ×ₗ ℤ ×ₗ ℤ) ×ₗ (ℤ ×ₗ ℤ ×ₗ ℤ) :=
  toLex (singlePlace r.confidence, doublePlace r.time)

theorem below_iff (h : r.Numeric) (h' : r'.Numeric) : r.Below r' ↔ r.standing < r'.standing := by
  rw [Below, single_lt_iff h.confidence h'.confidence, single_beq_iff h.confidence h'.confidence,
    double_lt_iff h.time h'.time, standing, standing, Prod.Lex.toLex_lt_toLex]

theorem ties_iff (h : r.Numeric) (h' : r'.Numeric) : r.Ties r' ↔ r.standing = r'.standing := by
  rw [Ties, single_beq_iff h.confidence h'.confidence, double_beq_iff h.time h'.time]
  exact Prod.mk_inj.symm

theorem yieldsTo_iff (h : r.Numeric) (h' : r'.Numeric) : r.yieldsTo r' ↔ r.Below r' := by
  -- The rule has its equality the other way round.
  have hsame : r'.confidence == r.confidence ↔ r.confidence == r'.confidence := by
    rw [single_beq_iff h'.confidence h.confidence, single_beq_iff h.confidence h'.confidence]
    exact eq_comm
  rw [yieldsTo, Bool.or_eq_true, Bool.and_eq_true, decide_eq_true_iff, decide_eq_true_iff, hsame]
  rfl

end TeamReport

/-! ### The best of some reports -/

open TeamReport

/-- Above all that came before it, and not below any that came after it. -/
inductive Best : List TeamReport → Option TeamReport → Prop where
  | nil : Best [] none
  | top {before after : List TeamReport} {r : TeamReport} (above : ∀ x ∈ before, x.Below r)
      (unbeaten : ∀ x ∈ after, ¬ r.Below x) : Best (before ++ r :: after) (some r)

namespace Best

variable {reports reports' : List TeamReport} {stored stored' : Option TeamReport}
  {r r' : TeamReport}

theorem mem (h : Best reports (some r)) : r ∈ reports := by
  cases h
  exact List.mem_append_right _ List.mem_cons_self

theorem greatest (h : Best reports (some r)) (hnumeric : ∀ x ∈ reports, x.Numeric) {x : TeamReport}
    (hx : x ∈ reports) : x.standing ≤ r.standing := by
  have hr := hnumeric r h.mem
  cases h with
  | top above unbeaten =>
    rcases List.mem_append.mp hx with hbefore | hafter
    · exact ((below_iff (hnumeric x hx) hr).mp (above x hbefore)).le
    · rcases List.mem_cons.mp hafter with rfl | hafter
      · exact le_rfl
      · have hnot := unbeaten x hafter
        rw [below_iff hr (hnumeric x hx)] at hnot
        exact not_lt.mp hnot

/-- What gives way to a report is all there is exactly if the best does. -/
theorem yieldsTo_iff (h : Best reports stored) (hnumeric : ∀ x ∈ reports, x.Numeric)
    (hr : r.Numeric) : stored.all (·.yieldsTo r) ↔ ∀ x ∈ reports, x.Below r := by
  cases stored with
  | none =>
    cases h
    exact ⟨fun _ _ hx => absurd hx List.not_mem_nil, fun _ => rfl⟩
  | some best =>
    have hbest := hnumeric best h.mem
    rw [Option.all_some, TeamReport.yieldsTo_iff hbest hr]
    constructor
    · intro hbelow x hx
      have hle := h.greatest hnumeric hx
      rw [below_iff hbest hr] at hbelow
      rw [below_iff (hnumeric x hx) hr]
      exact hle.trans_lt hbelow
    · intro hall
      exact hall best h.mem

/-- One more report. -/
theorem append (h : Best reports stored) (hnumeric : ∀ x ∈ reports, x.Numeric) (hr : r.Numeric) :
    Best (reports ++ [r]) (if stored.all (·.yieldsTo r) then some r else stored) := by
  split
  next hyields =>
    exact .top ((h.yieldsTo_iff hnumeric hr).mp hyields) fun _ hx => absurd hx List.not_mem_nil
  next hstands =>
    cases h with
    | nil => exact absurd rfl hstands
    | @top before after best above unbeaten =>
      have hbest := hnumeric best (List.mem_append_right _ List.mem_cons_self)
      rw [List.append_assoc, List.cons_append]
      refine .top above fun x hx => ?_
      rcases List.mem_append.mp hx with hafter | hlast
      · exact unbeaten x hafter
      · rw [List.mem_singleton.mp hlast, ← TeamReport.yieldsTo_iff hbest hr]
        exact hstands

/-- The order of the reports does not matter for how good the best is. -/
theorem ties_of_perm (h : Best reports stored) (h' : Best reports' stored')
    (hperm : reports.Perm reports') (hnumeric : ∀ x ∈ reports, x.Numeric) :
    Option.Rel Ties stored stored' := by
  have hnumeric' : ∀ x ∈ reports', x.Numeric := fun x hx => hnumeric x (hperm.mem_iff.mpr hx)
  cases stored with
  | none =>
    cases h
    rw [List.nil_perm.mp hperm] at h'
    cases stored' with
    | none => exact .none
    | some r' => exact absurd h'.mem List.not_mem_nil
  | some r =>
    cases stored' with
    | none =>
      cases h'
      rw [List.perm_nil.mp hperm] at h
      exact absurd h.mem List.not_mem_nil
    | some r' =>
      refine .some ((ties_iff (hnumeric r h.mem) (hnumeric' r' h'.mem)).mpr (le_antisymm ?_ ?_))
      · exact h'.greatest hnumeric' (hperm.mem_iff.mp h.mem)
      · exact h.greatest hnumeric (hperm.mem_iff.mpr h'.mem)

/-- Where no two reports tie, it does not matter for which one is the best. -/
theorem eq_of_perm (h : Best reports stored) (h' : Best reports' stored')
    (hperm : reports.Perm reports') (hnumeric : ∀ x ∈ reports, x.Numeric)
    (hapart : ∀ x ∈ reports, ∀ y ∈ reports, x.Ties y → x = y) : stored = stored' := by
  cases h.ties_of_perm h' hperm hnumeric with
  | none => rfl
  | @some r r' hties =>
    have hr : r ∈ reports := h.mem
    have hr' : r' ∈ reports := hperm.mem_iff.mpr h'.mem
    exact congrArg some (hapart r hr r' hr' hties)

end Best

/-! ### The calls -/

/-- What is asked of the boards. -/
inductive TeamCall where
  | submit (team : TeamId) (r : TeamReport)
  | create (team : TeamId)
  | reset (team : TeamId)
  | resetAll

/-- The reports under a key of a team since the team's board was cleared, after one more call. -/
def TeamCall.record (team : TeamId) (key : String) (reports : List TeamReport) :
    TeamCall → List TeamReport
  | .submit team' r => if team' = team ∧ r.key = key then reports ++ [r] else reports
  | .create _ => reports
  | .reset team' => if team' = team then [] else reports
  | .resetAll => []

def reported (team : TeamId) (key : String) (calls : List TeamCall) : List TeamReport :=
  calls.foldl (TeamCall.record team key) []

namespace TeamBoards

def report? (s : TeamBoards) (team : TeamId) (key : String) : Option TeamReport :=
  (s.board team).get? key

def perform (s : TeamBoards) : TeamCall → TeamBoards
  | .submit team r => (s.submit team r).2
  | .create team => s.create team
  | .reset team => s.reset team
  | .resetAll => s.resetAll

/-- The boards after calls in a row, with none made before. -/
def after (calls : List TeamCall) : TeamBoards := calls.foldl perform empty

variable {s : TeamBoards} {team team' : TeamId} {key : String} {r : TeamReport}

theorem get?_put (s : TeamBoards) (team team' : TeamId) (b : TeamBoard) :
    (s.put team b).get? team' = if team = team' then some b else s.get? team' := by
  rw [get?, put, Std.TreeMap.getElem?_insert]
  simp only [Std.compare_eq_iff_eq]
  rfl

theorem report?_put (s : TeamBoards) (team team' : TeamId) (b : TeamBoard) (key : String) :
    (s.put team b).report? team' key = if team = team' then b.get? key else s.report? team' key := by
  rw [report?, board, get?_put]
  split <;> rfl

theorem report?_create (s : TeamBoards) (team team' : TeamId) (key : String) :
    (s.create team).report? team' key = s.report? team' key := by
  rw [create, report?_put]
  split
  next h => rw [h, report?]
  next => rfl

theorem get?_empty (key : String) : TeamBoard.empty.get? key = none := Std.TreeMap.getElem?_emptyc

theorem report?_reset (s : TeamBoards) (team team' : TeamId) (key : String) :
    (s.reset team).report? team' key = if team = team' then none else s.report? team' key := by
  rw [reset]
  split
  next b hb => rw [report?_put, get?_empty]
  next hb =>
    -- A team without a board has no entry to lose.
    split
    next h => rw [← h, report?, board, hb, Option.getD_none, get?_empty]
    next => rfl

theorem report?_resetAll (s : TeamBoards) (team : TeamId) (key : String) :
    s.resetAll.report? team key = none := by
  rw [report?, board, get?, resetAll, Std.TreeMap.getElem?_map]
  cases s.boards[team]? with
  | none => exact get?_empty key
  | some b => exact get?_empty key

theorem submit?_eq (b : TeamBoard) (r : TeamReport) : b.submit? r =
    if (b.get? r.key).all (·.yieldsTo r) then some ⟨b.reports.insert r.key r⟩ else none := by
  rw [TeamBoard.submit?]
  cases b.get? r.key with
  | none => rfl
  | some stored => rfl

theorem submit_answer (s : TeamBoards) (team : TeamId) (r : TeamReport) :
    (s.submit team r).1 = (s.report? team r.key).all (·.yieldsTo r) := by
  rw [submit, submit?_eq, ← report?]
  cases (s.report? team r.key).all (·.yieldsTo r) <;> rfl

theorem report?_submit (s : TeamBoards) (team team' : TeamId) (r : TeamReport) (key : String) :
    (s.submit team r).2.report? team' key =
      if team = team' ∧ r.key = key ∧ (s.submit team r).1 then some r else s.report? team' key := by
  rw [submit_answer, submit, submit?_eq, ← report?]
  cases (s.report? team r.key).all (·.yieldsTo r) with
  | false =>
    change (s.create team).report? team' key = _
    rw [report?_create, if_neg fun h => Bool.false_ne_true h.2.2]
  | true =>
    change (s.put team ⟨(s.board team).reports.insert r.key r⟩).report? team' key = _
    rw [report?_put]
    by_cases hteam : team = team'
    · subst hteam
      rw [if_pos rfl, TeamBoard.get?, Std.TreeMap.getElem?_insert]
      simp only [Std.compare_eq_iff_eq, true_and, and_true]
      rfl
    · rw [if_neg hteam, if_neg fun h => hteam h.1]

theorem get?_submit_of_ne (s : TeamBoards) {team team' : TeamId} (r : TeamReport)
    (h : team' ≠ team) : (s.submit team r).2.get? team' = s.get? team' := by
  rw [submit]
  split <;> exact (get?_put _ _ _ _).trans (if_neg h.symm)

/-- What a call does to one entry: the best of what is reported stays stored. -/
theorem perform_best {reports : List TeamReport} {team : TeamId} {key : String} (call : TeamCall)
    (h : (∀ x ∈ reports, x.Numeric) → Best reports (s.report? team key))
    (hnumeric : ∀ x ∈ call.record team key reports, x.Numeric) :
    Best (call.record team key reports) ((s.perform call).report? team key) := by
  cases call with
  | submit team' r =>
    change Best _ ((s.submit team' r).2.report? team key)
    rw [report?_submit, submit_answer]
    by_cases hplace : team' = team ∧ r.key = key
    · obtain ⟨rfl, rfl⟩ := hplace
      rw [TeamCall.record, if_pos ⟨rfl, rfl⟩] at hnumeric ⊢
      have hbefore : ∀ x ∈ reports, x.Numeric := fun x hx => hnumeric x (List.mem_append_left _ hx)
      have hr : r.Numeric := hnumeric r (List.mem_append_right _ List.mem_cons_self)
      simp only [true_and]
      exact (h hbefore).append hbefore hr
    · rw [TeamCall.record, if_neg hplace] at hnumeric ⊢
      rw [if_neg fun hall => hplace ⟨hall.1, hall.2.1⟩]
      exact h hnumeric
  | create team' =>
    change Best _ ((s.create team').report? team key)
    rw [report?_create]
    exact h hnumeric
  | reset team' =>
    change Best _ ((s.reset team').report? team key)
    rw [report?_reset]
    by_cases hteam : team' = team
    · rw [TeamCall.record, if_pos hteam, if_pos hteam]
      exact .nil
    · rw [TeamCall.record, if_neg hteam] at hnumeric ⊢
      rw [if_neg hteam]
      exact h hnumeric
  | resetAll =>
    change Best _ (s.resetAll.report? team key)
    rw [report?_resetAll]
    exact .nil

/-- What calls in a row do to it. -/
theorem foldl_best (calls : List TeamCall) {s : TeamBoards} {reports : List TeamReport}
    {team : TeamId} {key : String}
    (h : (∀ x ∈ reports, x.Numeric) → Best reports (s.report? team key))
    (hnumeric : ∀ x ∈ calls.foldl (TeamCall.record team key) reports, x.Numeric) :
    Best (calls.foldl (TeamCall.record team key) reports)
      ((calls.foldl perform s).report? team key) := by
  -- Only what is on record in the end is known to be numeric. What a reset takes out need not be, so
  -- the induction carries this as a condition.
  induction calls generalizing s reports with
  | nil => exact h hnumeric
  | cons call calls ih => exact ih (perform_best call h) hnumeric

theorem after_best (calls : List TeamCall) {team : TeamId} {key : String}
    (hnumeric : ∀ x ∈ reported team key calls, x.Numeric) :
    Best (reported team key calls) ((after calls).report? team key) :=
  foldl_best calls (fun _ => .nil) hnumeric

end TeamBoards

/-! ### The order of the calls -/

/-- Reports to teams, by whichever agents. -/
def offering (offers : List (TeamId × TeamReport)) : List TeamCall :=
  offers.map fun o => .submit o.1 o.2

theorem reported_offering (team : TeamId) (key : String) (calls : List TeamCall)
    (offers : List (TeamId × TeamReport)) :
    reported team key (calls ++ offering offers) = reported team key calls ++
      (offers.filter fun o => o.1 = team ∧ o.2.key = key).map Prod.snd := by
  induction offers generalizing calls with
  | nil => rw [offering, List.map_nil, List.append_nil, List.filter_nil, List.map_nil, List.append_nil]
  | cons o offers ih =>
    have hfirst : calls ++ offering (o :: offers) =
        (calls ++ [.submit o.1 o.2]) ++ offering offers := by
      rw [List.append_assoc]
      rfl
    rw [hfirst, ih, reported, List.foldl_append, ← reported, List.foldl_cons, List.foldl_nil,
      TeamCall.record, List.filter_cons]
    by_cases hplace : o.1 = team ∧ o.2.key = key
    · rw [if_pos hplace, if_pos (decide_eq_true hplace), List.map_cons, List.append_assoc]
      rfl
    · rw [if_neg hplace, if_neg (mt of_decide_eq_true hplace)]

theorem reported_perm (team : TeamId) (key : String) (calls : List TeamCall)
    {offers offers' : List (TeamId × TeamReport)} (h : offers.Perm offers') :
    (reported team key (calls ++ offering offers)).Perm
      (reported team key (calls ++ offering offers')) := by
  rw [reported_offering, reported_offering]
  exact ((h.filter _).map _).append_left _

/-- After any calls the entry of a key is the earliest of its best reports since the team's board was
cleared; one more report is stored exactly if it is above all of those, and touches no other entry.
In another order the calls lead to an entry as good, and to the same one if no two of the reports
tie. -/
theorem boards_keep_best (calls : List TeamCall) (team : TeamId) (key : String)
    (hnumeric : ∀ x ∈ reported team key calls, x.Numeric) :
    Best (reported team key calls) ((TeamBoards.after calls).report? team key) ∧
    (∀ r : TeamReport, r.key = key →
      (r.Numeric → (((TeamBoards.after calls).submit team r).1 ↔
        ∀ x ∈ reported team key calls, x.Below r)) ∧
      (∀ team' ≠ team, ((TeamBoards.after calls).submit team r).2.get? team' =
        (TeamBoards.after calls).get? team') ∧
      ∀ key' ≠ key, ((TeamBoards.after calls).submit team r).2.report? team key' =
        (TeamBoards.after calls).report? team key') ∧
    ∀ (before : List TeamCall) (offers offers' : List (TeamId × TeamReport)),
      calls = before ++ offering offers → offers.Perm offers' →
      Option.Rel Ties ((TeamBoards.after calls).report? team key)
        ((TeamBoards.after (before ++ offering offers')).report? team key) ∧
      ((∀ x ∈ reported team key calls, ∀ y ∈ reported team key calls, x.Ties y → x = y) →
        (TeamBoards.after calls).report? team key =
          (TeamBoards.after (before ++ offering offers')).report? team key) := by
  have hbest := TeamBoards.after_best calls hnumeric
  refine ⟨hbest, ?_, ?_⟩
  · rintro r rfl
    refine ⟨fun hr => ?_, fun team' hteam => TeamBoards.get?_submit_of_ne _ r hteam, ?_⟩
    · rw [TeamBoards.submit_answer]
      exact hbest.yieldsTo_iff hnumeric hr
    · intro key' hkey
      rw [TeamBoards.report?_submit, if_neg fun hall => hkey hall.2.1.symm]
  · rintro before offers offers' rfl hperm
    have hreported := reported_perm team key before hperm
    have hbest' := TeamBoards.after_best (before ++ offering offers') fun x hx =>
      hnumeric x (hreported.mem_iff.mpr hx)
    exact ⟨hbest.ties_of_perm hbest' hreported hnumeric,
      hbest.eq_of_perm hbest' hreported hnumeric⟩

def sighting (agent : UInt64) (confidence : Float32) (time : Float) : TeamReport :=
  ⟨"enemy", .zero, ⟨agent⟩, time, confidence⟩

/-- After a reset the old report does not count; of two reports that tie the first one stays. -/
theorem boards_keep_best_sightings :
    let before : List TeamCall := [.submit 1 (sighting 1 9 9), .resetAll]
    let offers : List (TeamId × TeamReport) :=
      [(1, sighting 1 2 7), (1, sighting 2 3 1), (2, sighting 3 8 8), (1, sighting 4 3 1)]
    Best [sighting 1 2 7, sighting 2 3 1, sighting 4 3 1]
      ((TeamBoards.after (before ++ offering offers)).report? 1 "enemy") ∧
    ((TeamBoards.after (before ++ offering offers)).submit 1 (sighting 5 3 2)).1 = true ∧
    Option.Rel Ties ((TeamBoards.after (before ++ offering offers)).report? 1 "enemy")
      ((TeamBoards.after (before ++ offering offers.reverse)).report? 1 "enemy") := by
  intro before offers
  obtain ⟨hbest, hsubmit, horder⟩ :=
    boards_keep_best (before ++ offering offers) 1 "enemy" (by decide +kernel)
  refine ⟨hbest, ?_, ?_⟩
  · exact ((hsubmit (sighting 5 3 2) rfl).1 (by decide +kernel)).mpr (by decide +kernel)
  · exact (horder before offers offers.reverse rfl offers.reverse_perm.symm).1

end BehaviourTree
