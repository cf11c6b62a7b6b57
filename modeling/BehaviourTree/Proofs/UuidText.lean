import BehaviourTree.Uuid
import Mathlib.Algebra.Ring.Nat
import Mathlib.Data.List.Basic

/-!
The text of an identifier is read as that identifier.
-/

namespace BehaviourTree.Uuid

/-- The number that digits make, the highest first. -/
def hexNumber (vs : List Nat) : Nat := vs.foldl (fun n v => 16*n+v) 0

theorem hexNumber_append_singleton (vs : List Nat) (v : Nat) :
    hexNumber (vs ++ [v]) = 16*hexNumber vs+v := by
  simp only [hexNumber, List.foldl_append, List.foldl_cons, List.foldl_nil]

theorem hexValue?_digitChar : ∀ v < 16, hexValue? (Nat.digitChar v) = some v := by decide

theorem length_hexDigits (n v : Nat) : (hexDigits n v).length = n := by
  induction n generalizing v with
  | zero => rfl
  | succ n ih => rw [hexDigits, List.length_append, ih, List.length_singleton]

/-- The lowest digits of a number stand for the number without what is above them. -/
theorem mapM_hexDigits (n v : Nat) :
    ∃ vs, (hexDigits n v).mapM hexValue? = some vs ∧ hexNumber vs = v%16^n := by
  induction n generalizing v with
  | zero => exact ⟨[], rfl, (Nat.mod_one v).symm⟩
  | succ n ih =>
    obtain ⟨vs, hvs, hnumber⟩ := ih (v/16)
    refine ⟨vs ++ [v%16], ?_, ?_⟩
    · rw [hexDigits, List.mapM_append, hvs]
      simp only [List.mapM_cons, hexValue?_digitChar _ (Nat.mod_lt v (by decide : 0 < 16)),
        List.mapM_nil]
      rfl
    · calc hexNumber (vs ++ [v%16])
        _ = 16*(v/16%16^n)+v%16 := by rw [hexNumber_append_singleton, hnumber]
        _ = v%16^(n+1) := by rw [Nat.pow_succ', Nat.mod_mul, Nat.add_comm]

theorem unhyphenate_hyphenate {groups : List Nat} {ds : List Char} (h : groups.sum ≤ ds.length) :
    unhyphenate groups (hyphenate groups ds) = some ds := by
  induction groups generalizing ds with
  | nil => rfl
  | cons n ns ih =>
    cases ns with
    | nil => rfl
    | cons m ns =>
      rw [List.sum_cons] at h
      have hfirst : (ds.take n).length = n := by rw [List.length_take]; omega
      have hrest : unhyphenate (m :: ns) (hyphenate (m :: ns) (ds.drop n)) = some (ds.drop n) :=
        ih (by rw [List.length_drop]; omega)
      calc unhyphenate (n :: m :: ns) (hyphenate (n :: m :: ns) ds)
        _ = (unhyphenate (m :: ns) (hyphenate (m :: ns) (ds.drop n))).map (ds.take n ++ ·) := by
          simp only [hyphenate, unhyphenate, List.drop_left' hfirst, List.take_left' hfirst]
        _ = some ds := by rw [hrest, Option.map_some, List.take_append_drop]

theorem length_hyphenate {groups : List Nat} {ds : List Char} (h : groups.sum ≤ ds.length) :
    (hyphenate groups ds).length = ds.length+(groups.length-1) := by
  induction groups generalizing ds with
  | nil => rfl
  | cons n ns ih =>
    cases ns with
    | nil => rfl
    | cons m ns =>
      rw [List.sum_cons] at h
      have hrest : (hyphenate (m :: ns) (ds.drop n)).length =
          (ds.drop n).length+((m :: ns).length-1) := ih (by rw [List.length_drop]; omega)
      rw [List.length_drop] at hrest
      rw [hyphenate, List.length_append, List.length_cons, hrest, List.length_take]
      · simp only [List.length_cons]; omega
      · simp

theorem ofDigits?_of_mapM {cs : List Char} {vs : List Nat} (hlength : cs.length = 32)
    (hvs : cs.mapM hexValue? = some vs) : ofDigits? cs = some (ofNat (hexNumber vs)) := by
  rw [ofDigits?, if_pos hlength, hvs, Option.map_some, hexNumber]

theorem ofDigits?_hexDigits (u : Uuid) : ofDigits? (hexDigits 32 u.bits.toNat) = some u := by
  obtain ⟨vs, hvs, hnumber⟩ := mapM_hexDigits 32 u.bits.toNat
  have hbits : u.bits.toNat < 16^32 := u.bits.isLt
  rw [ofDigits?_of_mapM (length_hexDigits _ _) hvs, hnumber, Nat.mod_eq_of_lt hbits, ofNat,
    BitVec.ofNat_toNat, BitVec.setWidth_eq]

/-- Only grouped digits have so many characters. -/
theorem ofText?_ofList {cs : List Char} (h : cs.length = 36) :
    ofText? (String.ofList cs) = ofGrouped? cs := by
  simp only [ofText?, String.toList_ofList, h]

theorem ofText?_text (u : Uuid) : ofText? u.text = some u := by
  have hdigits : groups.sum ≤ (hexDigits 32 u.bits.toNat).length := by
    rw [length_hexDigits]; decide
  have hlength : (hyphenate groups (hexDigits 32 u.bits.toNat)).length = 36 := by
    rw [length_hyphenate hdigits, length_hexDigits]; rfl
  rw [text, ofText?_ofList hlength, ofGrouped?, unhyphenate_hyphenate hdigits,
    Option.bind_eq_bind, Option.bind_some, ofDigits?_hexDigits]

end BehaviourTree.Uuid
