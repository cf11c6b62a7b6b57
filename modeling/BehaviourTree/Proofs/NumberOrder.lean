import BehaviourTree.Decimal.Binary
import Mathlib.Algebra.Order.Group.Int
import Mathlib.Algebra.Order.Monoid.Prod
import Mathlib.Algebra.Ring.Int.Defs
import Mathlib.Algebra.Ring.Nat
import Mathlib.Data.Prod.Lex
import Mathlib.Order.Compare
import Mathlib.Order.Monotone.Odd

/-!
Floating-point numbers in a line: comparing two of them is comparing their places in a linear order,
in which the zeros share a place.
-/

namespace BehaviourTree.Decimal

open Float.Model (Format UnpackedFloat)

/-- Where a number stands: the negative ones by falling size, zero, the positive ones by rising
size, and the infinities at the ends. What is not a number has no place of its own. -/
def place : UnpackedFloat → ℤ ×ₗ ℤ ×ₗ ℤ
  | .infinity .negative => toLex (-2, toLex (0, 0))
  | .finite .negative m e _ => toLex (-1, toLex (-e, -m))
  | .zero _ | .notANumber => toLex (0, toLex (0, 0))
  | .finite .positive m e _ => toLex (1, toLex (e, m))
  | .infinity .positive => toLex (2, toLex (0, 0))

theorem compare_neg (x y : ℤ) : compare (-x) (-y) = (compare x y).swap := by
  have hanti : StrictAnti fun z : ℤ => -z := fun _ _ => Int.neg_lt_neg
  rw [← cmp_eq_compare, ← cmp_eq_compare, cmp_swap]
  exact hanti.cmp_map_eq x y

theorem compare_cast (m n : ℕ) : compare (m : ℤ) n = compare m n := by
  have hmono : StrictMono fun k : ℕ => (k : ℤ) := fun _ _ => Int.ofNat_lt.mpr
  rw [← cmp_eq_compare, ← cmp_eq_compare]
  exact hmono.cmp_map_eq m n

theorem compare_place {a b : UnpackedFloat} (ha : ¬ a.isNaN) (hb : ¬ b.isNaN) :
    a.compare b = some (compare (place a) (place b)) := by
  cases a with
  | notANumber => exact absurd rfl ha
  | infinity s | zero s =>
    cases b with
    | notANumber => exact absurd rfl hb
    | infinity s' | zero s' | finite s' m' e' => cases s <;> cases s' <;> rfl
  | finite s m e =>
    cases b with
    | notANumber => exact absurd rfl hb
    | infinity s' | zero s' => cases s <;> cases s' <;> rfl
    | finite s' m' e' =>
      cases s with
      | negative =>
        cases s' with
        | positive => rfl
        | negative =>
          -- Of two negative numbers the one of the smaller size is the greater.
          have hsizes : compare (toLex (-e, -(m : ℤ))) (toLex (-e', -(m' : ℤ))) =
              ((compare e e').then (compare m m')).swap := by
            calc compare (toLex (-e, -(m : ℤ))) (toLex (-e', -(m' : ℤ)))
              _ = (compare (-e) (-e')).then (compare (-(m : ℤ)) (-(m' : ℤ))) := rfl
              _ = (compare e e').swap.then (compare m m').swap := by
                rw [compare_neg, compare_neg, compare_cast]
              _ = ((compare e e').then (compare m m')).swap := by rw [Ordering.swap_then]
          exact congrArg some hsizes.symm
      | positive =>
        cases s' with
        | negative => rfl
        | positive =>
          have hsizes : compare (toLex (e, (m : ℤ))) (toLex (e', (m' : ℤ))) =
              (compare e e').then (compare m m') := by
            rw [← compare_cast]
            rfl
          exact congrArg some hsizes.symm

theorem lt_place {a b : UnpackedFloat} (ha : ¬ a.isNaN) (hb : ¬ b.isNaN) :
    a.lt b ↔ place a < place b := by
  change (a.compare b == some .lt) = true ↔ _
  rw [compare_place ha hb, beq_iff_eq, Option.some_inj, compare_lt_iff_lt]

theorem le_place {a b : UnpackedFloat} (ha : ¬ a.isNaN) (hb : ¬ b.isNaN) :
    a.le b ↔ place a ≤ place b := by
  change ((a.compare b).any (·.isLE)) = true ↔ _
  rw [compare_place ha hb, Option.any_some, Ordering.isLE_iff_ne_gt, compare_gt_iff_gt,
    not_lt]

theorem beq_place {a b : UnpackedFloat} (ha : ¬ a.isNaN) (hb : ¬ b.isNaN) :
    a.beq b ↔ place a = place b := by
  change (a.compare b == some .eq) = true ↔ _
  rw [compare_place ha hb, beq_iff_eq, Option.some_inj, compare_eq_iff_eq]

/-! ### Single and double precision -/

def singlePlace (x : Float32) : ℤ ×ₗ ℤ ×ₗ ℤ := place x.toModel.unpack

def doublePlace (x : Float) : ℤ ×ₗ ℤ ×ₗ ℤ := place x.toModel.unpack

theorem single_lt_iff {x y : Float32} (hx : ¬ x.isNaN) (hy : ¬ y.isNaN) :
    x < y ↔ singlePlace x < singlePlace y := by
  change decide (x.toModel < y.toModel) ↔ _
  rw [decide_eq_true_iff]
  exact lt_place hx hy

theorem single_le_iff {x y : Float32} (hx : ¬ x.isNaN) (hy : ¬ y.isNaN) :
    x ≤ y ↔ singlePlace x ≤ singlePlace y := by
  change decide (x.toModel ≤ y.toModel) ↔ _
  rw [decide_eq_true_iff]
  exact le_place hx hy

theorem single_beq_iff {x y : Float32} (hx : ¬ x.isNaN) (hy : ¬ y.isNaN) :
    x == y ↔ singlePlace x = singlePlace y := beq_place hx hy

theorem double_lt_iff {x y : Float} (hx : ¬ x.isNaN) (hy : ¬ y.isNaN) :
    x < y ↔ doublePlace x < doublePlace y := by
  change decide (x.toModel < y.toModel) ↔ _
  rw [decide_eq_true_iff]
  exact lt_place hx hy

theorem double_beq_iff {x y : Float} (hx : ¬ x.isNaN) (hy : ¬ y.isNaN) :
    x == y ↔ doublePlace x = doublePlace y := beq_place hx hy

/-! ### Ranks -/

/-- The place of the number that is so many steps above zero. Numbers of one exponent come in a row,
and the two lowest rows have the same exponent. -/
def stepsPlace (n : ℕ) : ℤ ×ₗ ℤ ×ₗ ℤ :=
  if n = 0 then 0
  else if n < infinityRank then
    toLex (1, toLex (max (n/2^23 : ℤ) 1-150, if n < 2^23 then n else 2^23+n%2^23))
  else toLex (2, toLex (n-infinityRank, 0))

theorem stepsPlace_lt {m n : ℕ} (hmn : m < n) : stepsPlace m < stepsPlace n := by
  have hinf : infinityRank = 255*2^23 := rfl
  have hn : n ≠ 0 := by omega
  have hfirst {a b : ℤ} (h : a < b) (x y : ℤ ×ₗ ℤ) : toLex (a, x) < toLex (b, y) :=
    Prod.Lex.toLex_lt_toLex.mpr (Or.inl h)
  unfold stepsPlace
  rw [if_neg hn]
  by_cases hm : m = 0
  · rw [if_pos hm]
    split
    · exact hfirst Int.one_pos _ _
    · exact hfirst (by decide) _ _
  · rw [if_neg hm]
    by_cases hfinite : n < infinityRank
    · rw [if_pos (hmn.trans hfinite), if_pos hfinite, Prod.Lex.toLex_lt_toLex]
      refine Or.inr ⟨rfl, Prod.Lex.toLex_lt_toLex.mpr ?_⟩
      dsimp only
      omega
    · rw [if_neg hfinite]
      split
      · exact hfirst (by decide) _ _
      · rw [Prod.Lex.toLex_lt_toLex]
        refine Or.inr ⟨rfl, Prod.Lex.toLex_lt_toLex.mpr (Or.inl ?_)⟩
        dsimp only
        omega

/-- The place of the number of a rank. -/
def rankPlace (a : ℤ) : ℤ ×ₗ ℤ ×ₗ ℤ :=
  if 0 ≤ a then stepsPlace a.toNat else -stepsPlace (-a).toNat

theorem rankPlace_neg (a : ℤ) : rankPlace (-a) = -rankPlace a := by
  unfold rankPlace
  rcases Int.lt_trichotomy a 0 with ha | rfl | ha
  · rw [if_pos (by omega), if_neg (by omega), neg_neg]
  · rfl
  · rw [if_neg (by omega), if_pos (by omega), Int.neg_neg]

theorem rankPlace_lt_iff {a b : ℤ} : rankPlace a < rankPlace b ↔ a < b := by
  have hmono : StrictMono rankPlace := by
    apply strictMono_of_odd_strictMonoOn_nonneg rankPlace_neg
    intro a ha b hb hab
    rw [Set.mem_Ici] at ha hb
    unfold rankPlace
    rw [if_pos ha, if_pos hb]
    apply stepsPlace_lt
    omega
  exact hmono.lt_iff_lt

theorem rankPlace_le_iff {a b : ℤ} : rankPlace a ≤ rankPlace b ↔ a ≤ b := by
  rw [← not_lt, rankPlace_lt_iff, not_lt]

theorem rankPlace_inj {a b : ℤ} : rankPlace a = rankPlace b ↔ a = b := by
  rw [le_antisymm_iff, rankPlace_le_iff, rankPlace_le_iff, le_antisymm_iff]

section Unpack

variable (b : BitVec 32)

theorem toNat_unpackMantissa :
    (@UnpackedFloat.unpackMantissa Format.binary32 b).toNat = b.toNat%2^23 := by
  unfold UnpackedFloat.unpackMantissa
  rw [BitVec.toNat_cast, BitVec.extractLsb_toNat]
  simp

theorem toNat_unpackExponent :
    (@UnpackedFloat.unpackExponent Format.binary32 b).toNat = b.toNat/2^23%2^8 := by
  unfold UnpackedFloat.unpackExponent
  rw [BitVec.toNat_cast, BitVec.extractLsb_toNat]
  simp [Nat.shiftRight_eq_div_pow]

theorem toNat_unpackSign :
    (@UnpackedFloat.unpackSign Format.binary32 b).toNat = b.toNat/2^31%2 := by
  unfold UnpackedFloat.unpackSign
  rw [BitVec.toNat_cast, BitVec.extractLsb_toNat]
  simp [Nat.shiftRight_eq_div_pow]

end Unpack

/-- The sign in a word of single precision. -/
def wordSign (b : BitVec 32) : UnpackedFloat.Sign :=
  if b.toNat < 2^31 then .positive else .negative

theorem ofBitVec_unpackSign (b : BitVec 32) :
    UnpackedFloat.Sign.ofBitVec (@UnpackedFloat.unpackSign Format.binary32 b) =
      wordSign b := by
  have hbound := b.isLt
  have hsign := toNat_unpackSign b
  unfold UnpackedFloat.Sign.ofBitVec wordSign
  apply if_congr _ rfl rfl
  rw [← BitVec.toNat_inj, hsign, BitVec.toNat_ofNat]
  omega

/-- What a word of single precision stands for, by its exponent field `e` and its fraction `m`. -/
theorem unpack_cases (b : BitVec 32) :
    let u := UnpackedFloat.unpack Format.binary32 b
    let e : ℕ := b.toNat/2^23%2^8
    let m : ℕ := b.toNat%2^23
    (e = 255 ∧ m = 0 ∧ u = .infinity (wordSign b)) ∨ (e = 255 ∧ m ≠ 0 ∧ u = .notANumber) ∨
    (e = 0 ∧ m = 0 ∧ u = .zero (wordSign b)) ∨
    (e ≠ 255 ∧ (e ≠ 0 ∨ m ≠ 0) ∧ ∃ m' e' hpos, u = .finite (wordSign b) m' e' hpos ∧
      m' = (if e = 0 then m else 2^23+m) ∧ e' = max (e : ℤ) 1-150) := by
  intro u e m
  have hm : (@UnpackedFloat.unpackMantissa Format.binary32 b).toNat = m :=
    toNat_unpackMantissa b
  have he : (@UnpackedFloat.unpackExponent Format.binary32 b).toNat = e :=
    toNat_unpackExponent b
  have hm_zero : @UnpackedFloat.unpackMantissa Format.binary32 b = 0#23 ↔ m = 0 := by
    rw [← BitVec.toNat_inj, hm, BitVec.toNat_ofNat, Nat.zero_mod]
  have he_zero : @UnpackedFloat.unpackExponent Format.binary32 b = 0#8 ↔ e = 0 := by
    rw [← BitVec.toNat_inj, he, BitVec.toNat_ofNat, Nat.zero_mod]
  have he_ones : @UnpackedFloat.unpackExponent Format.binary32 b = -1#8 ↔ e = 255 := by
    rw [← BitVec.toNat_inj, he]
    rfl
  have hm_lt : m < 2^23 := Nat.mod_lt _ (by decide)
  have hu : u = UnpackedFloat.unpack Format.binary32 b := rfl
  unfold UnpackedFloat.unpack at hu
  dsimp only at hu
  rw [ofBitVec_unpackSign] at hu
  by_cases hones : @UnpackedFloat.unpackExponent Format.binary32 b = -1#8
  · rw [if_pos hones] at hu
    by_cases hzero : @UnpackedFloat.unpackMantissa Format.binary32 b = 0#23
    · rw [if_pos hzero] at hu
      exact Or.inl ⟨he_ones.mp hones, hm_zero.mp hzero, hu⟩
    · rw [if_neg hzero] at hu
      exact Or.inr (Or.inl ⟨he_ones.mp hones, mt hm_zero.mpr hzero, hu⟩)
  · rw [if_neg hones] at hu
    refine Or.inr (Or.inr ?_)
    by_cases hlow : @UnpackedFloat.unpackExponent Format.binary32 b = 0#8
    · rw [if_pos hlow] at hu
      have hlow' : e = 0 := he_zero.mp hlow
      by_cases hzero : @UnpackedFloat.unpackMantissa Format.binary32 b = 0#23
      · rw [dif_pos hzero] at hu
        exact Or.inl ⟨hlow', hm_zero.mp hzero, hu⟩
      · rw [dif_neg hzero] at hu
        refine Or.inr ⟨mt he_ones.mpr hones, Or.inr (mt hm_zero.mpr hzero), _, _, _, hu, ?_, ?_⟩
        · rw [if_pos hlow', hm]
        · rw [he, hlow']
          rfl
    · rw [if_neg hlow] at hu
      have hlow' : e ≠ 0 := mt he_zero.mpr hlow
      refine Or.inr ⟨mt he_ones.mpr hones, Or.inl hlow', _, _, _, hu, ?_, ?_⟩
      · rw [if_neg hlow', BitVec.toNat_append, hm, ← Nat.shiftLeft_add_eq_or_of_lt hm_lt]
        rfl
      · have hbias : ((Format.binary32.exponentBias : ℤ) +
            Format.binary32.mantissaBitsWithoutImplicit) = 150 := rfl
        rw [he, hbias]
        omega

/-- A word of single precision says how many steps its number is from zero, and in which direction.
Beyond the infinities there are no numbers. -/
theorem place_unpack (b : BitVec 32) :
    let u := UnpackedFloat.unpack Format.binary32 b
    let steps := b.toNat%2^31
    (u.isNaN ↔ infinityRank < steps) ∧ (steps ≤ infinityRank →
      place u = if b.toNat < 2^31 then stepsPlace steps else -stepsPlace steps) := by
  intro u steps
  have hinf : infinityRank = 255*2^23 := rfl
  have hb := b.isLt
  have hsteps : steps = 2^23*(b.toNat/2^23%2^8)+b.toNat%2^23 := by omega
  -- Which of two opposite numbers it is depends on the sign alone.
  have hplace (f : UnpackedFloat.Sign → UnpackedFloat) (hu : u = f (wordSign b))
      (hpos : place (f .positive) = stepsPlace steps)
      (hneg : place (f .negative) = -place (f .positive)) :
      place u = if b.toNat < 2^31 then stepsPlace steps else -stepsPlace steps := by
    rw [hu, wordSign]
    split
    · exact hpos
    · rw [hneg, hpos]
  rcases unpack_cases b with ⟨he, hm, hu⟩ | ⟨he, hm, hu⟩ | ⟨he, hm, hu⟩ |
    ⟨he, hm, m, e, hpos, hu, hmantissa, hexponent⟩
  · have hlast : steps = infinityRank := by omega
    refine ⟨?_, fun _ => hplace _ hu ?_ rfl⟩
    · rw [show u = _ from hu, hlast]
      exact iff_of_false Bool.false_ne_true (Nat.lt_irrefl infinityRank)
    · rw [hlast]
      rfl
  · have hbeyond : infinityRank < steps := by omega
    refine ⟨iff_of_true ?_ hbeyond, fun hle => absurd hbeyond (Nat.not_lt.mpr hle)⟩
    rw [show u = _ from hu]
    rfl
  · have hnone : steps = 0 := by omega
    refine ⟨?_, fun _ => hplace _ hu ?_ rfl⟩
    · rw [show u = _ from hu, hnone]
      exact iff_of_false Bool.false_ne_true (Nat.not_lt_zero infinityRank)
    · rw [hnone]
      rfl
  · have hwithin : steps < infinityRank := by omega
    have hnonzero : steps ≠ 0 := by omega
    refine ⟨?_, fun _ => hplace (fun s => .finite s m e hpos) hu ?_ rfl⟩
    · rw [show u = _ from hu]
      exact iff_of_false Bool.false_ne_true hwithin.not_gt
    · unfold stepsPlace
      rw [if_neg hnonzero, if_pos hwithin]
      change toLex (1, toLex (e, (m : ℤ))) = _
      have he' : e = max (steps/2^23 : ℤ) 1-150 := by omega
      have hm' : (m : ℤ) = if steps < 2^23 then (steps : ℤ) else 2^23+steps%2^23 := by
        split at hmantissa <;> split <;> omega
      rw [he', hm']

/-- The word of a number that has a rank, and the place of the number. -/
theorem place_of_word (x : Float32) :
    (rank? x = none ↔ x.isNaN) ∧ ∀ a, rank? x = some a → singlePlace x = rankPlace a := by
  obtain ⟨hnan, hplace⟩ := place_unpack x.toBits.toBitVec
  have hhalf : UInt32.size/2 = 2^31 := rfl
  unfold rank?
  simp only [hhalf]
  split
  · next hbeyond => exact ⟨iff_of_true rfl (hnan.mpr hbeyond), fun a ha => nomatch ha⟩
  · next hwithin =>
    refine ⟨iff_of_false (by simp) (mt hnan.mp hwithin), fun a ha => ?_⟩
    have hp : singlePlace x = if x.toBits.toNat < 2^31 then stepsPlace (x.toBits.toNat%2^31)
      else -stepsPlace (x.toBits.toNat%2^31) := hplace (Nat.not_lt.mp hwithin)
    rw [hp, ← Option.some_inj.mp ha]
    split
    · unfold rankPlace
      rw [if_pos (by omega), Int.toNat_natCast]
    · rw [rankPlace_neg]
      unfold rankPlace
      rw [if_pos (by omega), Int.toNat_natCast]

theorem exists_rank {x : Float32} (hx : ¬ x.isNaN) : ∃ a, rank? x = some a :=
  Option.ne_none_iff_exists'.mp (mt (place_of_word x).1.mp hx)

theorem not_isNaN_of_rank {x : Float32} {a : ℤ} (hx : rank? x = some a) : ¬ x.isNaN := by
  rw [← (place_of_word x).1, hx]
  exact Option.some_ne_none a

theorem lt_iff_of_rank {x y : Float32} {a b : ℤ} (hx : rank? x = some a) (hy : rank? y = some b) :
    x < y ↔ a < b := by
  rw [single_lt_iff (not_isNaN_of_rank hx) (not_isNaN_of_rank hy), (place_of_word x).2 a hx,
    (place_of_word y).2 b hy, rankPlace_lt_iff]

theorem beq_iff_of_rank {x y : Float32} {a b : ℤ} (hx : rank? x = some a) (hy : rank? y = some b) :
    x == y ↔ a = b := by
  rw [single_beq_iff (not_isNaN_of_rank hx) (not_isNaN_of_rank hy), (place_of_word x).2 a hx,
    (place_of_word y).2 b hy, rankPlace_inj]

theorem le_iff_of_rank {x y : Float32} {a b : ℤ} (hx : rank? x = some a) (hy : rank? y = some b) :
    x ≤ y ↔ a ≤ b := by
  rw [single_le_iff (not_isNaN_of_rank hx) (not_isNaN_of_rank hy), (place_of_word x).2 a hx,
    (place_of_word y).2 b hy, rankPlace_le_iff]

end BehaviourTree.Decimal

