import Mathlib.Algebra.Order.Floor.Ring
import Mathlib.Data.Int.ConditionallyCompleteOrder
import Mathlib.Data.Sign.Basic
import Mathlib.Tactic.Linarith

/-!
# Rounding toward zero

`towardZero a` is what a conversion of `a` to an integer type keeps: its integral part, with the
fraction cut off on the side of zero.  Positive integers below `a` stay below it and negative ones
above `a` stay above it (`le_towardZero_iff`, `towardZero_le_iff`), which says all there is to say:
two numbers round alike unless an integer lies between them on the way from zero
(`towardZero_eq_iff`), and their difference grows by less than one step
(`abs_towardZero_sub_lt`).
-/

namespace MKart.TowardZero

variable {α : Type*} [Field α] [LinearOrder α] [FloorRing α]

def towardZero (a : α) : ℤ := if 0 ≤ a then ⌊a⌋ else ⌈a⌉

/-- No integer lies between `a` and `b`, where an integer counts from its own side of zero on. -/
def SameStep (a b : α) : Prop :=
  ∀ k : ℤ, (0 < k → ¬ (a < k ∧ (k : α) ≤ b)) ∧ (k < 0 → ¬ (a ≤ k ∧ (k : α) < b))

theorem towardZero_of_nonneg {a : α} (h : 0 ≤ a) : towardZero a = ⌊a⌋ := if_pos h

theorem towardZero_nonneg {a : α} (h : 0 ≤ a) : 0 ≤ towardZero a := by
  rw [towardZero_of_nonneg h]
  exact Int.floor_nonneg.mpr h

variable [IsStrictOrderedRing α]

theorem towardZero_of_nonpos {a : α} (h : a ≤ 0) : towardZero a = ⌈a⌉ := by
  rcases h.lt_or_eq with hlt | rfl
  · exact if_neg (not_le.mpr hlt)
  · rw [towardZero_of_nonneg le_rfl, Int.floor_zero, Int.ceil_zero]

@[simp] theorem towardZero_intCast (k : ℤ) : towardZero (k : α) = k := by
  rw [towardZero, Int.floor_intCast, Int.ceil_intCast, ite_self]

theorem towardZero_neg (a : α) : towardZero (-a) = -towardZero a := by
  rcases le_total 0 a with h | h
  · rw [towardZero_of_nonneg h, towardZero_of_nonpos (neg_nonpos.mpr h), Int.ceil_neg]
  · rw [towardZero_of_nonpos h, towardZero_of_nonneg (neg_nonneg.mpr h), Int.floor_neg]

theorem le_towardZero_iff {a : α} {k : ℤ} (hk : 0 < k) : k ≤ towardZero a ↔ (k : α) ≤ a := by
  rcases le_total 0 a with h | h
  · rw [towardZero_of_nonneg h, Int.le_floor]
  · have hpos : (0 : α) < k := Int.cast_pos.mpr hk
    have hceil : ⌈a⌉ ≤ 0 := Int.ceil_le.mpr (by rwa [Int.cast_zero])
    rw [towardZero_of_nonpos h]
    exact iff_of_false (by omega) (not_le.mpr (h.trans_lt hpos))

theorem towardZero_le_iff {a : α} {k : ℤ} (hk : k < 0) : towardZero a ≤ k ↔ a ≤ (k : α) := by
  have hneg := le_towardZero_iff (a := -a) (k := -k) (by omega)
  rw [towardZero_neg, Int.cast_neg, neg_le_neg_iff, neg_le_neg_iff] at hneg
  exact hneg

theorem towardZero_mono {a b : α} (h : a ≤ b) : towardZero a ≤ towardZero b := by
  by_contra hlt
  rcases lt_or_ge 0 (towardZero a) with hpos | hneg
  · exact hlt ((le_towardZero_iff hpos).mpr (((le_towardZero_iff hpos).mp le_rfl).trans h))
  · have hb : towardZero b < 0 := by omega
    exact hlt ((towardZero_le_iff hb).mpr (h.trans ((towardZero_le_iff hb).mp le_rfl)))

/-- What lies between two integers is rounded between them. -/
theorem towardZero_mem_Icc {a : α} {m n : ℤ} (h : a ∈ Set.Icc (m : α) n) :
    towardZero a ∈ Set.Icc m n := by
  have hlow := towardZero_mono h.1
  have hhigh := towardZero_mono h.2
  rw [towardZero_intCast] at hlow hhigh
  exact ⟨hlow, hhigh⟩

/-- **Two numbers round alike exactly if no integer lies between them.** -/
theorem towardZero_eq_iff {a b : α} (h : a ≤ b) : towardZero a = towardZero b ↔ SameStep a b := by
  constructor
  · intro heq k
    constructor
    · rintro hk ⟨hlow, hhigh⟩
      rw [← le_towardZero_iff hk, ← heq, le_towardZero_iff hk] at hhigh
      exact absurd hlow (not_lt.mpr hhigh)
    · rintro hk ⟨hlow, hhigh⟩
      rw [← towardZero_le_iff hk, heq, towardZero_le_iff hk] at hlow
      exact absurd hhigh (not_lt.mpr hlow)
  · intro hnone
    refine le_antisymm (towardZero_mono h) ?_
    by_contra hlt
    rcases lt_or_ge 0 (towardZero b) with hpos | hneg
    · refine (hnone (towardZero b)).1 hpos ⟨?_, (le_towardZero_iff hpos).mp le_rfl⟩
      rw [← not_le, ← le_towardZero_iff hpos]
      exact hlt
    · have ha : towardZero a < 0 := by omega
      refine (hnone (towardZero a)).2 ha ⟨(towardZero_le_iff ha).mp le_rfl, ?_⟩
      rw [← not_le, ← towardZero_le_iff ha]
      exact hlt

/-- A number that is rounded to anything but zero keeps its sign. -/
theorem sign_towardZero (a : α) :
    SignType.sign (towardZero a) = if |a| < 1 then 0 else SignType.sign a := by
  split_ifs with hsmall
  · obtain ⟨hlow, hhigh⟩ := abs_lt.mp hsmall
    have hzero : towardZero a = 0 := by
      apply le_antisymm <;> apply not_lt.mp
      · intro hpos
        have hone := (le_towardZero_iff Int.one_pos).mp (show 1 ≤ towardZero a from hpos)
        rw [Int.cast_one] at hone
        exact absurd hhigh (not_lt.mpr hone)
      · intro hneg
        have hone := (towardZero_le_iff (by decide)).mp (show towardZero a ≤ -1 by omega)
        rw [Int.cast_neg, Int.cast_one] at hone
        exact absurd hlow (not_lt.mpr hone)
    rw [hzero, sign_zero]
  · rcases le_abs.mp (not_lt.mp hsmall) with hone | hone
    · have hle := (le_towardZero_iff (a := a) Int.one_pos).mpr (by rwa [Int.cast_one])
      rw [sign_pos (zero_lt_one.trans_le hone), sign_pos (by omega)]
    · have hle : towardZero a ≤ -1 := (towardZero_le_iff (by decide)).mpr (by
        rw [Int.cast_neg, Int.cast_one]
        exact le_neg_of_le_neg hone)
      rw [sign_neg (neg_pos.mp (zero_lt_one.trans_le hone)), sign_neg (by omega)]

theorem abs_towardZero_sub_lt_of_nonneg {a b : α} (ha : 0 ≤ a) (hb : 0 ≤ b) :
    |((towardZero a - towardZero b : ℤ) : α)| < |a - b| + 1 := by
  rw [towardZero_of_nonneg ha, towardZero_of_nonneg hb, Int.cast_sub, abs_lt]
  have hle := abs_le.mp (le_refl |a - b|)
  have ha₁ := Int.floor_le a
  have ha₂ := Int.lt_floor_add_one a
  have hb₁ := Int.floor_le b
  have hb₂ := Int.lt_floor_add_one b
  constructor <;> linarith

/-- **Rounding adds less than one step to a difference.** -/
theorem abs_towardZero_sub_lt (a b : α) :
    |((towardZero a - towardZero b : ℤ) : α)| < |a - b| + 1 := by
  -- with opposite signs, both numbers are rounded toward the zero between them
  have hacross : ∀ a b : α, a ≤ 0 → 0 ≤ b →
      |((towardZero a - towardZero b : ℤ) : α)| < |a - b| + 1 := by
    intro a b ha hb
    have ha₁ : a ≤ towardZero a := by
      rw [towardZero_of_nonpos ha]
      exact Int.le_ceil a
    have ha₂ : ((towardZero a : ℤ) : α) ≤ 0 := by
      rw [towardZero_of_nonpos ha]
      exact_mod_cast Int.ceil_le.mpr (by rwa [Int.cast_zero])
    have hb₁ : ((towardZero b : ℤ) : α) ≤ b := by
      rw [towardZero_of_nonneg hb]
      exact Int.floor_le b
    have hb₂ : (0 : α) ≤ towardZero b := by exact_mod_cast towardZero_nonneg hb
    rw [abs_of_nonpos (sub_nonpos.mpr (ha.trans hb)), Int.cast_sub,
      abs_of_nonpos (sub_nonpos.mpr (ha₂.trans hb₂))]
    linarith
  rcases le_total 0 a with ha | ha <;> rcases le_total 0 b with hb | hb
  · exact abs_towardZero_sub_lt_of_nonneg ha hb
  · have h := hacross b a hb ha
    rwa [← neg_sub (towardZero a), Int.cast_neg, abs_neg, abs_sub_comm] at h
  · exact hacross a b ha hb
  · have h := abs_towardZero_sub_lt_of_nonneg (neg_nonneg.mpr ha) (neg_nonneg.mpr hb)
    rwa [towardZero_neg, towardZero_neg, neg_sub_neg, neg_sub_neg, ← neg_sub (towardZero a),
      Int.cast_neg, abs_neg, abs_sub_comm] at h

end MKart.TowardZero
