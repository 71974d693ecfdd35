import Mathlib.Algebra.Order.Group.MinMax
import Mathlib.Algebra.Order.Ring.Abs
import Mathlib.Order.Interval.Set.Basic
import Mathlib.Tactic.Ring
import Mathlib.Tactic.Linarith

/-!
# Interpolation

The mixture of two values by a weight between 0 and 1 stays between them, and so does what is mixed
from four corners by two weights.  By a greater weight it overshoots: a value that is mixed with 0
approaches it from its own side exactly for the weights up to 1 (`nears_mix_zero_iff`).

With its weights it changes no faster than neighbouring corners differ (`abs_mix_mix_sub_le`), and
where the quadrants' functions meet at the axes, neither does the function that they make up
(`abs_sub_le_of_quadrants`).
-/

namespace MKart.Interpolation

variable {α : Type*} [CommRing α] [LinearOrder α] [IsStrictOrderedRing α]

def mix (x y a : α) : α := x * (1 - a) + y * a

def clamp (x minVal maxVal : α) : α := min (max x minVal) maxVal

theorem mix_mem_Icc {x y a l u : α} (hx : x ∈ Set.Icc l u) (hy : y ∈ Set.Icc l u)
    (ha : a ∈ Set.Icc (0 : α) 1) : mix x y a ∈ Set.Icc l u := by
  have hleft : 0 ≤ 1 - a := sub_nonneg.mpr ha.2
  have hlow : l * (1 - a) + l * a ≤ mix x y a :=
    add_le_add (mul_le_mul_of_nonneg_right hx.1 hleft) (mul_le_mul_of_nonneg_right hy.1 ha.1)
  have hhigh : mix x y a ≤ u * (1 - a) + u * a :=
    add_le_add (mul_le_mul_of_nonneg_right hx.2 hleft) (mul_le_mul_of_nonneg_right hy.2 ha.1)
  have hweights : ∀ b : α, b * (1 - a) + b * a = b := fun b => by ring
  rw [hweights] at hlow hhigh
  exact ⟨hlow, hhigh⟩

/-- **Bilinear interpolation stays between the least and the greatest corner.** -/
theorem mix_mix_mem_Icc {c₀ c₁ c₂ c₃ s t l u : α} (h₀ : c₀ ∈ Set.Icc l u) (h₁ : c₁ ∈ Set.Icc l u)
    (h₂ : c₂ ∈ Set.Icc l u) (h₃ : c₃ ∈ Set.Icc l u) (hs : s ∈ Set.Icc (0 : α) 1)
    (ht : t ∈ Set.Icc (0 : α) 1) : mix (mix c₀ c₁ s) (mix c₂ c₃ s) t ∈ Set.Icc l u :=
  mix_mem_Icc (mix_mem_Icc h₀ h₁ hs) (mix_mem_Icc h₂ h₃ hs) ht

/-- `d` is at most as far from zero as `c`, and not on the other side. -/
def Nears (c d : α) : Prop := |d| ≤ |c| ∧ 0 ≤ c * d

instance (c d : α) : Decidable (Nears c d) := inferInstanceAs (Decidable (_ ∧ _))

theorem Nears.refl (c : α) : Nears c c := ⟨le_rfl, mul_self_nonneg c⟩

theorem Nears.trans {c d e : α} (hcd : Nears c d) (hde : Nears d e) : Nears c e := by
  refine ⟨hde.1.trans hcd.1, ?_⟩
  rcases eq_or_ne d 0 with rfl | hd
  · have he : e = 0 := abs_nonpos_iff.mp (hde.1.trans_eq abs_zero)
    rw [he, mul_zero]
  · have hproduct : 0 ≤ (d * d) * (c * e) := by
      calc 0 ≤ (c * d) * (d * e) := mul_nonneg hcd.2 hde.2
        _ = (d * d) * (c * e) := by ring
    exact nonneg_of_mul_nonneg_right hproduct (mul_self_pos.mpr hd)

/-- **A step toward zero stays on its side exactly if its weight is at most 1.** -/
theorem nears_mix_zero_iff {c a : α} (ha : 0 ≤ a) : Nears c (mix c 0 a) ↔ c = 0 ∨ a ≤ 1 := by
  have hstep : mix c 0 a = c * (1 - a) := by
    rw [mix, zero_mul, add_zero]
  have hsquare : c * mix c 0 a = c * c * (1 - a) := by
    rw [hstep, mul_assoc]
  constructor
  · rintro ⟨-, hsign⟩
    by_contra hnot
    obtain ⟨hc, hgreat⟩ := not_or.mp hnot
    have hneg : 1 - a < 0 := sub_neg.mpr (not_le.mp hgreat)
    rw [hsquare] at hsign
    exact absurd hsign (not_le.mpr (mul_neg_of_pos_of_neg (mul_self_pos.mpr hc) hneg))
  · rintro (rfl | hle)
    · rw [hstep, zero_mul]
      exact Nears.refl 0
    · have hrest : 0 ≤ 1 - a := sub_nonneg.mpr hle
      refine ⟨?_, hsquare ▸ mul_nonneg (mul_self_nonneg c) hrest⟩
      rw [hstep, abs_mul, abs_of_nonneg hrest]
      exact mul_le_of_le_one_right (abs_nonneg c) (sub_le_self 1 ha)

omit [CommRing α] [IsStrictOrderedRing α] in
theorem clamp_mem_Icc {x l u : α} (h : l ≤ u) : clamp x l u ∈ Set.Icc l u :=
  ⟨le_min (le_max_right x l) h, min_le_right _ _⟩

/-- Between opposite bounds, clamping keeps the symmetry about zero. -/
theorem clamp_neg (x : α) {u : α} (h : 0 ≤ u) : clamp (-x) (-u) u = -clamp x (-u) u := by
  have hmax : max u (-u) = u := max_eq_left (neg_le_self h)
  calc clamp (-x) (-u) u = min (-min x u) u := by rw [clamp, max_neg_neg]
    _ = -max (min x u) (-u) := by rw [← min_neg_neg, neg_neg]
    _ = -clamp x (-u) u := by rw [max_min_distrib_right, hmax, clamp]

theorem abs_clamp (x : α) {u : α} (h : 0 ≤ u) : |clamp x (-u) u| = min |x| u := by
  have hnonneg : ∀ y : α, 0 ≤ y → |clamp y (-u) u| = min |y| u := fun y hy => by
    rw [clamp, max_eq_left ((neg_nonpos.mpr h).trans hy), abs_of_nonneg (le_min hy h),
      abs_of_nonneg hy]
  rcases le_total 0 x with hx | hx
  · exact hnonneg x hx
  · rw [← abs_neg, ← clamp_neg x h, hnonneg (-x) (neg_nonneg.mpr hx), abs_neg]

/-- Clamping keeps the sign. -/
theorem clamp_pos_iff {x u : α} (h : 0 < u) : 0 < clamp x (-u) u ↔ 0 < x := by
  rw [clamp, lt_min_iff, lt_max_iff]
  constructor
  · rintro ⟨hx | hu, -⟩
    · exact hx
    · exact absurd (neg_pos.mp hu) (not_lt.mpr h.le)
  · exact fun hx => ⟨Or.inl hx, h⟩

/-! ### How fast it changes -/

omit [LinearOrder α] [IsStrictOrderedRing α] in
theorem mix_sub_mix (x y x' y' a : α) : mix x y a - mix x' y' a = mix (x - x') (y - y') a := by
  rw [mix, mix, mix]
  ring

omit [LinearOrder α] [IsStrictOrderedRing α] in
theorem mix_sub_weights (x y a b : α) : mix x y a - mix x y b = (y - x) * (a - b) := by
  rw [mix, mix]
  ring

theorem abs_mix_le {x y a k : α} (hx : |x| ≤ k) (hy : |y| ≤ k) (ha : a ∈ Set.Icc (0 : α) 1) :
    |mix x y a| ≤ k :=
  abs_le.mpr (mix_mem_Icc (abs_le.mp hx) (abs_le.mp hy) ha)

/-- **Bilinear interpolation changes with its weights no faster than neighbouring corners
differ.** -/
theorem abs_mix_mix_sub_le {c₀ c₁ c₂ c₃ s t s' t' k : α} (h₀₁ : |c₁ - c₀| ≤ k)
    (h₂₃ : |c₃ - c₂| ≤ k) (h₀₂ : |c₂ - c₀| ≤ k) (h₁₃ : |c₃ - c₁| ≤ k)
    (ht : t ∈ Set.Icc (0 : α) 1) (hs' : s' ∈ Set.Icc (0 : α) 1) :
    |mix (mix c₀ c₁ s) (mix c₂ c₃ s) t - mix (mix c₀ c₁ s') (mix c₂ c₃ s') t'| ≤
      k * (|s - s'| + |t - t'|) := by
  have hfirst : |mix (mix c₀ c₁ s) (mix c₂ c₃ s) t - mix (mix c₀ c₁ s') (mix c₂ c₃ s') t| ≤
      k * |s - s'| := by
    have hslope : mix (mix c₀ c₁ s) (mix c₂ c₃ s) t - mix (mix c₀ c₁ s') (mix c₂ c₃ s') t =
        mix (c₁ - c₀) (c₃ - c₂) t * (s - s') := by
      rw [mix_sub_mix, mix_sub_weights, mix_sub_weights, mix, mix]
      ring
    rw [hslope, abs_mul]
    exact mul_le_mul_of_nonneg_right (abs_mix_le h₀₁ h₂₃ ht) (abs_nonneg _)
  have hsecond : |mix (mix c₀ c₁ s') (mix c₂ c₃ s') t - mix (mix c₀ c₁ s') (mix c₂ c₃ s') t'| ≤
      k * |t - t'| := by
    rw [mix_sub_weights, mix_sub_mix, abs_mul]
    exact mul_le_mul_of_nonneg_right (abs_mix_le h₀₂ h₁₃ hs') (abs_nonneg _)
  calc |mix (mix c₀ c₁ s) (mix c₂ c₃ s) t - mix (mix c₀ c₁ s') (mix c₂ c₃ s') t'|
      ≤ _ + _ := abs_sub_le _ (mix (mix c₀ c₁ s') (mix c₂ c₃ s') t) _
    _ ≤ k * |s - s'| + k * |t - t'| := add_le_add hfirst hsecond
    _ = k * (|s - s'| + |t - t'|) := (mul_add _ _ _).symm

/-- **Two pieces that meet at zero**: what changes slowly on both sides of zero does so
everywhere. -/
theorem abs_sub_le_of_joined {f : α → α} {k : α}
    (hside : ∀ x y, 0 ≤ x * y → |f x - f y| ≤ k * |x - y|) (x y : α) :
    |f x - f y| ≤ k * |x - y| := by
  rcases le_total 0 (x * y) with h | h
  · exact hside x y h
  · have hsigns : 0 ≤ x ∧ 0 ≤ -y ∨ x ≤ 0 ∧ -y ≤ 0 := by
      rwa [← mul_nonneg_iff, mul_neg, neg_nonneg]
    have hsplit : |x - y| = |x - 0| + |0 - y| := by
      rw [sub_eq_add_neg, (abs_add_eq_add_abs_iff _ _).mpr hsigns, sub_zero, zero_sub]
    calc |f x - f y| ≤ |f x - f 0| + |f 0 - f y| := abs_sub_le _ _ _
      _ ≤ k * |x - 0| + k * |0 - y| :=
          add_le_add (hside x 0 (mul_zero x).ge) (hside 0 y (zero_mul y).ge)
      _ = k * |x - y| := by rw [hsplit, mul_add]

/-- **Four quadrants**, which meet at the axes. -/
theorem abs_sub_le_of_quadrants {f : α → α → α} {k : α}
    (hquadrant : ∀ x y x' y', 0 ≤ x * x' → 0 ≤ y * y' →
      |f x y - f x' y'| ≤ k * (|x - x'| + |y - y'|)) (x y x' y' : α) :
    |f x y - f x' y'| ≤ k * (|x - x'| + |y - y'|) := by
  have hfirst : |f x y - f x' y| ≤ k * |x - x'| := by
    apply abs_sub_le_of_joined (f := fun x => f x y)
    intro x x' hx
    have h := hquadrant x y x' y hx (mul_self_nonneg y)
    rwa [sub_self, abs_zero, add_zero] at h
  have hsecond : |f x' y - f x' y'| ≤ k * |y - y'| := by
    apply abs_sub_le_of_joined (f := fun y => f x' y)
    intro y y' hy
    have h := hquadrant x' y x' y' (mul_self_nonneg x') hy
    rwa [sub_self, abs_zero, zero_add] at h
  calc |f x y - f x' y'| ≤ |f x y - f x' y| + |f x' y - f x' y'| := abs_sub_le _ _ _
    _ ≤ k * |x - x'| + k * |y - y'| := add_le_add hfirst hsecond
    _ = k * (|x - x'| + |y - y'|) := (mul_add _ _ _).symm

end MKart.Interpolation
