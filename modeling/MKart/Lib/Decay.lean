import MKart.Lib.Interpolation
import Mathlib.Analysis.Complex.Exponential
import Mathlib.Tactic.NormNum

/-!
# Decay

A value that is mixed with 0 again and again, by weights that may differ: what is left of it is at
most what an exponential decay by the sum of the weights leaves (`abs_decay_le`), however the sum is
split.
-/

namespace MKart.Decay

open MKart.Interpolation

def decay (x : ℚ) (ws : List ℚ) : ℚ := ws.foldl (fun y w => mix y 0 w) x

/-- One step. -/
theorem abs_mix_zero_le {x w : ℚ} (hw : w ≤ 1) :
    |((mix x 0 w : ℚ) : ℝ)| ≤ |(x : ℝ)| * Real.exp (-w) := by
  have hstep : ((mix x 0 w : ℚ) : ℝ) = x * (1 - w) := by
    rw [mix, zero_mul, add_zero]
    push_cast
    rfl
  have hrest : (0 : ℝ) ≤ 1 - w := sub_nonneg.mpr (by exact_mod_cast hw)
  rw [hstep, abs_mul, abs_of_nonneg hrest]
  exact mul_le_mul_of_nonneg_left (Real.one_sub_le_exp_neg w) (abs_nonneg _)

/-- **What is left after many steps.** -/
theorem abs_decay_le {ws : List ℚ} (hws : ∀ w ∈ ws, w ≤ 1) (x : ℚ) :
    |((decay x ws : ℚ) : ℝ)| ≤ |(x : ℝ)| * Real.exp (-(ws.sum : ℚ)) := by
  induction ws generalizing x with
  | nil => simp [decay]
  | cons w ws ih =>
      have hfirst := abs_mix_zero_le (x := x) (hws w List.mem_cons_self)
      have hrest := ih (fun w hw => hws w (List.mem_cons_of_mem _ hw)) (mix x 0 w)
      calc |((decay x (w :: ws) : ℚ) : ℝ)|
          ≤ |((mix x 0 w : ℚ) : ℝ)| * Real.exp (-(ws.sum : ℚ)) := hrest
        _ ≤ |(x : ℝ)| * Real.exp (-w) * Real.exp (-(ws.sum : ℚ)) :=
            mul_le_mul_of_nonneg_right hfirst (Real.exp_pos _).le
        _ = |(x : ℝ)| * Real.exp (-((w :: ws).sum : ℚ)) := by
            rw [mul_assoc, ← Real.exp_add, List.sum_cons]
            push_cast
            rw [neg_add]

end MKart.Decay
