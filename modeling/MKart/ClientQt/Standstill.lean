import MKart.ClientQt.Coasting
import MKart.Lib.Decay
import Mathlib.Analysis.Complex.ExponentialBounds

/-!
# Coming to a standstill

While the pad is not dragged, each frame of `ControlView::on_imgui` takes off of the motor speed a
share of twice the frame's length in seconds.  Frames may be long and short, and a frame counts for
its whole milliseconds only; however the time is cut into frames, the motor speed has at most what
an exponential decay leaves of it (`abs_run_le`).  So after a time that depends on the motor speed
at the release alone, both motors have speed 0, and keep it (`stands_still`).
-/

namespace MKart.ClientQt.ControlView

open MKart.Interpolation MKart.Runs MKart.Decay MKart.TowardZero

/-! ### The speeds near the center -/

theorem aside_mem (m : Vec2) : aside m ∈ Set.Icc (0 : ℚ) 1 :=
  ⟨le_min (mul_nonneg (abs_nonneg _) (by norm_num)) zero_le_one, min_le_right _ _⟩

theorem along_mem (m : Vec2) : along m ∈ Set.Icc (0 : ℚ) 1 :=
  ⟨le_min (mul_nonneg (abs_nonneg _) (by norm_num)) zero_le_one, min_le_right _ _⟩

/-- Neither side is faster than the distances from both axes together. -/
theorem abs_products_le (m : Vec2) :
    |(products m).1| ≤ 1024 * (aside m + along m) ∧
      |(products m).2| ≤ 1024 * (aside m + along m) := by
  obtain ⟨ha0, ha1⟩ := aside_mem m
  obtain ⟨hb0, hb1⟩ := along_mem m
  have hproduct : 0 ≤ aside m * along m := mul_nonneg ha0 hb0
  have hleft : aside m * along m ≤ aside m := mul_le_of_le_one_right ha0 hb1
  have hright : aside m * along m ≤ along m := mul_le_of_le_one_left hb0 ha1
  by_cases hy : 0 < m.y
  · rw [products_backward hy]
    split_ifs <;> simp only [abs_le, inner, reverse] <;> refine ⟨⟨?_, ?_⟩, ?_, ?_⟩ <;> nlinarith
  · rw [products_forward hy]
    split_ifs <;> simp only [abs_le, inner, outer] <;> refine ⟨⟨?_, ?_⟩, ?_, ?_⟩ <;> nlinarith

theorem toInt16_eq_zero {d : ℚ} (h : |d| < 1) : toInt16 d = 0 := by
  have hsign := sign_towardZero d
  rw [if_pos h, sign_eq_zero_iff] at hsign
  rw [toInt16, hsign]
  rfl

/-- **Close to the center both motors stand.** -/
theorem getMotorSpeed_eq_zero {m : Vec2} (h : 256 * (|m.x| + |m.y|) < 1) :
    getMotorSpeed m = (0, 0) := by
  obtain ⟨hleft, hright⟩ := abs_products_le m
  have haside : aside m ≤ |m.x| * (1 / 4) := min_le_left _ _
  have halong : along m ≤ |m.y| * (1 / 4) := min_le_left _ _
  have hsmall : 1024 * (aside m + along m) < 1 := by linarith
  rw [getMotorSpeed, toInt16_eq_zero (hleft.trans_lt hsmall),
    toInt16_eq_zero (hright.trans_lt hsmall)]

/-! ### Released frames -/

def wholeMs (t : Tick) : ℕ := t.elapsed / 1000000

/-- The share of the motor speed that a frame takes off. -/
def share (t : Tick) : ℚ := 2 * ((wholeMs t : ℚ) / 1000)

/-- The milliseconds of a run. -/
def totalMs (ticks : List Tick) : ℕ := (ticks.map wholeMs).sum

/-- The pad is not dragged, and the frame is not so long that the speed would reverse. -/
def Released (v : ControlView) (t : Tick) : Prop :=
  v.draging t.gui = false ∧ t.elapsed < 501000000

instance (v : ControlView) (t : Tick) : Decidable (Released v t) :=
  inferInstanceAs (Decidable (_ ∧ _))

theorem share_le_one {t : Tick} (h : t.elapsed < 501000000) : share t ≤ 1 := by
  have hms : wholeMs t ≤ 500 := Nat.le_of_lt_succ ((Nat.div_lt_iff_lt_mul (by decide)).mpr h)
  have hcast : (wholeMs t : ℚ) ≤ 500 := by exact_mod_cast hms
  rw [share]
  linarith

theorem sum_share (ticks : List Tick) : (ticks.map share).sum = (totalMs ticks : ℚ) / 500 := by
  induction ticks with
  | nil => simp [totalMs]
  | cons t ticks ih =>
      have htotal : totalMs (t :: ticks) = wholeMs t + totalMs ticks := rfl
      rw [List.map_cons, List.sum_cons, ih, htotal, share]
      push_cast
      ring

theorem deltaTimeInMs_tick (v : ControlView) (t : Tick) :
    (deltaTimeInMs v.lastTime (v.lastTime + t.elapsed)).1 = wholeMs t := by
  have hms : (v.lastTime + t.elapsed - v.lastTime).tdiv 1000000 = (wholeMs t : ℤ) := by
    rw [add_sub_cancel_left, Int.tdiv_eq_ediv_of_nonneg (Int.natCast_nonneg t.elapsed)]
    rfl
  rw [deltaTimeInMs, hms]
  rfl

theorem tick_released {v : ControlView} {t : Tick} (h : v.draging t.gui = false) :
    (v.tick t).motorSpeed =
      ⟨mix v.motorSpeed.x 0 (share t), mix v.motorSpeed.y 0 (share t)⟩ := by
  show nextSpeed ((deltaTimeInMs v.lastTime (v.lastTime + t.elapsed)).1 / 1000) t.gui
    { v with lastTime := v.lastTime + t.elapsed } = _
  rw [deltaTimeInMs_tick]
  exact nextSpeed_released (v := { v with lastTime := v.lastTime + t.elapsed }) _ h

/-- **A released run** lets each component decay. -/
theorem run_released {v : ControlView} {ticks : List Tick} (h : Meets tick Released v ticks) :
    (run tick v ticks).motorSpeed =
        ⟨decay v.motorSpeed.x (ticks.map share), decay v.motorSpeed.y (ticks.map share)⟩ ∧
      ∀ w ∈ ticks.map share, w ≤ 1 := by
  induction ticks generalizing v with
  | nil => exact ⟨rfl, fun _ hw => absurd hw List.not_mem_nil⟩
  | cons t ticks ih =>
      obtain ⟨⟨hreleased, hshort⟩, hrest⟩ := h
      obtain ⟨hrun, hshares⟩ := ih hrest
      constructor
      · rw [run_cons, hrun, tick_released hreleased]
        rfl
      · intro w hw
        rcases List.mem_cons.mp hw with rfl | hw
        · exact share_le_one hshort
        · exact hshares w hw

/-- The decay of a released run, by its milliseconds. -/
theorem abs_run_le {v : ControlView} {ticks : List Tick} (h : Meets tick Released v ticks) :
    |((run tick v ticks).motorSpeed.x : ℝ)| ≤
        |(v.motorSpeed.x : ℝ)| * Real.exp (-(totalMs ticks / 500)) ∧
      |((run tick v ticks).motorSpeed.y : ℝ)| ≤
        |(v.motorSpeed.y : ℝ)| * Real.exp (-(totalMs ticks / 500)) := by
  obtain ⟨hrun, hshares⟩ := run_released h
  have hsum : ((((ticks.map share).sum : ℚ)) : ℝ) = totalMs ticks / 500 := by
    rw [sum_share]
    push_cast
    rfl
  rw [hrun, ← hsum]
  exact ⟨abs_decay_le hshares _, abs_decay_le hshares _⟩

/-- **A released pad brings the motors to a standstill.**  In every run of frames in which the pad
is not dragged, none as long as 501 ms: once the milliseconds of the frames are more than 500 times
the logarithm of 256 times the motor speed at the beginning, both motors have speed 0. -/
theorem stands_still (v : ControlView) (ticks : List Tick)
    (hreleased : Meets tick Released v ticks)
    (hlong : 256 * (|(v.motorSpeed.x : ℝ)| + |(v.motorSpeed.y : ℝ)|) <
      Real.exp (totalMs ticks / 500)) :
    getMotorSpeed (run tick v ticks).motorSpeed = (0, 0) := by
  obtain ⟨hx, hy⟩ := abs_run_le hreleased
  apply getMotorSpeed_eq_zero
  have hpos := Real.exp_pos (totalMs ticks / 500)
  have hreal : 256 * (|((run tick v ticks).motorSpeed.x : ℝ)| +
      |((run tick v ticks).motorSpeed.y : ℝ)|) < 1 := by
    calc 256 * (|((run tick v ticks).motorSpeed.x : ℝ)| +
          |((run tick v ticks).motorSpeed.y : ℝ)|)
        ≤ 256 * (|(v.motorSpeed.x : ℝ)| + |(v.motorSpeed.y : ℝ)|) *
            Real.exp (-(totalMs ticks / 500)) := by linarith
      _ < Real.exp (totalMs ticks / 500) * Real.exp (-(totalMs ticks / 500)) :=
          mul_lt_mul_of_pos_right hlong (Real.exp_pos _)
      _ = 1 := by rw [← Real.exp_add, add_neg_cancel, Real.exp_zero]
  exact_mod_cast hreal

/-- Four seconds at the rate of the application's timer. -/
def fourSeconds : List Tick :=
  List.replicate 256 ⟨16000000, ⟨⟨10, 50⟩, ⟨434, 500⟩, false, false, ⟨0, 0⟩, false⟩⟩

theorem stands_still_full :
    getMotorSpeed (run tick ⟨⟨4, -4⟩, 0, false⟩ fourSeconds).motorSpeed = (0, 0) := by
  apply stands_still
  · decide +kernel
  · have htotal : totalMs fourSeconds = 4096 := by decide +kernel
    rw [htotal]
    calc 256 * (|((4 : ℚ) : ℝ)| + |((-4 : ℚ) : ℝ)|) = 2048 := by norm_num
      _ < 2.7 ^ 8 := by norm_num
      _ ≤ Real.exp 1 ^ 8 :=
          pow_le_pow_left₀ (by norm_num) (by linarith [Real.exp_one_gt_d9]) 8
      _ = Real.exp (8 : ℕ) := by rw [← Real.exp_nat_mul, mul_one]
      _ ≤ Real.exp ((4096 : ℕ) / 500) := Real.exp_le_exp.mpr (by norm_num)

end MKart.ClientQt.ControlView
