import MKart.ClientQt.ControlView
import MKart.Lib.Runs

/-!
# Coasting

`ControlView::on_imgui`, which sets the motor speed once a frame: to the place of the mouse while
it is dragged, and otherwise a step toward zero, by twice the time since the last frame.

A frame of at most half a second brings the speed closer to zero.  After a longer one the step
overshoots, and the speed reverses; after more than a second it grows (`coasts_iff`).
-/

namespace MKart.ClientQt

open MKart.Interpolation MKart.Runs

/-- The fields of the class.  The clock is in nanoseconds. -/
@[ext] structure ControlView where
  motorSpeed : Vec2
  lastTime : ℤ
  mouseDraging : Bool
  deriving DecidableEq, Repr

/-- What ImGui reports in one frame. -/
structure Gui where
  cursorScreenPos : Vec2
  contentRegionAvail : Vec2
  itemHovered : Bool
  mouseClicked : Bool
  mousePos : Vec2
  mouseReleased : Bool
  deriving DecidableEq, Repr

/-- A frame, with the seconds since the last one. -/
structure Frame where
  deltaT : ℚ
  nonneg : 0 ≤ deltaT
  gui : Gui

/-- A frame, with the nanoseconds since the last one. -/
structure Tick where
  elapsed : ℕ
  gui : Gui

/-- `delta_time_in_ms`, with the time it stores. -/
def deltaTimeInMs (lastTime now : ℤ) : ℚ × ℤ := (((now - lastTime).tdiv 1000000 : ℤ), now)

namespace ControlView

/-- The canvas has a minimum size. -/
def canvasSize (g : Gui) : Vec2 :=
  let x := g.contentRegionAvail.x
  let y := g.contentRegionAvail.y - 130
  ⟨if x < 50 then 50 else x, if y < 50 then 50 else y⟩

def padSize : ℚ := 32

/-- Whether `on_imgui` finds the mouse dragged, behind its test for a click. -/
def draging (g : Gui) (v : ControlView) : Bool :=
  v.mouseDraging || (g.itemHovered && g.mouseClicked)

/-- The motor speed that `on_imgui` sets. -/
def nextSpeed (deltaT : ℚ) (g : Gui) (v : ControlView) : Vec2 :=
  if v.draging g then
    (g.mousePos - g.cursorScreenPos - canvasSize g * (1 / 2 : ℚ)) * (1 / padSize)
  else v.motorSpeed + ((⟨0, 0⟩ : Vec2) - v.motorSpeed) * (2 * deltaT)

/-- `ControlView::on_imgui` behind its reading of the clock. -/
def window (deltaT : ℚ) (g : Gui) (v : ControlView) : ControlView :=
  { v with
    motorSpeed := v.nextSpeed deltaT g
    mouseDraging := v.draging g && !g.mouseReleased }

/-- `ControlView::on_imgui`. -/
def onImgui (now : ℤ) (g : Gui) (v : ControlView) : ControlView :=
  let (ms, lastTime) := deltaTimeInMs v.lastTime now
  window (ms / 1000) g { v with lastTime := lastTime }

def frame (v : ControlView) (f : Frame) : ControlView := v.window f.deltaT f.gui

def tick (v : ControlView) (t : Tick) : ControlView := v.onImgui (v.lastTime + t.elapsed) t.gui

/-! ### One frame -/

/-- From one speed to the next, no component grows or changes to the opposite sign. -/
def Slows (m n : Vec2) : Prop := Nears m.x n.x ∧ Nears m.y n.y

instance (m n : Vec2) : Decidable (Slows m n) := inferInstanceAs (Decidable (_ ∧ _))

variable {v : ControlView} {g : Gui}

/-- Released, the speed is mixed with 0. -/
theorem nextSpeed_released (deltaT : ℚ) (h : v.draging g = false) :
    v.nextSpeed deltaT g =
      ⟨mix v.motorSpeed.x 0 (2 * deltaT), mix v.motorSpeed.y 0 (2 * deltaT)⟩ := by
  have hstep : ∀ c : ℚ, c + (0 - c) * (2 * deltaT) = mix c 0 (2 * deltaT) := fun c => by
    rw [mix]
    ring
  rw [nextSpeed, h, if_neg (by decide)]
  exact Vec2.ext (hstep _) (hstep _)

/-- **A released frame slows exactly if it is not longer than half a second**, or nothing moves. -/
theorem slows_nextSpeed_iff {deltaT : ℚ} (hnonneg : 0 ≤ deltaT) (h : v.draging g = false) :
    Slows v.motorSpeed (v.nextSpeed deltaT g) ↔ deltaT ≤ 1 / 2 ∨ v.motorSpeed = ⟨0, 0⟩ := by
  have hweight : 0 ≤ 2 * deltaT := mul_nonneg zero_le_two hnonneg
  have hhalf : 2 * deltaT ≤ 1 ↔ deltaT ≤ 1 / 2 := by
    rw [le_div_iff₀ two_pos, mul_comm]
  rw [nextSpeed_released deltaT h, Slows, nears_mix_zero_iff hweight, nears_mix_zero_iff hweight,
    hhalf, Vec2.ext_iff, ← and_or_right, or_comm]

/-- The mouse is dragged in a frame, or the speed slows. -/
def Coasts (v : ControlView) (f : Frame) : Prop :=
  v.draging f.gui = false → Slows v.motorSpeed (v.frame f).motorSpeed

instance (v : ControlView) (f : Frame) : Decidable (Coasts v f) :=
  inferInstanceAs (Decidable (_ → _))

/-- The mouse is dragged in a frame, or the frame is short, or nothing moves. -/
def Short (v : ControlView) (f : Frame) : Prop :=
  v.draging f.gui = false → f.deltaT ≤ 1 / 2 ∨ v.motorSpeed = ⟨0, 0⟩

/-! ### Runs -/

/-- **The released pad coasts toward zero along exactly the runs in which no released frame that
finds it moving lasts longer than half a second.** -/
theorem coasts_iff (v : ControlView) (frames : List Frame) :
    Meets frame Coasts v frames ↔ Meets frame Short v frames := by
  apply meets_iff
  intro v f
  show (v.draging f.gui = false → Slows v.motorSpeed (v.nextSpeed f.deltaT f.gui)) ↔ _
  exact forall_congr' fun hreleased => slows_nextSpeed_iff f.nonneg hreleased

/-- Two seconds, as after the app was suspended: the speed reverses, and is three times as high. -/
theorem not_coasts :
    ¬ Meets frame Coasts ⟨⟨4, 0⟩, 0, false⟩
      [⟨2, by decide, ⟨⟨10, 50⟩, ⟨434, 500⟩, false, false, ⟨0, 0⟩, false⟩⟩] := by
  decide +kernel

/-- Along a released run that coasts, the speed slows from the first frame to the last. -/
theorem slows_of_coasts {frames : List Frame} (hcoasts : Meets frame Coasts v frames)
    (hreleased : Meets frame (fun v f => v.draging f.gui = false) v frames) :
    Slows v.motorSpeed (run frame v frames).motorSpeed := by
  induction frames generalizing v with
  | nil => exact ⟨Nears.refl _, Nears.refl _⟩
  | cons f frames ih =>
      have hfirst := hcoasts.1 hreleased.1
      have hrest := ih hcoasts.2 hreleased.2
      exact ⟨hfirst.1.trans hrest.1, hfirst.2.trans hrest.2⟩

/-! ### The clock -/

/-- Only whole milliseconds count, so that a frame may last almost 501 of them. -/
theorem seconds_le_half_iff (lastTime : ℤ) (elapsed : ℕ) :
    (deltaTimeInMs lastTime (lastTime + elapsed)).1 / 1000 ≤ 1 / 2 ↔ elapsed < 501000000 := by
  have hms : (lastTime + elapsed - lastTime).tdiv 1000000 = (elapsed / 1000000 : ℕ) := by
    rw [add_sub_cancel_left, Int.tdiv_eq_ediv_of_nonneg (Int.natCast_nonneg elapsed)]
    rfl
  have hhalf : (1 / 2 : ℚ) * 1000 = (500 : ℕ) := by norm_num
  rw [deltaTimeInMs, hms, Int.cast_natCast, div_le_iff₀ (by norm_num), hhalf, Nat.cast_le]
  omega

theorem seconds_nonneg (lastTime : ℤ) (elapsed : ℕ) :
    0 ≤ (deltaTimeInMs lastTime (lastTime + elapsed)).1 / 1000 := by
  refine div_nonneg (Int.cast_nonneg (Int.tdiv_nonneg ?_ (by decide))) (by norm_num)
  rw [add_sub_cancel_left]
  exact Int.natCast_nonneg elapsed

/-- **The same by the clock.** -/
theorem tick_coasts_iff (v : ControlView) (ticks : List Tick) :
    Meets tick (fun v t => v.draging t.gui = false → Slows v.motorSpeed (v.tick t).motorSpeed) v
        ticks ↔
      Meets tick (fun v t => v.draging t.gui = false →
        t.elapsed < 501000000 ∨ v.motorSpeed = ⟨0, 0⟩) v ticks := by
  apply meets_iff
  intro v t
  apply forall_congr'
  intro hreleased
  rw [← seconds_le_half_iff v.lastTime]
  exact slows_nextSpeed_iff (v := { v with lastTime := v.lastTime + t.elapsed })
    (seconds_nonneg v.lastTime t.elapsed) hreleased

end ControlView

end MKart.ClientQt
