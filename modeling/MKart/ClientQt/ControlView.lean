import MKart.Lib.Interpolation
import MKart.Lib.TowardZero
import Mathlib.Data.Rat.Floor
import Mathlib.Tactic.NormNum

/-!
# The control pad

`client-qt/control_view.h`: the pad that turns a position into the speeds of two motors.  Its
numbers are single-precision floats in the source and rationals here, up to the conversion of the
results to integers.

A position is scaled, clamped to the unit square and interpolated between the four corners of its
quadrant, and the two coordinates of the result are the speeds of the two sides.  The tables of the
left and the right quadrant mirror each other, but for one corner: the lower right one is
`(-0.25, 1)` where its mirror image is `(-0.25, -1)`.
-/

namespace MKart.ClientQt

open MKart.Interpolation MKart.TowardZero

/-- `ImVec2` and `glm::vec2`. -/
@[ext] structure Vec2 where
  x : ℚ
  y : ℚ
  deriving DecidableEq, Repr

namespace Vec2

instance : Add Vec2 := ⟨fun a b => ⟨a.x + b.x, a.y + b.y⟩⟩

instance : Sub Vec2 := ⟨fun a b => ⟨a.x - b.x, a.y - b.y⟩⟩

instance : HMul Vec2 ℚ Vec2 := ⟨fun a b => ⟨a.x * b, a.y * b⟩⟩

/-- `glm::mix`. -/
def mix (a b : Vec2) (w : ℚ) : Vec2 :=
  ⟨Interpolation.mix a.x b.x w, Interpolation.mix a.y b.y w⟩

/-- `glm::clamp`. -/
def clamp (a minVal maxVal : Vec2) : Vec2 :=
  ⟨Interpolation.clamp a.x minVal.x maxVal.x, Interpolation.clamp a.y minVal.y maxVal.y⟩

@[simp] theorem mul_x (a : Vec2) (k : ℚ) : (a * k).x = a.x * k := rfl

@[simp] theorem mul_y (a : Vec2) (k : ℚ) : (a * k).y = a.y * k := rfl

@[simp] theorem mix_x (a b : Vec2) (w : ℚ) : (a.mix b w).x = Interpolation.mix a.x b.x w := rfl

@[simp] theorem mix_y (a b : Vec2) (w : ℚ) : (a.mix b w).y = Interpolation.mix a.y b.y w := rfl

end Vec2

namespace ControlView

/-! ### `get_motor_speed` -/

/-- The weights and the corners of a quadrant. -/
structure Quadrant where
  s : ℚ
  t : ℚ
  d0 : Vec2
  d1 : Vec2
  d2 : Vec2
  d3 : Vec2

def quadrant (p : Vec2) : Quadrant :=
  if 0 < p.x then
    if 0 < p.y then ⟨p.x, p.y, ⟨0, 0⟩, ⟨0, 1⟩, ⟨-1, -1⟩, ⟨-1 / 4, 1⟩⟩
    else ⟨p.x, -p.y, ⟨0, 0⟩, ⟨0, 1⟩, ⟨1, 1⟩, ⟨1 / 4, 1⟩⟩
  else
    if 0 < p.y then ⟨-p.x, p.y, ⟨0, 0⟩, ⟨1, 0⟩, ⟨-1, -1⟩, ⟨-1, -1 / 4⟩⟩
    else ⟨-p.x, -p.y, ⟨0, 0⟩, ⟨1, 0⟩, ⟨1, 1⟩, ⟨1, 1 / 4⟩⟩

def position (motorSpeed : Vec2) : Vec2 := (motorSpeed * (1 / 4 : ℚ)).clamp ⟨-1, -1⟩ ⟨1, 1⟩

def direction (p : Vec2) : Vec2 :=
  let q := quadrant p
  ((q.d0.mix q.d1 q.s).mix (q.d2.mix q.d3 q.s) q.t) * (1024 : ℚ)

/-- The left and the right speed before their conversion. -/
def products (motorSpeed : Vec2) : ℚ × ℚ :=
  let p := position motorSpeed
  let d := direction p
  if 0 < p.y then (d.x, d.y) else (d.y, d.x)

/-- The conversions to `int` and to `int16_t`. -/
def toInt16 (d : ℚ) : Int16 := Int16.ofInt (towardZero d)

/-- `ControlView::get_motor_speed`: the left and the right speed. -/
def getMotorSpeed (motorSpeed : Vec2) : Int16 × Int16 :=
  (toInt16 (products motorSpeed).1, toInt16 (products motorSpeed).2)

/-! ### The range of the speeds -/

/-- The coordinates of the corners lie between `l` and 1, and the weights between 0 and 1. -/
structure Quadrant.Within (l : ℚ) (q : Quadrant) : Prop where
  s : q.s ∈ Set.Icc (0 : ℚ) 1
  t : q.t ∈ Set.Icc (0 : ℚ) 1
  x : q.d0.x ∈ Set.Icc l 1 ∧ q.d1.x ∈ Set.Icc l 1 ∧ q.d2.x ∈ Set.Icc l 1 ∧ q.d3.x ∈ Set.Icc l 1
  y : q.d0.y ∈ Set.Icc l 1 ∧ q.d1.y ∈ Set.Icc l 1 ∧ q.d2.y ∈ Set.Icc l 1 ∧ q.d3.y ∈ Set.Icc l 1

variable (m : Vec2)

theorem position_x_mem : (position m).x ∈ Set.Icc (-1 : ℚ) 1 :=
  clamp_mem_Icc (by norm_num)

theorem position_y_mem : (position m).y ∈ Set.Icc (-1 : ℚ) 1 :=
  clamp_mem_Icc (by norm_num)

/-- A coordinate of the position keeps the sign of the motor speed's. -/
theorem coordinate_pos_iff (c : ℚ) : 0 < clamp (c * (1 / 4)) (-1) 1 ↔ 0 < c := by
  have hclamp := clamp_pos_iff (x := c * (1 / 4)) (u := (1 : ℚ)) one_pos
  rw [mul_pos_iff_of_pos_right (by norm_num)] at hclamp
  exact hclamp

theorem position_x_pos_iff : 0 < (position m).x ↔ 0 < m.x := coordinate_pos_iff m.x

theorem position_y_pos_iff : 0 < (position m).y ↔ 0 < m.y := coordinate_pos_iff m.y

/-- Only the backward quadrants have negative corners. -/
theorem quadrant_within {p : Vec2} (hx : p.x ∈ Set.Icc (-1 : ℚ) 1) (hy : p.y ∈ Set.Icc (-1 : ℚ) 1) :
    (quadrant p).Within (if 0 < p.y then -1 else 0) := by
  obtain ⟨hxl, hxu⟩ := hx
  obtain ⟨hyl, hyu⟩ := hy
  rw [quadrant]
  -- in each quadrant the corners are numbers, and the weights are bounded with the position
  split_ifs <;> constructor <;> simp only [Set.mem_Icc] <;> norm_num <;> constructor <;> linarith

/-- **Both products lie between the least and the greatest corner**, scaled. -/
theorem direction_mem {l : ℚ} {p : Vec2} (h : (quadrant p).Within l) :
    (direction p).x ∈ Set.Icc (l * 1024) 1024 ∧ (direction p).y ∈ Set.Icc (l * 1024) 1024 := by
  obtain ⟨hs, ht, ⟨hx0, hx1, hx2, hx3⟩, hy0, hy1, hy2, hy3⟩ := h
  obtain ⟨hxl, hxu⟩ := mix_mix_mem_Icc hx0 hx1 hx2 hx3 hs ht
  obtain ⟨hyl, hyu⟩ := mix_mix_mem_Icc hy0 hy1 hy2 hy3 hs ht
  have hscale : (0 : ℚ) ≤ 1024 := by norm_num
  constructor
  · exact ⟨mul_le_mul_of_nonneg_right hxl hscale,
      (mul_le_mul_of_nonneg_right hxu hscale).trans_eq (one_mul _)⟩
  · exact ⟨mul_le_mul_of_nonneg_right hyl hscale,
      (mul_le_mul_of_nonneg_right hyu hscale).trans_eq (one_mul _)⟩

/-- The bounds of both products. -/
theorem products_mem :
    (products m).1 ∈ Set.Icc (-1024 : ℚ) 1024 ∧ (products m).2 ∈ Set.Icc (-1024 : ℚ) 1024 ∧
      (m.y ≤ 0 → 0 ≤ (products m).1 ∧ 0 ≤ (products m).2) := by
  have hwithin := quadrant_within (position_x_mem m) (position_y_mem m)
  rw [products]
  by_cases hy : 0 < (position m).y
  · rw [if_pos hy] at hwithin
    obtain ⟨hdx, hdy⟩ := direction_mem hwithin
    rw [neg_one_mul] at hdx hdy
    simp only [if_pos hy]
    exact ⟨hdx, hdy, fun hle => absurd ((position_y_pos_iff m).mp hy) (not_lt.mpr hle)⟩
  · rw [if_neg hy] at hwithin
    obtain ⟨hdx, hdy⟩ := direction_mem hwithin
    rw [zero_mul] at hdx hdy
    have hneg : (-1024 : ℚ) ≤ 0 := by norm_num
    simp only [if_neg hy]
    exact ⟨⟨hneg.trans hdy.1, hdy.2⟩, ⟨hneg.trans hdx.1, hdx.2⟩, fun _ => ⟨hdy.1, hdx.1⟩⟩

/-- The conversion to `int16_t` loses nothing. -/
theorem toInt_toInt16 {d : ℚ} (h : d ∈ Set.Icc (-1024 : ℚ) 1024) :
    (toInt16 d).toInt = towardZero d := by
  have hcast : d ∈ Set.Icc ((-1024 : ℤ) : ℚ) (1024 : ℤ) := by exact_mod_cast h
  obtain ⟨hlow, hhigh⟩ := towardZero_mem_Icc hcast
  rw [toInt16, Int16.toInt_ofInt]
  exact Int.bmod_eq_of_le (by simp [Int16.size]; omega) (by simp [Int16.size]; omega)

/-! ### The two sides -/

/-- How far the position is from the vertical axis, at most 1. -/
def aside : ℚ := min (|m.x| * (1 / 4)) 1

/-- How far the position is from the horizontal axis, at most 1. -/
def along : ℚ := min (|m.y| * (1 / 4)) 1

theorem abs_coordinate (c : ℚ) : |clamp (c * (1 / 4)) (-1) 1| = min (|c| * (1 / 4)) 1 := by
  have hclamp := abs_clamp (c * (1 / 4)) (u := (1 : ℚ)) zero_le_one
  rw [abs_mul, abs_of_pos (show (0 : ℚ) < 1 / 4 by norm_num)] at hclamp
  exact hclamp

theorem coordinate_of_pos {c : ℚ} (h : 0 < c) :
    clamp (c * (1 / 4)) (-1) 1 = min (|c| * (1 / 4)) 1 := by
  have hpos := (coordinate_pos_iff c).mpr h
  rw [← abs_coordinate, abs_of_pos hpos]

theorem coordinate_of_not_pos {c : ℚ} (h : ¬ 0 < c) :
    -clamp (c * (1 / 4)) (-1) 1 = min (|c| * (1 / 4)) 1 := by
  have hnonpos := not_lt.mp (mt (coordinate_pos_iff c).mp h)
  rw [← abs_coordinate, abs_of_nonpos hnonpos]

/-- The speed of the outer side, forward. -/
def outer : ℚ := 1024 * (aside m * (1 - along m) + along m)

/-- The speed of the inner side, forward. -/
def inner : ℚ := 1024 * (along m * (1 - 3 / 4 * aside m))

/-- The speed of the outer side, backward and to the left. -/
def reverse : ℚ := 1024 * (aside m * (1 - along m) - along m)

variable {m}

theorem position_y_of_pos (h : 0 < m.y) : (position m).y = along m := coordinate_of_pos h

theorem position_y_of_not_pos (h : ¬ 0 < m.y) : -(position m).y = along m :=
  coordinate_of_not_pos h

theorem quadrant_right (hx : 0 < m.x) : quadrant (position m) =
    if 0 < m.y then ⟨aside m, along m, ⟨0, 0⟩, ⟨0, 1⟩, ⟨-1, -1⟩, ⟨-1 / 4, 1⟩⟩
    else ⟨aside m, along m, ⟨0, 0⟩, ⟨0, 1⟩, ⟨1, 1⟩, ⟨1 / 4, 1⟩⟩ := by
  have hside : (position m).x = aside m := coordinate_of_pos hx
  rw [quadrant, if_pos ((position_x_pos_iff m).mpr hx), hside]
  simp only [position_y_pos_iff]
  split_ifs with hy
  · rw [position_y_of_pos hy]
  · rw [position_y_of_not_pos hy]

theorem quadrant_left (hx : ¬ 0 < m.x) : quadrant (position m) =
    if 0 < m.y then ⟨aside m, along m, ⟨0, 0⟩, ⟨1, 0⟩, ⟨-1, -1⟩, ⟨-1, -1 / 4⟩⟩
    else ⟨aside m, along m, ⟨0, 0⟩, ⟨1, 0⟩, ⟨1, 1⟩, ⟨1, 1 / 4⟩⟩ := by
  have hside : -(position m).x = aside m := coordinate_of_not_pos hx
  rw [quadrant, if_neg (mt (position_x_pos_iff m).mp hx), hside]
  simp only [position_y_pos_iff]
  split_ifs with hy
  · rw [position_y_of_pos hy]
  · rw [position_y_of_not_pos hy]

theorem products_forward (h : ¬ 0 < m.y) :
    products m = if 0 < m.x then (outer m, inner m) else (inner m, outer m) := by
  rw [products, direction]
  simp only [if_neg (mt (position_y_pos_iff m).mp h)]
  split_ifs with hx
  · simp only [quadrant_right hx, if_neg h, Vec2.mul_x, Vec2.mul_y, Vec2.mix_x, Vec2.mix_y, mix]
    refine Prod.ext ?_ ?_ <;> simp only [outer, inner] <;> ring
  · simp only [quadrant_left hx, if_neg h, Vec2.mul_x, Vec2.mul_y, Vec2.mix_x, Vec2.mix_y, mix]
    refine Prod.ext ?_ ?_ <;> simp only [outer, inner] <;> ring

/-- The lower right corner adds to the right side what its mirror image does not add to the
left one. -/
theorem products_backward (h : 0 < m.y) :
    products m =
      if 0 < m.x then (-inner m, reverse m + 2048 * (aside m * along m))
      else (reverse m, -inner m) := by
  rw [products, direction]
  simp only [if_pos ((position_y_pos_iff m).mpr h)]
  split_ifs with hx
  · simp only [quadrant_right hx, if_pos h, Vec2.mul_x, Vec2.mul_y, Vec2.mix_x, Vec2.mix_y, mix]
    refine Prod.ext ?_ ?_ <;> simp only [reverse, inner] <;> ring
  · simp only [quadrant_left hx, if_pos h, Vec2.mul_x, Vec2.mul_y, Vec2.mix_x, Vec2.mix_y, mix]
    refine Prod.ext ?_ ?_ <;> simp only [reverse, inner] <;> ring

/-! ### Left and right -/

theorem aside_mirror (x y : ℚ) : aside ⟨-x, y⟩ = aside ⟨x, y⟩ := by
  rw [aside, abs_neg, aside]

theorem along_mirror (x y : ℚ) : along ⟨-x, y⟩ = along ⟨x, y⟩ := rfl

theorem outer_mirror (x y : ℚ) : outer ⟨-x, y⟩ = outer ⟨x, y⟩ := by
  rw [outer, aside_mirror, along_mirror, outer]

theorem inner_mirror (x y : ℚ) : inner ⟨-x, y⟩ = inner ⟨x, y⟩ := by
  rw [inner, aside_mirror, along_mirror, inner]

theorem reverse_mirror (x y : ℚ) : reverse ⟨-x, y⟩ = reverse ⟨x, y⟩ := by
  rw [reverse, aside_mirror, along_mirror, reverse]

theorem aside_straight (y : ℚ) : aside ⟨0, y⟩ = 0 := by
  simp [aside]

theorem outer_straight (y : ℚ) : outer ⟨0, y⟩ = 1024 * along ⟨0, y⟩ := by
  rw [outer, aside_straight]
  ring

theorem inner_straight (y : ℚ) : inner ⟨0, y⟩ = 1024 * along ⟨0, y⟩ := by
  rw [inner, aside_straight]
  ring

theorem reverse_straight (y : ℚ) : reverse ⟨0, y⟩ = -(1024 * along ⟨0, y⟩) := by
  rw [reverse, aside_straight]
  ring

/-- Straight on, both sides have one speed. -/
theorem products_straight (y : ℚ) : products ⟨0, y⟩ =
    if 0 < y then (-(1024 * along ⟨0, y⟩), -(1024 * along ⟨0, y⟩))
    else (1024 * along ⟨0, y⟩, 1024 * along ⟨0, y⟩) := by
  split_ifs with hy
  · rw [products_backward hy, if_neg (lt_irrefl 0), reverse_straight, inner_straight]
  · rw [products_forward hy, if_neg (lt_irrefl 0), outer_straight, inner_straight]

theorem products_mirror_forward (x : ℚ) {y : ℚ} (h : ¬ 0 < y) :
    products ⟨-x, y⟩ = (products ⟨x, y⟩).swap := by
  rw [products_forward h, products_forward h, outer_mirror, inner_mirror]
  rcases lt_trichotomy x 0 with hx | rfl | hx
  · rw [if_pos (neg_pos.mpr hx), if_neg (lt_asymm hx), Prod.swap_prod_mk]
  · rw [neg_zero, if_neg (lt_irrefl 0), outer_straight, inner_straight, Prod.swap_prod_mk]
  · rw [if_neg (not_lt.mpr (neg_nonpos.mpr hx.le)), if_pos hx, Prod.swap_prod_mk]

/-- Backward, the two speeds of the outer side are the same exactly if they are rounded alike. -/
theorem getMotorSpeed_mirror_backward {x y : ℚ} (hx : 0 < x) (hy : 0 < y) :
    getMotorSpeed ⟨-x, y⟩ = (getMotorSpeed ⟨x, y⟩).swap ↔
      SameStep (reverse ⟨x, y⟩) (reverse ⟨x, y⟩ + 2048 * (aside ⟨x, y⟩ * along ⟨x, y⟩)) := by
  have hright := products_backward (m := ⟨x, y⟩) hy
  have hleft := products_backward (m := ⟨-x, y⟩) hy
  rw [if_pos hx] at hright
  rw [if_neg (not_lt.mpr (neg_nonpos.mpr hx.le)), reverse_mirror, inner_mirror] at hleft
  have hrightMem := (products_mem ⟨x, y⟩).2.1
  have hleftMem := (products_mem ⟨-x, y⟩).1
  rw [hright] at hrightMem
  rw [hleft] at hleftMem
  have hle : reverse ⟨x, y⟩ ≤ reverse ⟨x, y⟩ + 2048 * (aside ⟨x, y⟩ * along ⟨x, y⟩) :=
    le_add_of_nonneg_right (by rw [aside, along]; positivity)
  rw [getMotorSpeed, getMotorSpeed, hleft, hright, Prod.swap_prod_mk, Prod.mk_inj,
    ← towardZero_eq_iff hle, ← toInt_toInt16 hleftMem, ← toInt_toInt16 hrightMem, Int16.toInt_inj]
  exact and_iff_left rfl

/-- **The mixing is symmetric forward; backward it is where the corners' difference is too small
for a step.** -/
theorem getMotorSpeed_mirror_iff (x y : ℚ) :
    getMotorSpeed ⟨-x, y⟩ = (getMotorSpeed ⟨x, y⟩).swap ↔
      y ≤ 0 ∨
        SameStep (reverse ⟨x, y⟩) (reverse ⟨x, y⟩ + 2048 * (aside ⟨x, y⟩ * along ⟨x, y⟩)) := by
  by_cases hy : 0 < y
  · rw [or_iff_right (not_le.mpr hy)]
    rcases lt_trichotomy x 0 with hx | rfl | hx
    · -- the pair read the other way round
      have hmirror := getMotorSpeed_mirror_backward (neg_pos.mpr hx) hy
      rw [neg_neg, reverse_mirror, aside_mirror, along_mirror] at hmirror
      rw [← hmirror]
      constructor
      · intro h
        rw [h, Prod.swap_swap]
      · intro h
        rw [h, Prod.swap_swap]
    · rw [neg_zero, getMotorSpeed, products_straight, if_pos hy, aside_straight, zero_mul, mul_zero,
        add_zero]
      exact iff_of_true rfl ((towardZero_eq_iff le_rfl).mp rfl)
    · exact getMotorSpeed_mirror_backward hx hy
  · rw [getMotorSpeed, products_mirror_forward x hy]
    exact iff_of_true rfl (Or.inl (not_lt.mp hy))

/-- Backward to the right at full speed, the right side turns forward. -/
theorem getMotorSpeed_not_mirrored : getMotorSpeed ⟨-4, 4⟩ ≠ (getMotorSpeed ⟨4, 4⟩).swap := by
  decide +kernel

/-! ### The range of the results -/

theorem along_pos_iff : 0 < along m ↔ m.y ≠ 0 := by
  rw [along, lt_min_iff, mul_pos_iff_of_pos_right (by norm_num), abs_pos]
  exact and_iff_left one_pos

theorem abs_products_straight (y : ℚ) : |(products ⟨0, y⟩).1| = 1024 * along ⟨0, y⟩ := by
  have hnonneg : 0 ≤ 1024 * along ⟨0, y⟩ := by
    rw [along]
    positivity
  rw [products_straight]
  split_ifs
  · rw [abs_neg, abs_of_nonneg hnonneg]
  · exact abs_of_nonneg hnonneg

theorem sign_products_straight (y : ℚ) :
    SignType.sign (products ⟨0, y⟩).1 = SignType.sign (-y) := by
  have hpos : y ≠ 0 → 0 < 1024 * along ⟨0, y⟩ := by
    intro h
    exact mul_pos (by norm_num) (along_pos_iff.mpr h)
  rw [products_straight]
  rcases lt_trichotomy y 0 with hy | rfl | hy
  · rw [if_neg (lt_asymm hy), sign_pos (hpos hy.ne), sign_pos (neg_pos.mpr hy)]
  · simp [along]
  · rw [if_pos hy, sign_neg (neg_neg_of_pos (hpos hy.ne')), sign_neg (neg_neg_of_pos hy)]

/-- Straight on, the speeds are less than one step below `|y| = 1 / 256`. -/
theorem abs_products_straight_lt_iff (y : ℚ) : |(products ⟨0, y⟩).1| < 1 ↔ |y| < 1 / 256 := by
  rw [abs_products_straight, along]
  constructor
  · intro h
    by_contra hy
    have hmin : (1 / 1024 : ℚ) ≤ min (|y| * (1 / 4)) 1 := le_min (by linarith) (by norm_num)
    linarith
  · intro h
    have hmin : min (|y| * (1 / 4)) 1 ≤ |y| * (1 / 4) := min_le_left _ _
    linarith

/-- **Both speeds are the rounded products, which lie in [-1024, 1024], are not negative forward,
and straight on are equal, with the sign of `-y`.**  The rounding keeps that sign from
`|y| = 1 / 256` on; below, both speeds are 0. -/
theorem getMotorSpeed_range (m : Vec2) :
    (getMotorSpeed m).1.toInt = towardZero (products m).1 ∧
      (getMotorSpeed m).2.toInt = towardZero (products m).2 ∧
      (getMotorSpeed m).1.toInt ∈ Set.Icc (-1024 : ℤ) 1024 ∧
      (getMotorSpeed m).2.toInt ∈ Set.Icc (-1024 : ℤ) 1024 ∧
      (m.y ≤ 0 → 0 ≤ (getMotorSpeed m).1.toInt ∧ 0 ≤ (getMotorSpeed m).2.toInt) ∧
      (m.x = 0 → (getMotorSpeed m).1 = (getMotorSpeed m).2 ∧
        (products m).1 = (products m).2 ∧ SignType.sign (products m).1 = SignType.sign (-m.y) ∧
        SignType.sign (getMotorSpeed m).1.toInt =
          if |m.y| < 1 / 256 then 0 else SignType.sign (-m.y)) := by
  obtain ⟨hleft, hright, hforward⟩ := products_mem m
  have hcast : ∀ {d : ℚ}, d ∈ Set.Icc (-1024 : ℚ) 1024 →
      towardZero d ∈ Set.Icc (-1024 : ℤ) 1024 := by
    intro d hd
    apply towardZero_mem_Icc
    exact_mod_cast hd
  have hl := toInt_toInt16 hleft
  have hr := toInt_toInt16 hright
  refine ⟨hl, hr, ?_, ?_, ?_, ?_⟩
  · exact hl ▸ hcast hleft
  · exact hr ▸ hcast hright
  · intro hy
    exact ⟨hl ▸ towardZero_nonneg (hforward hy).1, hr ▸ towardZero_nonneg (hforward hy).2⟩
  · intro hx
    obtain ⟨x, y⟩ := m
    obtain rfl : x = 0 := hx
    have hequal : (products ⟨0, y⟩).1 = (products ⟨0, y⟩).2 := by
      rw [products_straight]
      split_ifs <;> rfl
    refine ⟨congrArg toInt16 hequal, hequal, sign_products_straight y, ?_⟩
    rw [getMotorSpeed, hl, sign_towardZero, sign_products_straight]
    simp only [abs_products_straight_lt_iff]

/-- At `y = 1 / 1000` the speeds are 0, which is not the sign of `-y`. -/
theorem getMotorSpeed_no_sign :
    SignType.sign (getMotorSpeed ⟨0, 1 / 1000⟩).1.toInt ≠ SignType.sign (-(1 / 1000) : ℚ) := by
  decide +kernel

end ControlView

end MKart.ClientQt
