import MKart.ClientQt.Standstill

/-!
# How the speeds move with the pad

`ControlView::get_motor_speed` picks one of four tables by the signs of the position, and exchanges
the two results on one side of the horizontal axis.  The tables fit together: before the exchange,
the results move with the pad by at most 512 steps a unit, across all quadrants
(`abs_direction_sub_le`).  So the speeds jump where the pad crosses the horizontal axis, by the
exchange of the two sides, and nowhere else (`getMotorSpeed_moves`).

A released pad does not cross the axis, and its speeds do not jump (`released_moves`).
-/

namespace MKart.ClientQt.ControlView

open MKart.Interpolation MKart.Runs MKart.TowardZero

/-! ### The tables -/

/-- What `get_motor_speed` mixes from the corners of one side. -/
def table (d0 d1 d2 d3 : ℚ) (m : Vec2) : ℚ :=
  mix (mix d0 d1 (aside m)) (mix d2 d3 (aside m)) (along m) * 1024

theorem abs_distance_sub_le (a b : ℚ) :
    |min (|a| * (1 / 4)) 1 - min (|b| * (1 / 4)) 1| ≤ 1 / 4 * |a - b| := by
  have hscale : |a| * (1 / 4) - |b| * (1 / 4) = 1 / 4 * (|a| - |b|) := by ring
  have hmin := abs_min_sub_min_le_max (|a| * (1 / 4)) 1 (|b| * (1 / 4)) 1
  rw [sub_self, abs_zero, max_eq_left (abs_nonneg _), hscale, abs_mul,
    abs_of_pos (show (0 : ℚ) < 1 / 4 by norm_num)] at hmin
  exact hmin.trans (mul_le_mul_of_nonneg_left (abs_abs_sub_abs_le a b) (by norm_num))

/-- Neighbouring corners differ by at most 2, so that a table moves at most 512 steps a unit. -/
theorem abs_table_sub_le {d0 d1 d2 d3 : ℚ} (h01 : |d1 - d0| ≤ 2) (h23 : |d3 - d2| ≤ 2)
    (h02 : |d2 - d0| ≤ 2) (h13 : |d3 - d1| ≤ 2) (m n : Vec2) :
    |table d0 d1 d2 d3 m - table d0 d1 d2 d3 n| ≤ 512 * (|m.x - n.x| + |m.y - n.y|) := by
  have hmixed : |mix (mix d0 d1 (aside m)) (mix d2 d3 (aside m)) (along m) -
      mix (mix d0 d1 (aside n)) (mix d2 d3 (aside n)) (along n)| ≤
        2 * (|aside m - aside n| + |along m - along n|) :=
    abs_mix_mix_sub_le h01 h23 h02 h13 (along_mem m) (aside_mem n)
  have haside : |aside m - aside n| ≤ 1 / 4 * |m.x - n.x| := abs_distance_sub_le m.x n.x
  have halong : |along m - along n| ≤ 1 / 4 * |m.y - n.y| := abs_distance_sub_le m.y n.y
  rw [table, table, ← sub_mul, abs_mul, abs_of_pos (show (0 : ℚ) < 1024 by norm_num)]
  linarith

/-- On the vertical axis a table has only the corners `d0` and `d2`. -/
theorem table_straight {m : Vec2} (h : m.x = 0) (d0 d1 d1' d2 d3 d3' : ℚ) :
    table d0 d1 d2 d3 m = table d0 d1' d2 d3' m := by
  have haside : aside m = 0 := by
    rw [aside, h]
    simp
  simp only [table, haside, mix, sub_zero, mul_one, mul_zero, add_zero]

/-- On the horizontal axis it has only the corners `d0` and `d1`. -/
theorem table_level {m : Vec2} (h : m.y = 0) (d0 d1 d2 d2' d3 d3' : ℚ) :
    table d0 d1 d2 d3 m = table d0 d1 d2' d3' m := by
  have halong : along m = 0 := by
    rw [along, h]
    simp
  simp only [table, halong, mix, sub_zero, mul_one, mul_zero, add_zero]

/-! ### The quadrants, with the axes on their sides -/

/-- The results of a quadrant's tables. -/
def tables (right back : Bool) (m : Vec2) : Vec2 :=
  match right, back with
  | true, true => ⟨table 0 0 (-1) (-1 / 4) m, table 0 1 (-1) 1 m⟩
  | true, false => ⟨table 0 0 1 (1 / 4) m, table 0 1 1 1 m⟩
  | false, true => ⟨table 0 1 (-1) (-1) m, table 0 0 (-1) (-1 / 4) m⟩
  | false, false => ⟨table 0 1 1 1 m, table 0 0 1 (1 / 4) m⟩

theorem abs_tables_sub_le (right back : Bool) (m n : Vec2) :
    |(tables right back m).x - (tables right back n).x| ≤ 512 * (|m.x - n.x| + |m.y - n.y|) ∧
      |(tables right back m).y - (tables right back n).y| ≤
        512 * (|m.x - n.x| + |m.y - n.y|) := by
  cases right <;> cases back <;> constructor <;>
    exact abs_table_sub_le (by norm_num) (by norm_num) (by norm_num) (by norm_num) m n

theorem direction_eq_tables (m : Vec2) :
    direction (position m) = tables (decide (0 < m.x)) (decide (0 < m.y)) m := by
  by_cases hx : 0 < m.x <;> by_cases hy : 0 < m.y
  all_goals
    simp only [direction, quadrant_right, quadrant_left, hx, hy, not_false_eq_true, if_true,
      if_false, decide_true, decide_false]
    rfl

/-- Right and left agree on the vertical axis. -/
theorem tables_straight {m : Vec2} (h : m.x = 0) (right back : Bool) :
    tables right back m = tables false back m := by
  cases right <;> cases back <;> try rfl
  · exact Vec2.ext (table_straight h _ _ _ _ _ _) (table_straight h _ _ _ _ _ _)
  · exact Vec2.ext (table_straight h _ _ _ _ _ _) (table_straight h _ _ _ _ _ _)

/-- Backward and forward agree on the horizontal axis. -/
theorem tables_level {m : Vec2} (h : m.y = 0) (right back : Bool) :
    tables right back m = tables right false m := by
  cases right <;> cases back <;> try rfl
  · exact Vec2.ext (table_level h _ _ _ _ _ _) (table_level h _ _ _ _ _ _)
  · exact Vec2.ext (table_level h _ _ _ _ _ _) (table_level h _ _ _ _ _ _)

theorem direction_eq {right back : Bool} {m : Vec2} (hx : if right then 0 ≤ m.x else m.x ≤ 0)
    (hy : if back then 0 ≤ m.y else m.y ≤ 0) : direction (position m) = tables right back m := by
  rw [direction_eq_tables]
  have hside : tables (decide (0 < m.x)) (decide (0 < m.y)) m =
      tables right (decide (0 < m.y)) m := by
    rcases eq_or_ne m.x 0 with h | h
    · rw [tables_straight h, tables_straight h right]
    · cases right with
      | true => rw [decide_eq_true (lt_of_le_of_ne hx h.symm)]
      | false => rw [decide_eq_false (not_lt.mpr hx)]
  rw [hside]
  rcases eq_or_ne m.y 0 with h | h
  · rw [tables_level h, tables_level h right back]
  · cases back with
    | true => rw [decide_eq_true (lt_of_le_of_ne hy h.symm)]
    | false => rw [decide_eq_false (not_lt.mpr hy)]

theorem exists_side {a b : ℚ} (h : 0 ≤ a * b) :
    ∃ side : Bool, (if side then 0 ≤ a else a ≤ 0) ∧ if side then 0 ≤ b else b ≤ 0 := by
  rcases mul_nonneg_iff.mp h with h | h
  · exact ⟨true, h⟩
  · exact ⟨false, h⟩

/-- **Before the exchange there are no jumps.** -/
theorem abs_direction_sub_le (m n : Vec2) :
    |(direction (position m)).x - (direction (position n)).x| ≤
        512 * (|m.x - n.x| + |m.y - n.y|) ∧
      |(direction (position m)).y - (direction (position n)).y| ≤
        512 * (|m.x - n.x| + |m.y - n.y|) := by
  have hquadrant : ∀ x y x' y' : ℚ, 0 ≤ x * x' → 0 ≤ y * y' →
      ∃ right back, direction (position ⟨x, y⟩) = tables right back ⟨x, y⟩ ∧
        direction (position ⟨x', y'⟩) = tables right back ⟨x', y'⟩ := by
    intro x y x' y' hx hy
    obtain ⟨right, hx, hx'⟩ := exists_side hx
    obtain ⟨back, hy, hy'⟩ := exists_side hy
    exact ⟨right, back, direction_eq hx hy, direction_eq hx' hy'⟩
  constructor
  · apply abs_sub_le_of_quadrants (f := fun x y => (direction (position ⟨x, y⟩)).x)
    intro x y x' y' hx hy
    obtain ⟨right, back, h, h'⟩ := hquadrant x y x' y' hx hy
    simp only [h, h']
    exact (abs_tables_sub_le right back ⟨x, y⟩ ⟨x', y'⟩).1
  · apply abs_sub_le_of_quadrants (f := fun x y => (direction (position ⟨x, y⟩)).y)
    intro x y x' y' hx hy
    obtain ⟨right, back, h, h'⟩ := hquadrant x y x' y' hx hy
    simp only [h, h']
    exact (abs_tables_sub_le right back ⟨x, y⟩ ⟨x', y'⟩).2

/-! ### The speeds -/

def distance (m n : Vec2) : ℚ := |m.x - n.x| + |m.y - n.y|

/-- On both sides the speeds differ by less than `k` steps. -/
def Within (k : ℚ) (a b : Int16 × Int16) : Prop :=
  |((a.1.toInt - b.1.toInt : ℤ) : ℚ)| < k ∧ |((a.2.toInt - b.2.toInt : ℤ) : ℚ)| < k

instance (k : ℚ) (a b : Int16 × Int16) : Decidable (Within k a b) :=
  inferInstanceAs (Decidable (_ ∧ _))

/-- The two halves of the pad, above and below the horizontal axis. -/
def SameHalf (m n : Vec2) : Prop := 0 < m.y ↔ 0 < n.y

instance (m n : Vec2) : Decidable (SameHalf m n) := inferInstanceAs (Decidable (_ ↔ _))

theorem products_eq_direction (m : Vec2) :
    products m =
      if 0 < m.y then ((direction (position m)).x, (direction (position m)).y)
      else ((direction (position m)).y, (direction (position m)).x) := by
  rw [products]
  simp only [position_y_pos_iff]

/-- The products of two positions, the second ones exchanged where the axis lies between them. -/
theorem abs_products_sub_le (m n : Vec2) :
    |(products m).1 - (if SameHalf m n then products n else (products n).swap).1| ≤
        512 * distance m n ∧
      |(products m).2 - (if SameHalf m n then products n else (products n).swap).2| ≤
        512 * distance m n := by
  obtain ⟨hx, hy⟩ := abs_direction_sub_le m n
  rw [products_eq_direction, products_eq_direction]
  by_cases hm : 0 < m.y <;> by_cases hn : 0 < n.y <;>
    simp only [SameHalf, hm, hn, if_true, if_false, iff_false, false_iff, not_true_eq_false,
      Prod.swap_prod_mk]
  · exact ⟨hx, hy⟩
  · exact ⟨hx, hy⟩
  · exact ⟨hy, hx⟩
  · exact ⟨hy, hx⟩

theorem abs_toInt_sub_lt {c d k : ℚ} (hc : c ∈ Set.Icc (-1024 : ℚ) 1024)
    (hd : d ∈ Set.Icc (-1024 : ℚ) 1024) (h : |c - d| ≤ k) :
    |(((toInt16 c).toInt - (toInt16 d).toInt : ℤ) : ℚ)| < k + 1 := by
  rw [toInt_toInt16 hc, toInt_toInt16 hd]
  linarith [abs_towardZero_sub_lt c d]

theorem speeds_within (m n : Vec2) :
    Within (512 * distance m n + 1) (getMotorSpeed m)
      (if SameHalf m n then getMotorSpeed n else (getMotorSpeed n).swap) := by
  obtain ⟨hm1, hm2, -⟩ := products_mem m
  obtain ⟨hn1, hn2, -⟩ := products_mem n
  obtain ⟨h1, h2⟩ := abs_products_sub_le m n
  by_cases hhalf : SameHalf m n
  · rw [if_pos hhalf] at h1 h2 ⊢
    exact ⟨abs_toInt_sub_lt hm1 hn1 h1, abs_toInt_sub_lt hm2 hn2 h2⟩
  · rw [if_neg hhalf] at h1 h2 ⊢
    exact ⟨abs_toInt_sub_lt hm1 hn2 h1, abs_toInt_sub_lt hm2 hn1 h2⟩

theorem abs_sub_lt_of_exchanged {a b c k : ℚ} (h : |a - c| < k) : |b - c| < |a - b| + k := by
  have htriangle := abs_sub_le b a c
  rw [abs_sub_comm b a] at htriangle
  linarith

/-- **The speeds move with the pad, and jump only where it crosses the horizontal axis**: there the
two sides are exchanged, which changes each speed by as much as the sides differ. -/
theorem getMotorSpeed_moves (m n : Vec2) :
    Within (512 * distance m n + 1) (getMotorSpeed m)
        (if SameHalf m n then getMotorSpeed n else (getMotorSpeed n).swap) ∧
      (¬ SameHalf m n →
        |(((getMotorSpeed n).1.toInt - (getMotorSpeed n).2.toInt : ℤ) : ℚ)| <
          |(((getMotorSpeed m).1.toInt - (getMotorSpeed n).1.toInt : ℤ) : ℚ)| +
            (512 * distance m n + 1)) := by
  have hwithin := speeds_within m n
  refine ⟨hwithin, fun hhalf => ?_⟩
  rw [if_neg hhalf] at hwithin
  have hleft := hwithin.1
  rw [Prod.fst_swap] at hleft
  rw [Int.cast_sub] at hleft ⊢
  rw [Int.cast_sub]
  exact abs_sub_lt_of_exchanged hleft

/-- The jump at the right end of the axis. -/
example : getMotorSpeed ⟨4, 0⟩ = (1024, 0) ∧ getMotorSpeed ⟨4, 1 / 100⟩ = (0, 1024) := by
  decide +kernel

/-! ### The released pad -/

theorem distance_mix (m : Vec2) {w : ℚ} (hw : 0 ≤ w) :
    distance m ⟨mix m.x 0 w, mix m.y 0 w⟩ = w * (|m.x| + |m.y|) := by
  have hstep : ∀ c : ℚ, |c - mix c 0 w| = w * |c| := by
    intro c
    have hdiff : c - mix c 0 w = w * c := by
      rw [mix]
      ring
    rw [hdiff, abs_mul, abs_of_nonneg hw]
  rw [distance, hstep, hstep, mul_add]

/-- A step toward the center does not cross the axis, or ends in the center. -/
theorem sameHalf_mix (m : Vec2) {w : ℚ} (hw : w ≤ 1) :
    SameHalf m ⟨mix m.x 0 w, mix m.y 0 w⟩ ∨
      (⟨mix m.x 0 w, mix m.y 0 w⟩ : Vec2) = ⟨0, 0⟩ := by
  have hstep : ∀ c : ℚ, mix c 0 w = c * (1 - w) := by
    intro c
    rw [mix, zero_mul, add_zero]
  rcases hw.lt_or_eq with hlt | rfl
  · refine Or.inl ?_
    show 0 < m.y ↔ 0 < mix m.y 0 w
    rw [hstep, mul_pos_iff_of_pos_right (sub_pos.mpr hlt)]
  · exact Or.inr (by rw [hstep, hstep, sub_self, mul_zero, mul_zero])

theorem getMotorSpeed_center : getMotorSpeed ⟨0, 0⟩ = (0, 0) :=
  getMotorSpeed_eq_zero (by norm_num)

theorem share_nonneg (t : Tick) : 0 ≤ share t := by
  rw [share]
  positivity

/-- One released frame. -/
theorem tick_within {v : ControlView} {t : Tick} (h : Released v t) :
    Within (512 * (share t * (|v.motorSpeed.x| + |v.motorSpeed.y|)) + 1)
      (getMotorSpeed v.motorSpeed) (getMotorSpeed (v.tick t).motorSpeed) := by
  have hshare := share_nonneg t
  have hwithin := speeds_within v.motorSpeed (v.tick t).motorSpeed
  rw [tick_released h.1] at hwithin ⊢
  rw [distance_mix _ hshare] at hwithin
  rcases sameHalf_mix v.motorSpeed (share_le_one h.2) with hhalf | hcenter
  · rwa [if_pos hhalf] at hwithin
  · rw [hcenter, getMotorSpeed_center] at hwithin ⊢
    have hzero : ((0, 0) : Int16 × Int16).swap = (0, 0) := rfl
    rwa [hzero, ite_self] at hwithin

theorem tick_slows {v : ControlView} {t : Tick} (h : Released v t) :
    |(v.tick t).motorSpeed.x| + |(v.tick t).motorSpeed.y| ≤
      |v.motorSpeed.x| + |v.motorSpeed.y| := by
  have hshare := share_nonneg t
  have hnears := fun c => ((nears_mix_zero_iff (c := c) hshare).mpr
    (Or.inr (share_le_one h.2))).1
  rw [tick_released h.1]
  exact add_le_add (hnears _) (hnears _)

/-- Less is changed by a slower motor speed. -/
theorem Within.mono {k l : ℚ} {a b : Int16 × Int16} (h : Within k a b) (hkl : k ≤ l) :
    Within l a b := ⟨h.1.trans_le hkl, h.2.trans_le hkl⟩

theorem run_within {k : ℚ} {v : ControlView} {ticks : List Tick}
    (hslow : |v.motorSpeed.x| + |v.motorSpeed.y| ≤ k) (h : Meets tick Released v ticks) :
    Meets tick (fun v t => Within (512 * (share t * k) + 1) (getMotorSpeed v.motorSpeed)
      (getMotorSpeed (v.tick t).motorSpeed)) v ticks := by
  induction ticks generalizing v with
  | nil => trivial
  | cons t ticks ih =>
      obtain ⟨hreleased, hrest⟩ := h
      refine ⟨(tick_within hreleased).mono ?_, ih ((tick_slows hreleased).trans hslow) hrest⟩
      have hproduct := mul_le_mul_of_nonneg_left hslow (share_nonneg t)
      linarith

/-- **The speeds of a released pad do not jump.**  In every run of frames in which the pad is not
dragged, none as long as 501 ms, each frame changes them by less than 512 times its share of the
motor speed at the beginning, and one step. -/
theorem released_moves (v : ControlView) (ticks : List Tick)
    (hreleased : Meets tick Released v ticks) :
    Meets tick (fun v' t =>
      Within (512 * (share t * (|v.motorSpeed.x| + |v.motorSpeed.y|)) + 1)
        (getMotorSpeed v'.motorSpeed) (getMotorSpeed (v'.tick t).motorSpeed)) v ticks :=
  run_within le_rfl hreleased

/-- Three frames of a pad that is released one unit from both axes. -/
theorem released_moves_three :
    Meets tick (fun v' t =>
      Within (512 * (share t * (|(1 : ℚ)| + |(-1 : ℚ)|)) + 1)
        (getMotorSpeed v'.motorSpeed) (getMotorSpeed (v'.tick t).motorSpeed))
      ⟨⟨1, -1⟩, 0, false⟩ (fourSeconds.take 3) :=
  released_moves ⟨⟨1, -1⟩, 0, false⟩ (fourSeconds.take 3) (by decide +kernel)

end MKart.ClientQt.ControlView
