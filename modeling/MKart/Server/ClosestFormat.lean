import MKart.Lib.FirstMin
import MKart.Server.V4L2
import Mathlib.Algebra.Order.Ring.Abs

/-!
# The closest format

The loop of `V4L2::startup` that searches for the format whose width is closest to 640.  It compares
squares of differences in 32 bits, which wrap: the loop finds the first least of what is left of
the squares (`targetIndex_isFirstMin`), and that is the closest width unless another square is left
smaller (`closest_iff`).  Widths up to 46980 have squares that fit.
-/

namespace MKart.Server

open MKart.FirstMin

namespace V4L2

def width (fs : List FrameSize) (i : ℕ) : UInt32 := (fs.getD i ⟨0, 0⟩).width

/-- The distance from `TARGET_WIDTH`, over the integers. -/
def distance (width : UInt32) : ℕ := ((width.toNat : ℤ) - 640).natAbs

/-- The square of the distance, as far as it fits into 32 bits. -/
def residue (width : UInt32) : ℤ := (((width.toNat : ℤ) - 640) ^ 2).bmod (2 ^ 32)

/-- The loop ended at the first index of a closest width. -/
def Closest (fs : List FrameSize) : Prop :=
  ∃ j : ℕ, targetIndex fs = j ∧ IsFirstMin (fun i => distance (width fs i)) fs.length j

/-- What is left of the square of the closest width is the first least. -/
def SquaresKeepClosest (fs : List FrameSize) : Prop :=
  ∀ j, IsFirstMin (fun i => distance (width fs i)) fs.length j →
    (∀ i < j, residue (width fs j) < residue (width fs i)) ∧
      ∀ i < fs.length, residue (width fs j) ≤ residue (width fs i)

/-- The difference wraps, and its square is the same. -/
theorem square_diff (w : UInt32) : square (diff w) = residue w := by
  rw [square, diff, residue, sq, Int.bmod_mul_bmod, Int.mul_bmod_bmod]

/-- The body of the loop. -/
def closer (fs : List FrameSize) (target : ℤ) (i : ℕ) : ℤ :=
  if target = -1 then i
  else if residue (width fs i) < residue (width fs target.toNat) then i else target

theorem targetIndex_eq_foldl (fs : List FrameSize) :
    targetIndex fs = (List.range fs.length).foldl (closer fs) (-1) := by
  unfold targetIndex
  simp only [square_diff]
  rfl

/-- One pass behind the first is a step of the search. -/
theorem closer_step (fs : List FrameSize) (j n : ℕ) :
    closer fs j n =
      ((if residue (width fs n) < residue (width fs j) then n else j : ℕ) : ℤ) := by
  rw [closer, if_neg (by omega), Int.toNat_natCast]
  split_ifs <;> rfl

theorem foldl_closer (fs : List FrameSize) (n : ℕ) :
    (List.range (n + 1)).foldl (closer fs) (-1) =
      firstMin (fun i => residue (width fs i)) (n + 1) := by
  induction n with
  | zero =>
      show closer fs (-1) 0 = _
      rw [closer, if_pos rfl, firstMin, firstMin, if_neg (lt_irrefl _)]
  | succ n ih =>
      rw [List.range_succ, List.foldl_append, ih, List.foldl_cons, List.foldl_nil, closer_step]
      rfl

/-- **The loop finds the first of the least residues.** -/
theorem targetIndex_isFirstMin (f : FrameSize) (fs : List FrameSize) :
    ∃ j : ℕ, targetIndex (f :: fs) = j ∧
      IsFirstMin (fun i => residue (width (f :: fs) i)) (f :: fs).length j := by
  refine ⟨_, ?_, isFirstMin_firstMin _ fs.length⟩
  rw [targetIndex_eq_foldl, List.length_cons, foldl_closer]

theorem keep_of_closest {f : FrameSize} {fs : List FrameSize} (h : Closest (f :: fs)) :
    SquaresKeepClosest (f :: fs) := by
  obtain ⟨j, htarget, hj⟩ := targetIndex_isFirstMin f fs
  obtain ⟨i, hi, hclosest⟩ := h
  intro k hk
  obtain rfl : k = j := by
    rw [hk.unique hclosest]
    exact_mod_cast hi.symm.trans htarget
  exact ⟨hj.before, hj.least⟩

theorem closest_of_keep {f : FrameSize} {fs : List FrameSize}
    (h : SquaresKeepClosest (f :: fs)) : Closest (f :: fs) := by
  obtain ⟨j, htarget, hj⟩ := targetIndex_isFirstMin f fs
  have hfirst := isFirstMin_firstMin (fun i => distance (width (f :: fs) i)) fs.length
  obtain ⟨hbefore, hleast⟩ := h _ hfirst
  rw [hj.unique ⟨hfirst.lt, hbefore, hleast⟩] at htarget
  exact ⟨_, htarget, hfirst⟩

/-- **The loop ends with the first closest width exactly if the wrapped squares keep it least.** -/
theorem closest_iff (f : FrameSize) (fs : List FrameSize) :
    Closest (f :: fs) ↔ SquaresKeepClosest (f :: fs) :=
  ⟨keep_of_closest, closest_of_keep⟩

/-- The width 66176 is 65536 too wide, and the square of that wraps to 0. -/
theorem not_closest : ¬ Closest [⟨641, 480⟩, ⟨66176, 480⟩] := by
  rintro ⟨j, htarget, hj⟩
  have hone : targetIndex [⟨641, 480⟩, ⟨66176, 480⟩] = (1 : ℕ) := by decide
  obtain rfl : 1 = j := by exact_mod_cast hone.symm.trans htarget
  exact absurd (hj.least 0 (by decide)) (by decide)

/-! ### Widths that fit -/

/-- Up to this width, the square of the distance is less than `2 ^ 31`. -/
theorem residue_eq_of_lt {w : UInt32} (h : w.toNat < 46981) :
    residue w = (distance w : ℤ) ^ 2 := by
  have hlow : -46340 ≤ (w.toNat : ℤ) - 640 := by omega
  have hhigh : (w.toNat : ℤ) - 640 ≤ 46340 := by omega
  have hsquare : ((w.toNat : ℤ) - 640) ^ 2 ≤ 46340 ^ 2 := sq_le_sq' hlow hhigh
  have hnonneg : 0 ≤ ((w.toNat : ℤ) - 640) ^ 2 := sq_nonneg _
  rw [residue, Int.bmod_eq_of_le (by omega) (by omega), distance, Int.natCast_natAbs, sq_abs]

theorem width_lt {fs : List FrameSize} {n : ℕ} (hn : 0 < n) (h : ∀ g ∈ fs, g.width.toNat < n)
    (i : ℕ) : (width fs i).toNat < n := by
  rw [width, List.getD_eq_getElem?_getD]
  cases hget : fs[i]? with
  | none => exact hn
  | some g => exact h g (List.mem_of_getElem? hget)

/-- **The choice is right wherever no width is greater than 46980.** -/
theorem closest_of_lt (f : FrameSize) (fs : List FrameSize)
    (h : ∀ g ∈ f :: fs, g.width.toNat < 46981) : Closest (f :: fs) := by
  have hresidue := fun i => residue_eq_of_lt (width_lt (by decide) h i)
  apply closest_of_keep
  intro j hj
  constructor
  · intro i hi
    rw [hresidue, hresidue]
    exact_mod_cast Nat.pow_lt_pow_left (hj.before i hi) two_ne_zero
  · intro i hi
    rw [hresidue, hresidue]
    exact_mod_cast Nat.pow_le_pow_left (hj.least i hi) 2

end V4L2

end MKart.Server
