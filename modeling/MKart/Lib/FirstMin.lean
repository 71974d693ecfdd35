import Mathlib.Data.List.Range
import Mathlib.Order.Lattice

/-!
# The first minimum

The search for the least of `n` keys that keeps the first one it has seen and moves on only to a
smaller one.  It ends at the first of the least keys (`isFirstMin_firstMin`), and there is one such
index only (`IsFirstMin.unique`).
-/

namespace MKart.FirstMin

variable {κ : Type*} [LinearOrder κ]

/-- The index `j` is the first one of a least key, among the keys below `n`. -/
structure IsFirstMin (key : ℕ → κ) (n j : ℕ) : Prop where
  lt : j < n
  before : ∀ i < j, key j < key i
  least : ∀ i < n, key j ≤ key i

/-- The index that the search has reached after `n` keys. -/
def firstMin (key : ℕ → κ) : ℕ → ℕ
  | 0 => 0
  | n + 1 => if key n < key (firstMin key n) then n else firstMin key n

variable {key : ℕ → κ} {n j : ℕ}

theorem isFirstMin_one (key : ℕ → κ) : IsFirstMin key 1 0 where
  lt := Nat.one_pos
  before i hi := absurd hi (Nat.not_lt_zero i)
  least i hi := by rw [Nat.lt_one_iff.mp hi]

/-- One more key. -/
theorem IsFirstMin.step (h : IsFirstMin key n j) :
    IsFirstMin key (n + 1) (if key n < key j then n else j) := by
  split_ifs with hless
  · have hall : ∀ i < n, key n < key i := fun i hi => hless.trans_le (h.least i hi)
    refine ⟨Nat.lt_succ_self n, hall, ?_⟩
    intro i hi
    rcases Nat.lt_succ_iff_lt_or_eq.mp hi with hlt | rfl
    · exact (hall i hlt).le
    · exact le_rfl
  · refine ⟨Nat.lt_succ_of_lt h.lt, h.before, ?_⟩
    intro i hi
    rcases Nat.lt_succ_iff_lt_or_eq.mp hi with hlt | rfl
    · exact h.least i hlt
    · exact not_lt.mp hless

/-- **The search finds the first minimum.** -/
theorem isFirstMin_firstMin (key : ℕ → κ) : ∀ n, IsFirstMin key (n + 1) (firstMin key (n + 1))
  | 0 => by
      rw [firstMin, firstMin, if_neg (lt_irrefl _)]
      exact isFirstMin_one key
  | n + 1 => by
      rw [firstMin]
      exact (isFirstMin_firstMin key n).step

theorem IsFirstMin.unique {i : ℕ} (hi : IsFirstMin key n i) (hj : IsFirstMin key n j) : i = j := by
  rcases lt_trichotomy i j with hlt | rfl | hlt
  · exact absurd (hj.before i hlt) (not_lt.mpr (hi.least j hj.lt))
  · rfl
  · exact absurd (hi.before j hlt) (not_lt.mpr (hj.least i hi.lt))

end MKart.FirstMin
