import MKart.Lib.Runs
import Mathlib.Algebra.Order.Ring.Int
import Mathlib.Tactic.Linarith
import Mathlib.Tactic.Ring

/-!
# Rate limiters

A rate limiter polls a clock, fires when at least `d` has passed since the time it has stored,
and stores a later time when it has fired.  Of the machine around it nothing else is used.

The firings of a limiter are `d` apart (`spaced_firings`), so that a stretch of time `w` holds no
more than `w / d + 1` of them (`Spaced.count_le`).  Where the limiter is polled every `δ` and
fires whenever it may, `n` firings cover less than `d + n * (d + 2 * δ)` of time (`elapsed_lt`):
a firing comes at most `δ` after it is due, and what it stores lies at most `δ` behind it.
-/

namespace MKart.RateLimiter

open MKart.Runs

/-! ### Times that are apart -/

/-- Each time in the list comes at least `d` after every earlier one. -/
def Spaced (d : ℤ) (ts : List ℤ) : Prop := ts.Pairwise fun a b => a + d ≤ b

instance (d : ℤ) (ts : List ℤ) : Decidable (Spaced d ts) :=
  inferInstanceAs (Decidable (ts.Pairwise _))

/-- Times `d` apart need room. -/
theorem Spaced.length_le {d : ℤ} (hd : 0 ≤ d) {ts : List ℤ} (h : Spaced d ts) {a b : ℤ}
    (hab : a ≤ b) (hin : ∀ t ∈ ts, a ≤ t ∧ t ≤ b) : (ts.length : ℤ) * d ≤ b - a + d := by
  induction ts generalizing a with
  | nil =>
      rw [List.length_nil, Nat.cast_zero, zero_mul]
      omega
  | cons t ts ih =>
      obtain ⟨hfirst, hrest⟩ := List.pairwise_cons.mp h
      have ht := hin t List.mem_cons_self
      cases ts with
      | nil =>
          rw [List.length_singleton, Nat.cast_one, one_mul]
          omega
      | cons u us =>
          have hu := hfirst u List.mem_cons_self
          have hub := (hin u (List.mem_cons_of_mem _ List.mem_cons_self)).2
          have hroom : ((u :: us).length : ℤ) * d ≤ b - (t + d) + d := by
            apply ih hrest
            · omega
            · intro x hx
              exact ⟨hfirst x hx, (hin x (List.mem_cons_of_mem _ hx)).2⟩
          rw [List.length_cons, Nat.cast_succ, add_mul, one_mul]
          omega

/-- **The rate**: how many of the times fall into a stretch of length `w`. -/
theorem Spaced.count_le {d : ℤ} (hd : 0 ≤ d) {ts : List ℤ} (h : Spaced d ts) (a : ℤ) {w : ℤ}
    (hw : 0 ≤ w) :
    ((ts.filter fun t => decide (a ≤ t ∧ t ≤ a + w)).length : ℤ) * d ≤ w + d := by
  have hspaced : Spaced d (ts.filter fun t => decide (a ≤ t ∧ t ≤ a + w)) := h.filter _
  have hlen := hspaced.length_le hd (a := a) (b := a + w) (by omega) fun t ht =>
    of_decide_eq_true (List.mem_filter.mp ht).2
  omega

/-- From `t` on each of the times comes at most `δ` after the one before it. -/
def Dense (δ : ℤ) : ℤ → List ℤ → Prop
  | _, [] => True
  | t, p :: ps => p ≤ t + δ ∧ Dense δ p ps

instance decidableDense (δ : ℤ) : ∀ (t : ℤ) (ps : List ℤ), Decidable (Dense δ t ps)
  | _, [] => isTrue trivial
  | t, p :: ps =>
      have := decidableDense δ p ps
      inferInstanceAs (Decidable (p ≤ t + δ ∧ Dense δ p ps))

/-! ### Limiters -/

/-- A machine with a rate limiter in it.  `first` and `last` are the first and the last reading of
the clock that a step may use. -/
structure Limiter (σ ι : Type*) where
  step : σ → ι → σ
  first : ι → ℤ
  last : ι → ℤ
  /-- The stored time. -/
  stamp : σ → ℤ
  /-- The step looks whether it is time to fire. -/
  polls : σ → ι → Bool
  fires : σ → ι → Bool

namespace Limiter

variable {σ ι : Type*} (L : Limiter σ ι)

/-- From `t` on the clock does not go back. -/
def Clocked : ℤ → List ι → Prop
  | _, [] => True
  | t, i :: is => t ≤ L.first i ∧ L.first i ≤ L.last i ∧ Clocked (L.last i) is

instance decidableClocked : ∀ (t : ℤ) (is : List ι), Decidable (L.Clocked t is)
  | _, [] => isTrue trivial
  | t, i :: is =>
      have := decidableClocked (L.last i) is
      inferInstanceAs (Decidable (t ≤ L.first i ∧ L.first i ≤ L.last i ∧ L.Clocked (L.last i) is))

/-- The times of the firings of a run. -/
def firings : σ → List ι → List ℤ
  | _, [] => []
  | s, i :: is => (if L.fires s i then [L.first i] else []) ++ firings (L.step s i) is

/-- The times of the polls of a run. -/
def pollings : σ → List ι → List ℤ
  | _, [] => []
  | s, i :: is => (if L.polls s i then [L.first i] else []) ++ pollings (L.step s i) is

/-- The reading of the clock after the steps `is`, if it was `t` before. -/
def now (t : ℤ) (is : List ι) : ℤ := (is.map L.last).getLastD t

/-- The limiter fires only when `d` has passed, and then stores a time that is not earlier.  No
step lowers the stored time or moves it into the future.  `Inv` is an invariant of the machine. -/
structure Guarded (Inv : σ → Prop) (d : ℤ) : Prop where
  inv : ∀ s i, Inv s → Inv (L.step s i)
  due : ∀ s i, Inv s → L.stamp s ≤ L.first i → L.fires s i = true → L.stamp s + d ≤ L.first i
  stores : ∀ s i, L.first i ≤ L.last i → L.fires s i = true →
    L.first i ≤ L.stamp (L.step s i)
  forward : ∀ s i, L.stamp s ≤ L.first i → L.first i ≤ L.last i →
    L.stamp s ≤ L.stamp (L.step s i) ∧ L.stamp (L.step s i) ≤ L.last i

/-- In the steps that meet `C` the limiter fires at a poll if `d` has passed, but less than
`horizon`, and the stored time stays unless it fires. -/
structure Prompt (Inv : σ → Prop) (d horizon : ℤ) (C : σ → ι → Prop) : Prop where
  polls : ∀ s i, L.fires s i = true → L.polls s i = true
  fires : ∀ s i, Inv s → C s i → L.polls s i = true → L.stamp s + d ≤ L.first i →
    L.first i < L.stamp s + horizon → L.fires s i = true
  keeps : ∀ s i, C s i → L.fires s i = false → L.stamp (L.step s i) = L.stamp s

variable {L} {Inv : σ → Prop} {d : ℤ}

theorem clocked_append {t : ℤ} {is js : List ι} :
    L.Clocked t (is ++ js) ↔ L.Clocked t is ∧ L.Clocked (L.now t is) js := by
  induction is generalizing t with
  | nil => exact ⟨fun h => ⟨trivial, h⟩, And.right⟩
  | cons i is ih =>
      have hnow : L.now t (i :: is) = L.now (L.last i) is := by
        rw [now, List.map_cons, List.getLastD_cons, now]
      rw [List.cons_append, Clocked, Clocked, hnow, ih, and_assoc, and_assoc]

theorem firings_of_fires {s : σ} {i : ι} (h : L.fires s i = true) (is : List ι) :
    L.firings s (i :: is) = L.first i :: L.firings (L.step s i) is := by
  simp [firings, h]

theorem firings_of_not {s : σ} {i : ι} (h : L.fires s i = false) (is : List ι) :
    L.firings s (i :: is) = L.firings (L.step s i) is := by
  simp [firings, h]

theorem pollings_of_polls {s : σ} {i : ι} (h : L.polls s i = true) (is : List ι) :
    L.pollings s (i :: is) = L.first i :: L.pollings (L.step s i) is := by
  simp [pollings, h]

theorem pollings_of_not {s : σ} {i : ι} (h : L.polls s i = false) (is : List ι) :
    L.pollings s (i :: is) = L.pollings (L.step s i) is := by
  simp [pollings, h]

theorem pollings_append (s : σ) (is js : List ι) :
    L.pollings s (is ++ js) = L.pollings s is ++ L.pollings (run L.step s is) js := by
  induction is generalizing s with
  | nil => rfl
  | cons i is ih => rw [List.cons_append, pollings, ih, pollings, List.append_assoc, run_cons]

/-- The stored time is never in the future. -/
theorem stamp_le_now (hg : L.Guarded Inv d) {s : σ} {is : List ι} {t : ℤ} (hs : L.stamp s ≤ t)
    (hclock : L.Clocked t is) : L.stamp (run L.step s is) ≤ L.now t is := by
  induction is generalizing s t with
  | nil => exact hs
  | cons i is ih =>
      obtain ⟨hfirst, hlast, hrest⟩ := hclock
      have hstep := (hg.forward s i (le_trans hs hfirst) hlast).2
      have hrun := ih hstep hrest
      rwa [now, List.map_cons, List.getLastD_cons]

/-- **The firings are `d` apart**, on a clock that does not go back. -/
theorem spaced_firings (hg : L.Guarded Inv d) {s : σ} {is : List ι} {t : ℤ} (hinv : Inv s)
    (hs : L.stamp s ≤ t) (hclock : L.Clocked t is) :
    Spaced d (L.firings s is) ∧ ∀ x ∈ L.firings s is, L.stamp s + d ≤ x := by
  induction is generalizing s t with
  | nil => exact ⟨List.Pairwise.nil, fun x hx => absurd hx List.not_mem_nil⟩
  | cons i is ih =>
      obtain ⟨hfirst, hlast, hrest⟩ := hclock
      obtain ⟨hforward, hnow⟩ := hg.forward s i (le_trans hs hfirst) hlast
      obtain ⟨hspaced, hlater⟩ := ih (hg.inv s i hinv) hnow hrest
      cases hfires : L.fires s i with
      | false =>
          rw [firings_of_not hfires]
          refine ⟨hspaced, fun x hx => ?_⟩
          have hx' := hlater x hx
          omega
      | true =>
          have hdue := hg.due s i hinv (le_trans hs hfirst) hfires
          have hstores := hg.stores s i hlast hfires
          rw [firings_of_fires hfires]
          refine ⟨List.pairwise_cons.mpr ⟨fun x hx => ?_, hspaced⟩, fun x hx => ?_⟩
          · have hx' := hlater x hx
            omega
          · rcases List.mem_cons.mp hx with rfl | hx
            · exact hdue
            · have hx' := hlater x hx
              omega

/-- Polls read the clock later than everything before them. -/
theorem le_of_mem_pollings {s : σ} {is : List ι} {t p : ℤ} (hclock : L.Clocked t is)
    (hp : p ∈ L.pollings s is) : t ≤ p := by
  induction is generalizing s t with
  | nil => exact absurd hp List.not_mem_nil
  | cons i is ih =>
      obtain ⟨hfirst, hlast, hrest⟩ := hclock
      rcases List.mem_append.mp hp with hp | hp
      · split at hp
        · rw [List.mem_singleton.mp hp]
          exact hfirst
        · exact absurd hp List.not_mem_nil
      · have hrest' := ih hrest hp
        omega

/-- **The firings keep coming.**  Let the limiter be polled every `δ` from `t` on, and let it be due
by `b` for the first time.  Then the last poll of the run comes before `b`, and `d + 2 * δ` more
for each firing. -/
theorem elapsed_lt {horizon δ : ℤ} {C : σ → ι → Prop} (hd : 0 < d) (hδ : 0 ≤ δ)
    (hg : L.Guarded Inv d) (hp : L.Prompt Inv d horizon C) {s : σ} {is : List ι} {t u b : ℤ}
    (hinv : Inv s) (hmeets : Meets L.step C s is) (hclock : L.Clocked u is) (hs : L.stamp s ≤ u)
    (ht : t < b) (hb : L.stamp s + d ≤ b) (hhorizon : b + δ ≤ L.stamp s + horizon)
    (hdense : Dense δ t (L.pollings s is)) :
    (L.pollings s is).getLastD t < b + (L.firings s is).length * (d + 2 * δ) := by
  induction is generalizing s t u b with
  | nil =>
      show t < b + ((0 : ℕ) : ℤ) * (d + 2 * δ)
      rw [Nat.cast_zero, zero_mul]
      omega
  | cons i is ih =>
      obtain ⟨hC, hmeets⟩ := hmeets
      obtain ⟨hfirst, hlast, hclock⟩ := hclock
      obtain ⟨-, hnow⟩ := hg.forward s i (le_trans hs hfirst) hlast
      have hinv' := hg.inv s i hinv
      cases hpolls : L.polls s i with
      | false =>
          -- no poll, so no firing: the step only lets time pass
          have hfires : L.fires s i = false := by
            by_contra hne
            rw [hp.polls s i (eq_true_of_ne_false hne)] at hpolls
            cases hpolls
          have hstamp := hp.keeps s i hC hfires
          rw [pollings_of_not hpolls] at hdense ⊢
          rw [firings_of_not hfires]
          exact ih hinv' hmeets hclock hnow ht (hstamp ▸ hb) (hstamp ▸ hhorizon) hdense
      | true =>
          rw [pollings_of_polls hpolls] at hdense ⊢
          obtain ⟨hpoll, hdense⟩ := hdense
          rw [List.getLastD_cons]
          cases hfires : L.fires s i with
          | false =>
              have hstamp := hp.keeps s i hC hfires
              have hearly : L.first i < L.stamp s + d := by
                by_contra hlate
                have hdue := hp.fires s i hinv hC hpolls (by omega) (by omega)
                rw [hdue] at hfires
                cases hfires
              rw [firings_of_not hfires]
              exact ih hinv' hmeets hclock hnow (by omega) (hstamp ▸ hb) (hstamp ▸ hhorizon) hdense
          | true =>
              have hstores := hg.stores s i hlast hfires
              have hlater := ih hinv' hmeets hclock hnow
                (b := L.stamp (L.step s i) + d) (by omega) le_rfl (by omega) hdense
              rw [firings_of_fires hfires, List.length_cons, Nat.cast_succ]
              have hn : 0 ≤ ((L.firings (L.step s i) is).length : ℤ) * (d + 2 * δ) :=
                mul_nonneg (Nat.cast_nonneg _) (by omega)
              cases hmore : L.pollings (L.step s i) is with
              | nil =>
                  -- the last poll of the run has fired
                  rw [List.getLastD_nil]
                  linarith
              | cons q qs =>
                  -- the next poll bounds what this one has stored
                  have hq : L.last i ≤ q :=
                    le_of_mem_pollings hclock (hmore ▸ List.mem_cons_self)
                  rw [hmore] at hdense hlater
                  have hgap := hdense.1
                  linarith

/-- A run in which the limiter could fire at any poll, and did not, polls it too early only. -/
theorem lt_of_firings_nil {C : σ → ι → Prop} (hinv : ∀ s i, Inv s → Inv (L.step s i))
    (hp : ∀ horizon, L.Prompt Inv d horizon C) {s : σ} {is : List ι} (hs : Inv s)
    (hmeets : Meets L.step C s is) (hnone : L.firings s is = []) {p : ℤ}
    (hpoll : p ∈ L.pollings s is) : p < L.stamp s + d := by
  induction is generalizing s with
  | nil => exact absurd hpoll List.not_mem_nil
  | cons i is ih =>
      obtain ⟨hC, hmeets⟩ := hmeets
      obtain ⟨hhead, htail⟩ := List.append_eq_nil_iff.mp hnone
      have hfires : L.fires s i = false := by
        by_contra hne
        rw [if_pos (eq_true_of_ne_false hne)] at hhead
        cases hhead
      rcases List.mem_append.mp hpoll with hnow | hlater
      · split at hnow
        · rename_i hpolls
          obtain rfl := List.mem_singleton.mp hnow
          by_contra hlate
          have hdue := (hp (L.first i - L.stamp s + 1)).fires s i hs hC hpolls (by omega) (by omega)
          exact absurd (hdue.symm.trans hfires) (by decide)
        · exact absurd hnow List.not_mem_nil
      · rw [← (hp 0).keeps s i hC hfires]
        exact ih (hinv s i hs) hmeets htail hlater

end Limiter

end MKart.RateLimiter
