import Mathlib.Data.Nat.Basic

/-!
# Loops

A loop is the repetition of a body that either goes on, with the state for the next pass, or stops
with a result.  Running it takes a bound on the number of passes, and yields nothing if the bound is
not enough.

`loop_total` is the rule for total correctness: from an invariant and a measure that each pass
decreases, the loop stops, within as many passes as the measure says, and every larger bound gives
the same result.  `loop_collect` is the case of a loop that goes through a list by an index.
-/

namespace MKart.Loops

variable {σ ρ : Type*}

def loop (body : σ → σ ⊕ ρ) : ℕ → σ → Option ρ
  | 0, _ => none
  | passes + 1, s =>
      match body s with
      | .inl s' => loop body passes s'
      | .inr r => some r

variable {body : σ → σ ⊕ ρ}

theorem loop_goes_on {s s' : σ} (passes : ℕ) (h : body s = .inl s') :
    loop body (passes + 1) s = loop body passes s' := by
  rw [loop, h]

theorem loop_stops {s : σ} {r : ρ} (passes : ℕ) (h : body s = .inr r) :
    loop body (passes + 1) s = some r := by
  rw [loop, h]

/-- **The rule for total correctness.** -/
theorem loop_total {Inv : σ → Prop} {Post : ρ → Prop} (μ : σ → ℕ)
    (hon : ∀ s s', Inv s → body s = .inl s' → Inv s' ∧ μ s' < μ s)
    (hstop : ∀ s r, Inv s → body s = .inr r → Post r) {s : σ} (hs : Inv s) :
    ∃ r, Post r ∧ ∀ passes, μ s < passes → loop body passes s = some r := by
  induction hμ : μ s using Nat.strong_induction_on generalizing s with
  | _ n ih =>
      cases hbody : body s with
      | inl s' =>
          obtain ⟨hinv, hlt⟩ := hon s s' hs hbody
          obtain ⟨r, hpost, hloop⟩ := ih (μ s') (hμ ▸ hlt) hinv rfl
          refine ⟨r, hpost, fun passes hpasses => ?_⟩
          cases passes with
          | zero => exact absurd hpasses (Nat.not_lt_zero n)
          | succ passes =>
              rw [loop_goes_on passes hbody]
              exact hloop passes (by omega)
      | inr r =>
          refine ⟨r, hstop s r hs hbody, fun passes hpasses => ?_⟩
          cases passes with
          | zero => exact absurd hpasses (Nat.not_lt_zero n)
          | succ passes => exact loop_stops passes hbody

/-! ### Loops over an index -/

variable {α β : Type*}

/-- A pass of a loop that goes through a list and collects what `f` makes of its elements: the
index, and what has been collected. -/
def collect (f : α → List β) (xs : List α) (s : ℕ × List β) : (ℕ × List β) ⊕ List β :=
  match xs[s.1]? with
  | some x => .inl (s.1 + 1, s.2 ++ f x)
  | none => .inr s.2

theorem collect_of_lt {f : α → List β} {xs : List α} {s : ℕ × List β} (h : s.1 < xs.length) :
    collect f xs s = .inl (s.1 + 1, s.2 ++ f xs[s.1]) := by
  rw [collect, List.getElem?_eq_getElem h]

theorem collect_of_le {f : α → List β} {xs : List α} {s : ℕ × List β} (h : xs.length ≤ s.1) :
    collect f xs s = .inr s.2 := by
  rw [collect, List.getElem?_eq_none h]

/-- A pass does not leave the list. -/
theorem collect_le {f : α → List β} {xs : List α} (s s' : ℕ × List β) (_ : s.1 ≤ xs.length)
    (hstep : collect f xs s = .inl s') : s'.1 ≤ xs.length := by
  rcases Nat.lt_or_ge s.1 xs.length with hlt | hge
  · rw [collect_of_lt hlt] at hstep
    obtain rfl := Sum.inl.inj hstep
    exact hlt
  · rw [collect_of_le hge] at hstep
    cases hstep

/-- **A loop over an index collects everything.** -/
theorem loop_collect (f : α → List β) (xs : List α) (before : List β) {passes : ℕ}
    (hpasses : xs.length < passes) :
    loop (collect f xs) passes (0, before) = some (before ++ xs.flatMap f) := by
  have hon : ∀ s s' : ℕ × List β,
      s.1 ≤ xs.length ∧ s.2 = before ++ (xs.take s.1).flatMap f → collect f xs s = .inl s' →
      (s'.1 ≤ xs.length ∧ s'.2 = before ++ (xs.take s'.1).flatMap f) ∧
        xs.length - s'.1 < xs.length - s.1 := by
    intro s s' ⟨hle, hcollected⟩ hstep
    rcases Nat.lt_or_ge s.1 xs.length with hlt | hge
    · rw [collect_of_lt hlt] at hstep
      obtain rfl := Sum.inl.inj hstep
      refine ⟨⟨hlt, ?_⟩, by simp only; omega⟩
      rw [List.take_add_one, List.getElem?_eq_getElem hlt, List.flatMap_append, hcollected,
        List.append_assoc, Option.toList_some, List.flatMap_singleton]
    · rw [collect_of_le hge] at hstep
      cases hstep
  have hstop : ∀ (s : ℕ × List β) (r : List β),
      s.1 ≤ xs.length ∧ s.2 = before ++ (xs.take s.1).flatMap f → collect f xs s = .inr r →
      r = before ++ xs.flatMap f := by
    intro s r ⟨hle, hcollected⟩ hstep
    rcases Nat.lt_or_ge s.1 xs.length with hlt | hge
    · rw [collect_of_lt hlt] at hstep
      cases hstep
    · rw [collect_of_le hge] at hstep
      obtain rfl := Sum.inr.inj hstep
      rw [hcollected, List.take_of_length_le hge]
  obtain ⟨r, hr, hloop⟩ := loop_total (fun s => xs.length - s.1) hon hstop (s := (0, before))
    ⟨Nat.zero_le _, (List.append_nil before).symm⟩
  rw [hloop passes hpasses, hr]

end MKart.Loops
