import Mathlib.Data.List.Basic

/-!
# Programs of sized reads

A decoder that takes items of fixed sizes off the front of a string, one after the other, and
learns of each read whether it succeeded: `Prog` is the tree of its reads.  A read with too little
left fails, takes nothing, and the program goes on.

`value` is what it ends in, `results` are the outcomes of the reads along the way, and `taken` is
how much they take.  `Fits` says of a string that it holds every item the program asks for; no read
fails exactly if the string fits.
-/

namespace MKart.SizedReads

/-- Items of several types in strings over `β`: the length of an item, and what a string of that
length stands for. -/
structure Layout (τ β : Type) where
  Val : τ → Type
  size : τ → ℕ
  decode : (t : τ) → List β → Val t

variable {τ β : Type} {L : Layout τ β} {α γ : Type}

inductive Prog (L : Layout τ β) (α : Type) : Type
  | done (a : α)
  | read (t : τ) (next : Option (L.Val t) → Prog L α)

namespace Prog

/-- What the program ends in. -/
def value : Prog L α → List β → α
  | .done a, _ => a
  | .read t next, s =>
      if s.length < L.size t then (next none).value s
      else (next (some (L.decode t (s.take (L.size t))))).value (s.drop (L.size t))

/-- Whether each read of the run succeeded. -/
def results : Prog L α → List β → List Bool
  | .done _, _ => []
  | .read t next, s =>
      if s.length < L.size t then false :: (next none).results s
      else true :: (next (some (L.decode t (s.take (L.size t))))).results (s.drop (L.size t))

/-- How many elements the run takes. -/
def taken : Prog L α → List β → ℕ
  | .done _, _ => 0
  | .read t next, s =>
      if s.length < L.size t then (next none).taken s
      else
        L.size t + (next (some (L.decode t (s.take (L.size t))))).taken (s.drop (L.size t))

/-- The string holds every item that the program asks for. -/
def Fits : Prog L α → List β → Prop
  | .done _, _ => True
  | .read t next, s =>
      L.size t ≤ s.length ∧
        (next (some (L.decode t (s.take (L.size t))))).Fits (s.drop (L.size t))

/-- The program with a function applied to its result. -/
def map (f : α → γ) : Prog L α → Prog L γ
  | .done a => .done (f a)
  | .read t next => .read t fun v => (next v).map f

/-- **No read fails exactly if the string holds every item asked for.** -/
theorem all_results_iff (p : Prog L α) (s : List β) :
    (∀ ok ∈ p.results s, ok = true) ↔ p.Fits s := by
  induction p generalizing s with
  | done a => exact iff_of_true (fun ok hok => absurd hok List.not_mem_nil) trivial
  | read t next ih =>
      rw [results, Fits]
      by_cases hshort : s.length < L.size t
      · rw [if_pos hshort, List.forall_mem_cons]
        exact iff_of_false (fun h => absurd h.1 Bool.false_ne_true)
          (fun h => absurd h.1 (Nat.not_le_of_lt hshort))
      · rw [if_neg hshort, List.forall_mem_cons, ih]
        exact and_congr (iff_of_true rfl (Nat.le_of_not_lt hshort)) Iff.rfl

theorem value_map (f : α → γ) (p : Prog L α) (s : List β) :
    (p.map f).value s = f (p.value s) := by
  induction p generalizing s with
  | done a => rfl
  | read t next ih =>
      rw [map, value, value]
      split
      · exact ih _ _
      · exact ih _ _

theorem fits_map (f : α → γ) (p : Prog L α) (s : List β) : (p.map f).Fits s ↔ p.Fits s := by
  induction p generalizing s with
  | done a => exact Iff.rfl
  | read t next ih =>
      rw [map, Fits, Fits]
      exact and_congr Iff.rfl (ih _ _)

theorem taken_map (f : α → γ) (p : Prog L α) (s : List β) : (p.map f).taken s = p.taken s := by
  induction p generalizing s with
  | done a => rfl
  | read t next ih =>
      rw [map, taken, taken]
      split
      · exact ih _ _
      · rw [ih]

end Prog

end MKart.SizedReads
