import MKart.Lib.Loops

/-!
# Calls that are made again

A call that a signal interrupts is made again until one is not.  A program of such calls runs on
what happens to its calls, in their order: `true` stands for an interruption, and calls behind the
end of the list are not interrupted.  It ends with nothing if one of its loops takes more passes
than allowed.

`Yields m a` says that `m` ends with `a` whatever is interrupted.  There is one rule for each way to
put programs together; the rule for loops reduces a loop of calls to one without (`Yields.repeats`).
-/

namespace MKart.Restarts

open MKart.Loops

abbrev Program (α : Type) := StateT (List Bool) Option α

variable {α β σ ρ : Type}

/-- A call with this answer, made until it is not interrupted. -/
def restarted (answer : α) : Program α
  | true :: signals => restarted answer signals
  | false :: signals => some (answer, signals)
  | [] => some (answer, [])

/-- A loop, as in `Loops`, of which the body makes calls. -/
def repeats (body : σ → Program (σ ⊕ ρ)) : ℕ → σ → Program ρ
  | 0, _ => fun _ => none
  | passes + 1, s => do
      match ← body s with
      | .inl s' => repeats body passes s'
      | .inr r => pure r

/-- The program ends with `a`, whatever is interrupted. -/
def Yields (m : Program α) (a : α) : Prop := ∀ signals, ∃ left, m signals = some (a, left)

theorem yields_pure (a : α) : Yields (pure a) a := fun signals => ⟨signals, rfl⟩

theorem Yields.bind {m : Program α} {a : α} {f : α → Program β} {b : β} (hm : Yields m a)
    (hf : Yields (f a) b) : Yields (m >>= f) b := by
  intro signals
  obtain ⟨left, hleft⟩ := hm signals
  obtain ⟨rest, hrest⟩ := hf left
  refine ⟨rest, ?_⟩
  show (m signals).bind (fun r => f r.1 r.2) = some (b, rest)
  rw [hleft]
  exact hrest

theorem yields_restarted (answer : α) : Yields (restarted answer) answer := by
  intro signals
  induction signals with
  | nil => exact ⟨[], rfl⟩
  | cons interrupted signals ih =>
      cases interrupted with
      | true => exact ih
      | false => exact ⟨signals, rfl⟩

/-- **The rule for loops.**  Where each pass yields what a pass of a loop without calls computes,
the loop yields what that one computes. -/
theorem Yields.repeats {Inv : σ → Prop} {body : σ → Program (σ ⊕ ρ)} {step : σ → σ ⊕ ρ}
    (hbody : ∀ s, Inv s → Yields (body s) (step s))
    (hkeep : ∀ s s', Inv s → step s = .inl s' → Inv s') {passes : ℕ} {s : σ} {r : ρ} (hs : Inv s)
    (hloop : loop step passes s = some r) : Yields (repeats body passes s) r := by
  induction passes generalizing s with
  | zero => cases hloop
  | succ passes ih =>
      cases hstep : step s with
      | inl s' =>
          rw [loop_goes_on passes hstep] at hloop
          exact (hstep ▸ hbody s hs).bind (ih (hkeep s s' hs hstep) hloop)
      | inr r' =>
          rw [loop_stops passes hstep] at hloop
          obtain rfl := Option.some.inj hloop
          exact (hstep ▸ hbody s hs).bind (yields_pure r')

end MKart.Restarts
