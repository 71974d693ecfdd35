import Mathlib.Data.List.Basic

/-!
# Runs of a step function

A state machine is a function `step : σ → ι → σ`; its environment is the list of
inputs it consumes.  A safety property quantifies over every state a run passes
through (`Always`), and a condition on a run quantifies over every step it takes
(`Meets`): the condition sees the state before the step and the input of the step.

Two rules carry every safety theorem stated this way.  `always_of_meets` is the
invariant rule relative to a condition: an invariant kept by each step that meets the
condition holds along every run that meets it (`always_of_step` where there is no
condition).  `meets_of_always` is its converse for a condition that is exact: if a step
outside the condition leaves the property, then a run along which the property holds
meets the condition throughout.
-/

namespace MKart.Runs

variable {σ ι : Type*} (step : σ → ι → σ)

/-- The state a run ends in. -/
def run (s : σ) (is : List ι) : σ := is.foldl step s

/-- `P` holds of the first state and of every later state of the run. -/
def Always (P : σ → Prop) : σ → List ι → Prop
  | s, [] => P s
  | s, i :: is => P s ∧ Always P (step s i) is

/-- Every step of the run meets the condition `C`. -/
def Meets (C : σ → ι → Prop) : σ → List ι → Prop
  | _, [] => True
  | s, i :: is => C s i ∧ Meets C (step s i) is

instance decidableAlways {P : σ → Prop} [DecidablePred P] :
    ∀ (s : σ) (is : List ι), Decidable (Always step P s is)
  | s, [] => inferInstanceAs (Decidable (P s))
  | s, i :: is =>
      have := decidableAlways (P := P) (step s i) is
      inferInstanceAs (Decidable (_ ∧ _))

instance decidableMeets {C : σ → ι → Prop} [∀ s i, Decidable (C s i)] :
    ∀ (s : σ) (is : List ι), Decidable (Meets step C s is)
  | _, [] => isTrue trivial
  | s, i :: is =>
      have := decidableMeets (C := C) (step s i) is
      inferInstanceAs (Decidable (_ ∧ _))

@[simp] theorem run_nil (s : σ) : run step s [] = s := rfl

@[simp] theorem run_cons (s : σ) (i : ι) (is : List ι) :
    run step s (i :: is) = run step (step s i) is := rfl

theorem run_append (s : σ) (is js : List ι) :
    run step s (is ++ js) = run step (run step s is) js := List.foldl_append

variable {step}

theorem Always.head {P : σ → Prop} {s : σ} {is : List ι} (h : Always step P s is) : P s := by
  cases is with
  | nil => exact h
  | cons i is => exact h.1

theorem Always.last {P : σ → Prop} {s : σ} {is : List ι} (h : Always step P s is) :
    P (run step s is) := by
  induction is generalizing s with
  | nil => exact h
  | cons i is ih => exact ih h.2

theorem Always.imp {P Q : σ → Prop} (hPQ : ∀ s, P s → Q s) {s : σ} {is : List ι}
    (h : Always step P s is) : Always step Q s is := by
  induction is generalizing s with
  | nil => exact hPQ s h
  | cons i is ih => exact ⟨hPQ s h.1, ih h.2⟩

/-- **The invariant rule, relative to a condition on the steps.** -/
theorem always_of_meets {Inv : σ → Prop} {C : σ → ι → Prop}
    (hstep : ∀ s i, Inv s → C s i → Inv (step s i)) {s : σ} {is : List ι}
    (hs : Inv s) (hmeets : Meets step C s is) : Always step Inv s is := by
  induction is generalizing s with
  | nil => exact hs
  | cons i is ih => exact ⟨hs, ih (hstep s i hs hmeets.1) hmeets.2⟩

/-- **The invariant rule**, for an invariant that every step keeps. -/
theorem always_of_step {Inv : σ → Prop} (hstep : ∀ s i, Inv s → Inv (step s i)) {s : σ}
    {is : List ι} (hs : Inv s) : Always step Inv s is := by
  induction is generalizing s with
  | nil => exact hs
  | cons i is ih => exact ⟨hs, ih (hstep s i hs)⟩

/-- **The exactness rule.**  If steps inside the condition keep an invariant, and every other
step leaves the property, then a run that stays inside the property meets the condition. -/
theorem meets_of_always {Inv P : σ → Prop} {C : σ → ι → Prop}
    (hstep : ∀ s i, Inv s → C s i → Inv (step s i))
    (hleave : ∀ s i, Inv s → ¬ C s i → ¬ P (step s i)) {s : σ} {is : List ι}
    (hs : Inv s) (h : Always step P s is) : Meets step C s is := by
  induction is generalizing s with
  | nil => trivial
  | cons i is ih =>
      have hC : C s i := by
        by_contra hC
        exact hleave s i hs hC h.2.head
      exact ⟨hC, ih (hstep s i hs hC) h.2⟩

/-- A condition that follows from another one where an invariant holds. -/
theorem Meets.imp {Inv : σ → Prop} {C D : σ → ι → Prop}
    (hstep : ∀ s i, Inv s → Inv (step s i)) (hcd : ∀ s i, Inv s → C s i → D s i) {s : σ}
    {is : List ι} (hs : Inv s) (h : Meets step C s is) : Meets step D s is := by
  induction is generalizing s with
  | nil => trivial
  | cons i is ih => exact ⟨hcd s i hs h.1, ih (hstep s i hs) h.2⟩

/-- Two conditions that agree where an invariant holds are met by the same runs. -/
theorem meets_congr {Inv : σ → Prop} {C D : σ → ι → Prop}
    (hstep : ∀ s i, Inv s → Inv (step s i)) (hcd : ∀ s i, Inv s → (C s i ↔ D s i)) {s : σ}
    {is : List ι} (hs : Inv s) : Meets step C s is ↔ Meets step D s is :=
  ⟨Meets.imp hstep (fun s i hs => (hcd s i hs).mp) hs,
    Meets.imp hstep (fun s i hs => (hcd s i hs).mpr) hs⟩

/-- Two conditions that agree everywhere. -/
theorem meets_iff {C D : σ → ι → Prop} (hcd : ∀ s i, C s i ↔ D s i) (s : σ) (is : List ι) :
    Meets step C s is ↔ Meets step D s is := by
  have hkeep : ∀ (s : σ) (i : ι), True → True := fun _ _ h => h
  exact meets_congr hkeep (fun s i _ => hcd s i) trivial

/-- A condition on the inputs alone can be added to one on the steps. -/
theorem Meets.and_of_forall {C : σ → ι → Prop} {D : ι → Prop} {s : σ} {is : List ι}
    (hD : ∀ i ∈ is, D i) (h : Meets step C s is) : Meets step (fun s i => D i ∧ C s i) s is := by
  induction is generalizing s with
  | nil => trivial
  | cons i is ih =>
      exact ⟨⟨hD i List.mem_cons_self, h.1⟩, ih (fun j hj => hD j (List.mem_cons_of_mem _ hj)) h.2⟩

theorem Meets.append_left {C : σ → ι → Prop} {s : σ} {is js : List ι}
    (h : Meets step C s (is ++ js)) : Meets step C s is := by
  induction is generalizing s with
  | nil => trivial
  | cons i is ih => exact ⟨h.1, ih h.2⟩

/-- A run that leaves the condition has a first step outside of it. -/
theorem exists_first_of_not_meets {C : σ → ι → Prop} {s : σ} {is : List ι}
    (h : ¬ Meets step C s is) :
    ∃ before i after, is = before ++ i :: after ∧ Meets step C s before ∧
      ¬ C (run step s before) i := by
  induction is generalizing s with
  | nil => exact absurd trivial h
  | cons i is ih =>
      by_cases hC : C s i
      · obtain ⟨before, j, after, rfl, hbefore, hj⟩ := ih fun hrest => h ⟨hC, hrest⟩
        exact ⟨i :: before, j, after, rfl, ⟨hC, hbefore⟩, hj⟩
      · exact ⟨[], i, is, rfl, trivial, hC⟩

theorem Meets.append_right {C : σ → ι → Prop} {s : σ} {is js : List ι}
    (h : Meets step C s (is ++ js)) : Meets step C (run step s is) js := by
  induction is generalizing s with
  | nil => exact h
  | cons i is ih => exact ih h.2

end MKart.Runs
