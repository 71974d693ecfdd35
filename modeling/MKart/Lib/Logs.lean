import MKart.Lib.Runs

/-!
# Logs whose entries look back

A log grows by the entries that each step appends, and what is said about an entry is often a
relation to those before it: who came first, what it answers.  Such a property (`Each`) splits
along an append, and a step keeps it if the entries it appends are in order behind the log as it
is.  The rule for runs is `always_each`.
-/

namespace MKart.Logs

open MKart.Runs

variable {α σ ι : Type*} {P : List α → α → Prop}

/-- Every entry of the log stands in the relation `P` to the entries before it. -/
def Each (P : List α → α → Prop) (log : List α) : Prop :=
  ∀ before x after, log = before ++ x :: after → P before x

theorem each_nil (P : List α → α → Prop) : Each P [] := by
  intro before x after hlog
  exact absurd hlog.symm (List.append_ne_nil_of_right_ne_nil before (List.cons_ne_nil x after))

/-- The entries appended to a log look back at that log. -/
theorem each_append {log new : List α} (h : Each P log)
    (hnew : Each (fun before => P (log ++ before)) new) : Each P (log ++ new) := by
  intro before x after hlog
  rcases List.append_eq_append_iff.mp hlog with ⟨mid, rfl, hmid⟩ | ⟨mid, hmid, hrest⟩
  · exact hnew mid x after hmid
  · cases mid with
    | nil =>
        obtain rfl : before = log := by simpa using hmid.symm
        simpa using hnew [] x after hrest.symm
    | cons y mid =>
        obtain ⟨rfl, -⟩ := List.cons_eq_cons.mp hrest
        exact h before x mid hmid

/-- **The rule for runs** of a machine with a log, relative to an invariant of its states. -/
theorem always_each {step : σ → ι → σ} {log : σ → List α} {events : σ → ι → List α}
    {Inv : σ → Prop} (hinv : ∀ s i, Inv s → Inv (step s i))
    (hlog : ∀ s i, log (step s i) = log s ++ events s i)
    (hevents : ∀ s i, Inv s → Each (fun before => P (log s ++ before)) (events s i))
    {s : σ} {is : List ι} (hs : Inv s) (h : Each P (log s)) :
    Always step (fun s => Each P (log s)) s is := by
  have hstep : ∀ s i, Inv s ∧ Each P (log s) → Inv (step s i) ∧ Each P (log (step s i)) := by
    rintro s i ⟨hs, h⟩
    refine ⟨hinv s i hs, ?_⟩
    rw [hlog]
    exact each_append h (hevents s i hs)
  exact (always_of_step hstep ⟨hs, h⟩).imp fun _ h => h.2

end MKart.Logs
