import Mathlib.Data.List.Basic

/-!
# Sending over a primitive that may transmit partially

A `Transmission` is one call of a send primitive: the string it was given, and how many bytes
of it went out.  The strings of a list of calls arrive in one piece only if no call starts
before all earlier ones are whole (`InOrder`); then what has gone out is a prefix of their
concatenation (`sentBytes_prefix`).
-/

namespace MKart.PartialSends

structure Transmission where
  string : List UInt8
  bytes : ℕ
  deriving DecidableEq, Repr

def Transmission.Whole (t : Transmission) : Prop := t.string.length ≤ t.bytes

instance (t : Transmission) : Decidable t.Whole := inferInstanceAs (Decidable (_ ≤ _))

/-- The bytes that have gone out. -/
def sentBytes (ts : List Transmission) : List UInt8 := ts.flatMap fun t => t.string.take t.bytes

/-- No call that transmits anything comes behind one that is not whole. -/
def InOrder (ts : List Transmission) : Prop := ts.Pairwise fun a b => 0 < b.bytes → a.Whole

instance (ts : List Transmission) : Decidable (InOrder ts) :=
  inferInstanceAs (Decidable (ts.Pairwise _))

theorem inOrder_concat {ts : List Transmission} {t : Transmission} :
    InOrder (ts ++ [t]) ↔ InOrder ts ∧ (0 < t.bytes → ∀ a ∈ ts, a.Whole) := by
  unfold InOrder
  rw [List.pairwise_append]
  constructor
  · rintro ⟨hts, -, hlast⟩
    exact ⟨hts, fun hpos a ha => hlast a ha t List.mem_cons_self hpos⟩
  · rintro ⟨hts, hlast⟩
    refine ⟨hts, List.pairwise_singleton _ _, ?_⟩
    intro a ha b hb hpos
    obtain rfl := List.mem_singleton.mp hb
    exact hlast hpos a ha

theorem sentBytes_nil_of_silent {ts : List Transmission} (h : ∀ t ∈ ts, t.bytes = 0) :
    sentBytes ts = [] := by
  induction ts with
  | nil => rfl
  | cons t ts ih =>
      rw [sentBytes, List.flatMap_cons, h t List.mem_cons_self, List.take_zero]
      exact ih fun u hu => h u (List.mem_cons_of_mem t hu)

/-- **What has gone out is a prefix of the concatenated strings.** -/
theorem sentBytes_prefix {ts : List Transmission} (h : InOrder ts) :
    sentBytes ts <+: ts.flatMap Transmission.string := by
  induction ts with
  | nil => exact List.prefix_rfl
  | cons t ts ih =>
      obtain ⟨hfirst, hrest⟩ := List.pairwise_cons.mp h
      rw [sentBytes, List.flatMap_cons, List.flatMap_cons]
      by_cases hwhole : t.Whole
      · rw [List.take_of_length_le hwhole]
        exact (List.prefix_append_right_inj _).mpr (ih hrest)
      · -- behind a call that is not whole nothing went out
        have hsilent : ∀ u ∈ ts, u.bytes = 0 := by
          intro u hu
          by_contra hne
          exact hwhole (hfirst u hu (Nat.pos_of_ne_zero hne))
        show t.string.take t.bytes ++ sentBytes ts <+: _
        rw [sentBytes_nil_of_silent hsilent, List.append_nil]
        exact (List.take_prefix _ _).trans (List.prefix_append _ _)

/-- If every call is whole, all of the strings have gone out. -/
theorem sentBytes_of_whole {ts : List Transmission} (h : ∀ t ∈ ts, t.Whole) :
    sentBytes ts = ts.flatMap Transmission.string := by
  induction ts with
  | nil => rfl
  | cons t ts ih =>
      rw [sentBytes, List.flatMap_cons, List.flatMap_cons,
        List.take_of_length_le (h t List.mem_cons_self)]
      exact congrArg _ (ih fun u hu => h u (List.mem_cons_of_mem t hu))

end MKart.PartialSends
