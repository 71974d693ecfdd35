import Mathlib.Data.List.Basic

/-!
# Comparing a tag through a pointer

A comparison of a tag with the memory behind a pointer, element by element and stopping at the
first difference, reads as many elements as agree and one more.  `touched` are the offsets it
reads, and its result (`equal`) depends on no others.  The memory is a message and whatever lies
behind it (`behind`); the comparison stays inside the message unless the message is a proper
prefix of the tag.
-/

namespace MKart.ShortCircuit

variable {α : Type*}

/-- What a pointer to `msg` reads, with `heap` behind the message. -/
def behind (msg : List α) (heap : ℕ → α) (i : ℕ) : α := msg.getD i (heap i)

theorem behind_cons_succ (b : α) (msg : List α) (heap : ℕ → α) (i : ℕ) :
    behind (b :: msg) heap (i + 1) = behind msg (fun i => heap (i + 1)) i := rfl

/-- A proper prefix of the tag. -/
def ProperPrefix (msg tag : List α) : Prop := msg <+: tag ∧ msg.length < tag.length

theorem properPrefix_cons {b t : α} {msg tag : List α} :
    ProperPrefix (b :: msg) (t :: tag) ↔ b = t ∧ ProperPrefix msg tag := by
  simp only [ProperPrefix, List.cons_prefix_cons, List.length_cons, Nat.add_lt_add_iff_right,
    and_assoc]

variable [DecidableEq α]

instance (msg tag : List α) : Decidable (ProperPrefix msg tag) :=
  inferInstanceAs (Decidable (_ ∧ _))

/-- The offsets that the comparison reads. -/
def touched : List α → (ℕ → α) → List ℕ
  | [], _ => []
  | t :: tag, p => 0 :: if p 0 = t then (touched tag fun i => p (i + 1)).map (· + 1) else []

/-- The result of the comparison. -/
def equal : List α → (ℕ → α) → Bool
  | [], _ => true
  | t :: tag, p => p 0 == t && equal tag fun i => p (i + 1)

/-- The result depends on nothing but the offsets that are read. -/
theorem equal_congr (tag : List α) {p q : ℕ → α} (h : ∀ i ∈ touched tag p, p i = q i) :
    equal tag p = equal tag q := by
  induction tag generalizing p q with
  | nil => rfl
  | cons t tag ih =>
      rw [touched, List.forall_mem_cons] at h
      obtain ⟨hfront, hrest⟩ := h
      rw [equal, equal, ← hfront]
      by_cases ht : p 0 = t
      · rw [if_pos ht, List.forall_mem_map] at hrest
        rw [ih hrest]
      · rw [show (p 0 == t) = false by simpa using ht, Bool.false_and, Bool.false_and]

/-- A comparison that succeeds has read the whole tag. -/
theorem mem_touched_of_equal {tag : List α} {p : ℕ → α} (h : equal tag p = true) {i : ℕ}
    (hi : i < tag.length) : i ∈ touched tag p := by
  induction tag generalizing p i with
  | nil => exact absurd hi (Nat.not_lt_zero i)
  | cons t tag ih =>
      rw [equal, Bool.and_eq_true, beq_iff_eq] at h
      rw [touched, if_pos h.1]
      cases i with
      | zero => exact List.mem_cons_self
      | succ i =>
          rw [List.length_cons] at hi
          exact List.mem_cons_of_mem _ (List.mem_map_of_mem (ih h.2 (by omega)))

/-- **The comparison stays inside the message exactly if the message is not a proper prefix of
the tag**, whatever lies behind it. -/
theorem touched_inside_iff (tag msg : List α) (heap : ℕ → α) :
    (∀ i ∈ touched tag (behind msg heap), i < msg.length) ↔ ¬ ProperPrefix msg tag := by
  induction tag generalizing msg heap with
  | nil => simp [touched, ProperPrefix]
  | cons t tag ih =>
      cases msg with
      | nil =>
          rw [touched, List.forall_mem_cons]
          simp [ProperPrefix]
      | cons b msg =>
          have hrest : (∀ i ∈ (touched tag fun i => behind (b :: msg) heap (i + 1)).map (· + 1),
              i < (b :: msg).length) ↔ ¬ ProperPrefix msg tag := by
            rw [← ih msg fun i => heap (i + 1)]
            simp only [behind_cons_succ, List.forall_mem_map, List.length_cons,
              Nat.add_lt_add_iff_right]
          have hfront : behind (b :: msg) heap 0 = b := rfl
          rw [touched, List.forall_mem_cons, properPrefix_cons, hfront]
          by_cases hb : b = t
          · rw [if_pos hb, hrest]
            simp [hb]
          · rw [if_neg hb]
            simp [hb]

end MKart.ShortCircuit
