import Mathlib.Data.List.Nodup

/-!
# Queues of distinct items

A first-in first-out queue that refuses an item it holds already.  An item put in and one taken out
again are the same one exactly if the queue was empty (`enqueue_dequeue`): behind an older item the
new one stays, and the older one comes out.
-/

namespace MKart

structure Fifo (ι : Type*) where
  items : List ι
  nodup : items.Nodup

namespace Fifo

variable {ι : Type*}

def empty : Fifo ι := ⟨[], List.nodup_nil⟩

/-- The queue with the item at its end, if it does not hold it. -/
def enqueue [DecidableEq ι] (q : Fifo ι) (i : ι) : Option (Fifo ι) :=
  if h : i ∈ q.items then none
  else some ⟨q.items ++ [i], List.nodup_append.mpr
    ⟨q.nodup, List.nodup_singleton i, fun _ ha b hb => by
      rintro rfl
      exact h (List.mem_singleton.mp hb ▸ ha)⟩⟩

/-- The oldest item, and the queue without it. -/
def dequeue (q : Fifo ι) : Option (ι × Fifo ι) :=
  q.items.head?.map fun i => (i, ⟨q.items.tail, q.nodup.tail⟩)

variable [DecidableEq ι] {q : Fifo ι} {i : ι}

theorem enqueue_of_notMem (h : i ∉ q.items) :
    ∃ q', q.enqueue i = some q' ∧ q'.items = q.items ++ [i] := ⟨_, dif_neg h, rfl⟩

omit [DecidableEq ι] in
theorem dequeue_of_items {rest : List ι} (h : q.items = i :: rest) :
    ∃ q', q.dequeue = some (i, q') ∧ q'.items = rest := by
  obtain ⟨items, nodup⟩ := q
  obtain rfl : items = i :: rest := h
  exact ⟨_, rfl, rfl⟩

/-- A new item goes in, and the oldest one comes out. -/
theorem enqueue_dequeue (h : i ∉ q.items) :
    ∃ q' oldest q'', q.enqueue i = some q' ∧ q'.items = q.items ++ [i] ∧
      q'.dequeue = some (oldest, q'') ∧ q.items ++ [i] = oldest :: q''.items := by
  obtain ⟨q', henqueue, hitems⟩ := enqueue_of_notMem h
  cases hsplit : q'.items with
  | nil =>
      rw [hitems] at hsplit
      exact absurd hsplit (List.append_ne_nil_of_right_ne_nil _ (List.cons_ne_nil _ _))
  | cons oldest rest =>
      obtain ⟨q'', hdequeue, hrest⟩ := dequeue_of_items hsplit
      exact ⟨q', oldest, q'', henqueue, hitems, hdequeue, by rw [← hitems, hsplit, hrest]⟩

end Fifo

end MKart
