import Mathlib.Data.List.Basic
import Mathlib.Data.List.Infix

/-!
# Words and separators

A text in which every word is followed by a separator, and a text cut into pieces.  A reader
that sees only a piece can at most find words that lie in it whole.  If all words are found,
each piece by itself must be a sequence of whole words and separators
(`exists_tokens_of_found`): by counting, the words found and the separators already make up the
length of the text.
-/

namespace MKart.Delimited

variable {α W : Type*}

inductive Token (W : Type*)
  | word (w : W)
  | sep
  deriving DecidableEq, Repr

/-- The tokens of a text: every word is followed by a separator. -/
def tokens (ws : List W) : List (Token W) := ws.flatMap fun w => [.word w, .sep]

/-- The words among some tokens. -/
def wordsOf : List (Token W) → List W
  | [] => []
  | .word w :: ts => w :: wordsOf ts
  | .sep :: ts => wordsOf ts

/-- The text of some tokens. -/
def textOf (txt : W → List α) (sep : α) : List (Token W) → List α
  | [] => []
  | .word w :: ts => txt w ++ textOf txt sep ts
  | .sep :: ts => sep :: textOf txt sep ts

theorem wordsOf_append (ts us : List (Token W)) :
    wordsOf (ts ++ us) = wordsOf ts ++ wordsOf us := by
  induction ts with
  | nil => rfl
  | cons t ts ih =>
      cases t with
      | word w => exact congrArg (w :: ·) ih
      | sep => exact ih

@[simp] theorem wordsOf_tokens (ws : List W) : wordsOf (tokens ws) = ws := by
  induction ws with
  | nil => rfl
  | cons w ws ih => exact congrArg (w :: ·) ih

theorem wordsOf_flatten (tss : List (List (Token W))) :
    wordsOf tss.flatten = (tss.map wordsOf).flatten := by
  induction tss with
  | nil => rfl
  | cons ts tss ih => rw [List.flatten_cons, wordsOf_append, ih, List.map_cons, List.flatten_cons]

section Text

variable (txt : W → List α) (sep : α)

theorem textOf_append (ts us : List (Token W)) :
    textOf txt sep (ts ++ us) = textOf txt sep ts ++ textOf txt sep us := by
  induction ts with
  | nil => rfl
  | cons t ts ih =>
      cases t with
      | word w => simp only [List.cons_append, textOf, ih, List.append_assoc]
      | sep => simp only [List.cons_append, textOf, ih]

theorem textOf_flatten (tss : List (List (Token W))) :
    textOf txt sep tss.flatten = (tss.map (textOf txt sep)).flatten := by
  induction tss with
  | nil => rfl
  | cons ts tss ih => rw [List.flatten_cons, textOf_append, ih, List.map_cons, List.flatten_cons]

/-- The words `ws` lie in `t` one after the other, without overlapping. -/
def OccurIn : List W → List α → Prop
  | [], _ => True
  | w :: ws, t => ∃ gap rest, t = gap ++ (txt w ++ rest) ∧ OccurIn ws rest

theorem OccurIn.of_prefix {ws vs : List W} {t : List α} (h : OccurIn txt ws t) (hvs : vs <+: ws) :
    OccurIn txt vs t := by
  induction vs generalizing ws t with
  | nil => trivial
  | cons v vs ih =>
      obtain ⟨rest, rfl⟩ := hvs
      obtain ⟨gap, behind, ht, hbehind⟩ := h
      exact ⟨gap, behind, ht, ih hbehind (List.prefix_append vs rest)⟩

/-- The words of some tokens lie in their text. -/
theorem occurIn_textOf (ts : List (Token W)) : OccurIn txt (wordsOf ts) (textOf txt sep ts) := by
  suffices h : ∀ gap, OccurIn txt (wordsOf ts) (gap ++ textOf txt sep ts) from h []
  induction ts with
  | nil => exact fun _ => trivial
  | cons t ts ih =>
      intro gap
      cases t with
      | word w => exact ⟨gap, textOf txt sep ts, rfl, ih []⟩
      | sep =>
          rw [wordsOf, textOf, ← List.singleton_append, ← List.append_assoc]
          exact ih _

/-- The total length of some words. -/
def cover (ws : List W) : ℕ := (ws.flatMap txt).length

theorem cover_cons (w : W) (ws : List W) : cover txt (w :: ws) = (txt w).length + cover txt ws := by
  rw [cover, List.flatMap_cons, List.length_append, cover]

theorem cover_append (ws vs : List W) : cover txt (ws ++ vs) = cover txt ws + cover txt vs := by
  rw [cover, List.flatMap_append, List.length_append, cover, cover]

theorem length_textOf_tokens (ws : List W) :
    (textOf txt sep (tokens ws)).length = cover txt ws + ws.length := by
  induction ws with
  | nil => rfl
  | cons w ws ih =>
      have htokens : tokens (w :: ws) = .word w :: .sep :: tokens ws := rfl
      rw [htokens, textOf, textOf, List.length_append, List.length_cons, ih, cover_cons,
        List.length_cons]
      omega

end Text

section Unique

variable {txt : W → List α} {sep : α} (hsep : ∀ w, sep ∉ txt w)
include hsep

/-- A text that starts with a word does not start with a separator. -/
theorem word_append_ne (hne : ∀ w, txt w ≠ []) (w : W) (l l' : List α) :
    txt w ++ l ≠ sep :: l' := by
  obtain ⟨c, cs, hw⟩ := List.exists_cons_of_ne_nil (hne w)
  intro h
  rw [hw, List.cons_append] at h
  obtain ⟨rfl, -⟩ := List.cons_eq_cons.mp h
  exact absurd (hw ▸ List.mem_cons_self) (hsep w)

/-- Tokens with the words `ws` and the text of `tokens ws` are `tokens ws`. -/
theorem eq_tokens (hne : ∀ w, txt w ≠ []) {ws : List W} {ts : List (Token W)}
    (hwords : wordsOf ts = ws) (htext : textOf txt sep ts = textOf txt sep (tokens ws)) :
    ts = tokens ws := by
  induction ws generalizing ts with
  | nil =>
      cases ts with
      | nil => rfl
      | cons t ts =>
          cases t with
          | word w => exact absurd hwords (List.cons_ne_nil _ _)
          | sep => exact absurd htext (List.cons_ne_nil _ _)
  | cons w ws ih =>
      have htokens : tokens (w :: ws) = .word w :: .sep :: tokens ws := rfl
      rw [htokens, textOf, textOf] at htext
      cases ts with
      | nil => exact absurd hwords.symm (List.cons_ne_nil _ _)
      | cons t ts =>
          cases t with
          | sep => exact absurd htext.symm (word_append_ne hsep hne w _ _)
          | word v =>
              obtain ⟨rfl, hrest⟩ := List.cons_eq_cons.mp hwords
              have hbehind : textOf txt sep ts = sep :: textOf txt sep (tokens ws) :=
                List.append_cancel_left htext
              cases ts with
              | nil => exact absurd hbehind.symm (List.cons_ne_nil _ _)
              | cons u ts =>
                  cases u with
                  | word v' => exact absurd hbehind (word_append_ne hsep hne v' _ _)
                  | sep =>
                      have hts : ts = tokens ws := ih hrest (List.cons_eq_cons.mp hbehind).2
                      rw [hts, htokens]

end Unique

/-- A piece of nothing but separators. -/
theorem exists_tokens_of_seps [DecidableEq α] (txt : W → List α) (sep : α) {l : List α}
    (h : l.length ≤ l.count sep) :
    ∃ ts : List (Token W), textOf txt sep ts = l ∧ wordsOf ts = [] := by
  induction l with
  | nil => exact ⟨[], rfl, rfl⟩
  | cons a l ih =>
      have hle := List.count_le_length (a := sep) (l := l)
      by_cases ha : a = sep
      · subst ha
        rw [List.count_cons_self, List.length_cons] at h
        obtain ⟨ts, hts, hw⟩ := ih (by omega)
        exact ⟨.sep :: ts, congrArg (a :: ·) hts, hw⟩
      · rw [List.count_cons_of_ne ha, List.length_cons] at h
        omega

section Counting

variable [DecidableEq α] {txt : W → List α} {sep : α} (hsep : ∀ w, sep ∉ txt w)
include hsep

theorem count_textOf_tokens (ws : List W) : (textOf txt sep (tokens ws)).count sep = ws.length := by
  induction ws with
  | nil => rfl
  | cons w ws ih =>
      have htokens : tokens (w :: ws) = .word w :: .sep :: tokens ws := rfl
      rw [htokens, textOf, textOf, List.count_append, List.count_eq_zero_of_not_mem (hsep w),
        List.count_cons_self, ih, List.length_cons]
      omega

/-- The words found in a piece and its separators do not overlap. -/
theorem cover_le {ws : List W} {t : List α} (h : OccurIn txt ws t) :
    cover txt ws + t.count sep ≤ t.length := by
  induction ws generalizing t with
  | nil =>
      have hle := List.count_le_length (a := sep) (l := t)
      simpa [cover] using hle
  | cons w ws ih =>
      obtain ⟨gap, rest, rfl, hrest⟩ := h
      have hgap := List.count_le_length (a := sep) (l := gap)
      have hrest := ih hrest
      rw [cover_cons, List.count_append, List.count_append, List.count_eq_zero_of_not_mem (hsep w),
        List.length_append, List.length_append]
      omega

/-- A piece that the words found in it and its separators fill is made of whole tokens. -/
theorem exists_tokens_of_filled {ws : List W} {t : List α} (h : OccurIn txt ws t)
    (hfilled : t.length ≤ cover txt ws + t.count sep) :
    ∃ ts, textOf txt sep ts = t ∧ wordsOf ts = ws := by
  induction ws generalizing t with
  | nil =>
      apply exists_tokens_of_seps
      simpa [cover] using hfilled
  | cons w ws ih =>
      obtain ⟨gap, rest, rfl, hrest⟩ := h
      have hle := cover_le hsep hrest
      have hgaple := List.count_le_length (a := sep) (l := gap)
      rw [cover_cons, List.count_append, List.count_append, List.count_eq_zero_of_not_mem (hsep w),
        List.length_append, List.length_append] at hfilled
      obtain ⟨gs, hgs, hgw⟩ := exists_tokens_of_seps txt sep (l := gap) (by omega)
      obtain ⟨ts, hts, htw⟩ := ih hrest (by omega)
      refine ⟨gs ++ .word w :: ts, ?_, ?_⟩
      · rw [textOf_append, textOf, hgs, hts]
      · rw [wordsOf_append, wordsOf, hgw, htw, List.nil_append]

/-- The words found in all pieces and their separators do not overlap either. -/
theorem cover_le_flatten {bs : List (List α)} {wss : List (List W)}
    (h : List.Forall₂ (fun b ws => OccurIn txt ws b) bs wss) :
    cover txt wss.flatten + bs.flatten.count sep ≤ bs.flatten.length := by
  induction h with
  | nil => exact Nat.le_refl 0
  | cons hfound _ ih =>
      have hle := cover_le hsep hfound
      simp only [List.flatten_cons, cover_append, List.count_append, List.length_append]
      omega

/-- If the words and the separators fill all pieces together, they fill each piece. -/
theorem exists_tokens_of_filled_flatten {bs : List (List α)} {wss : List (List W)}
    (h : List.Forall₂ (fun b ws => OccurIn txt ws b) bs wss)
    (hfilled : bs.flatten.length ≤ cover txt wss.flatten + bs.flatten.count sep) :
    ∃ tss : List (List (Token W)), bs = tss.map (textOf txt sep) ∧ wss = tss.map wordsOf := by
  induction h with
  | nil => exact ⟨[], rfl, rfl⟩
  | @cons b ws bs wss hfound hrest ih =>
      have hle := cover_le hsep hfound
      have hlerest := cover_le_flatten hsep hrest
      simp only [List.flatten_cons, cover_append, List.count_append, List.length_append] at hfilled
      obtain ⟨ts, hts, hw⟩ := exists_tokens_of_filled hsep hfound (by omega)
      obtain ⟨tss, htss, hws⟩ := ih (by omega)
      exact ⟨ts :: tss, by rw [List.map_cons, hts, htss], by rw [List.map_cons, hw, hws]⟩

/-- **If all words of a text are found in its pieces, in order, then no cut falls into a word.** -/
theorem exists_tokens_of_found (hne : ∀ w, txt w ≠ []) {bs : List (List α)} {wss : List (List W)}
    (hfound : List.Forall₂ (fun b ws => OccurIn txt ws b) bs wss)
    (htext : bs.flatten = textOf txt sep (tokens wss.flatten)) :
    ∃ tss : List (List (Token W)),
      tss.flatten = tokens wss.flatten ∧ bs = tss.map (textOf txt sep) := by
  have hfilled : bs.flatten.length ≤ cover txt wss.flatten + bs.flatten.count sep := by
    rw [htext, length_textOf_tokens, count_textOf_tokens hsep]
  obtain ⟨tss, hbs, hwss⟩ := exists_tokens_of_filled_flatten hsep hfound hfilled
  refine ⟨tss, eq_tokens hsep hne ?_ ?_, hbs⟩
  · rw [wordsOf_flatten, ← hwss]
  · rw [textOf_flatten, ← hbs, htext]

end Counting

end MKart.Delimited
