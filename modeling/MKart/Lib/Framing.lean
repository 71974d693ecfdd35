import MKart.Lib.LittleEndian

/-!
# Length-prefixed framing

A byte stream cut into frames: each frame is the length of its payload, as a `k`-byte
little-endian number, followed by the payload.  `stream k ps` is the stream that
carries the payloads `ps`.  A payload is announceable only if its length fits the
prefix, which is the invariant a `Payload k` carries.

`IsFrameOf k s m` says that `m` is the payload of a frame that starts at a frame
boundary of `s`; frame boundaries are unambiguous because a frame can be read off the
front of a string in only one way (`frame_append_inj`).
-/

namespace MKart.Framing

open MKart.LittleEndian

/-- A byte string short enough for a `k`-byte length prefix to announce it. -/
@[ext] structure Payload (k : ℕ) where
  bytes : List UInt8
  fits : bytes.length < 256 ^ k
  deriving DecidableEq

/-- One frame: the length of the payload, then the payload. -/
def frame (k : ℕ) (p : List UInt8) : List UInt8 := leBytes k p.length ++ p

/-- The string is one whole frame, with a length that its prefix can hold. -/
def IsFrame (k : ℕ) (s : List UInt8) : Prop := ∃ p : Payload k, s = frame k p.bytes

/-- The byte stream that carries the payloads `ps` in order. -/
def stream (k : ℕ) (ps : List (Payload k)) : List UInt8 := ps.flatMap fun p => frame k p.bytes

@[simp] theorem frame_length (k : ℕ) (p : List UInt8) : (frame k p).length = k + p.length := by
  simp [frame]

@[simp] theorem stream_nil (k : ℕ) : stream k [] = [] := rfl

@[simp] theorem stream_cons (k : ℕ) (p : Payload k) (ps : List (Payload k)) :
    stream k (p :: ps) = frame k p.bytes ++ stream k ps := by simp [stream]

theorem stream_singleton (k : ℕ) (p : Payload k) : stream k [p] = frame k p.bytes := by
  simp [stream]

@[simp] theorem stream_append (k : ℕ) (ps qs : List (Payload k)) :
    stream k (ps ++ qs) = stream k ps ++ stream k qs := by simp [stream]

/-- The prefix of a frame announces exactly the payload that follows it. -/
theorem leValue_frame_take {k : ℕ} (p : Payload k) (rest : List UInt8) :
    leValue ((frame k p.bytes ++ rest).take k) = p.bytes.length := by
  rw [frame, List.append_assoc, List.take_left' (leBytes_length k _),
    leValue_leBytes_of_lt p.fits]

theorem frame_drop {k : ℕ} (p rest : List UInt8) :
    (frame k p ++ rest).drop k = p ++ rest := by
  rw [frame, List.append_assoc, List.drop_left' (leBytes_length k _)]

/-- A frame is read off the front of a string in only one way. -/
theorem frame_append_inj {k : ℕ} {p q : Payload k} {r r' : List UInt8}
    (h : frame k p.bytes ++ r = frame k q.bytes ++ r') : p = q ∧ r = r' := by
  have hlen : p.bytes.length = q.bytes.length := by
    rw [← leValue_frame_take p r, ← leValue_frame_take q r', h]
  have hbody : p.bytes ++ r = q.bytes ++ r' := by
    rw [← frame_drop (k := k) p.bytes r, ← frame_drop (k := k) q.bytes r', h]
  obtain ⟨hp, hr⟩ := List.append_inj hbody hlen
  exact ⟨Payload.ext hp, hr⟩

theorem frame_ne_nil {k : ℕ} (hk : 0 < k) (p : List UInt8) : frame k p ≠ [] := by
  apply List.ne_nil_of_length_pos
  rw [frame_length]
  omega

/-- The payloads at the front of a stream are the ones it was made of. -/
theorem stream_prefix {k : ℕ} (hk : 0 < k) {ps qs : List (Payload k)} {rest : List UInt8}
    (h : stream k ps ++ rest = stream k qs) : ∃ rs, qs = ps ++ rs ∧ rest = stream k rs := by
  induction ps generalizing qs with
  | nil => exact ⟨qs, rfl, by simpa using h⟩
  | cons p ps ih =>
      cases qs with
      | nil =>
          have hnil : frame k p.bytes = [] := by
            simp only [stream_cons, stream_nil, List.append_eq_nil_iff] at h
            exact h.1.1
          exact absurd hnil (frame_ne_nil hk p.bytes)
      | cons q qs =>
          rw [stream_cons, stream_cons, List.append_assoc] at h
          obtain ⟨rfl, htail⟩ := frame_append_inj h
          obtain ⟨rs, rfl, hrest⟩ := ih htail
          exact ⟨rs, rfl, hrest⟩

/-- A length prefix at the front of a stream is the prefix of its first payload. -/
theorem stream_of_prefix {k n : ℕ} (hk : 0 < k) (hn : n < 256 ^ k) {qs : List (Payload k)}
    {rest : List UInt8} (h : leBytes k n ++ rest = stream k qs) :
    ∃ q rs, qs = q :: rs ∧ q.bytes.length = n ∧ rest = q.bytes ++ stream k rs := by
  cases qs with
  | nil =>
      have hlen := congrArg List.length h
      simp only [List.length_append, leBytes_length, stream_nil, List.length_nil] at hlen
      omega
  | cons q qs =>
      have hlen : n = q.bytes.length := by
        rw [← leValue_frame_take q (stream k qs), ← stream_cons, ← h,
          List.take_left' (leBytes_length k n), leValue_leBytes_of_lt hn]
      refine ⟨q, qs, rfl, hlen.symm, ?_⟩
      rw [stream_cons, frame, List.append_assoc, ← hlen] at h
      exact List.append_cancel_left h

/-- `m` is the payload of a frame that starts at a frame boundary of `s`. -/
def IsFrameOf (k : ℕ) (s m : List UInt8) : Prop :=
  ∃ (ps : List (Payload k)) (p : Payload k) (rest : List UInt8),
    m = p.bytes ∧ s = stream k ps ++ frame k p.bytes ++ rest

/-- A frame of a stream stays one when more bytes arrive. -/
theorem IsFrameOf.append {k : ℕ} {s m : List UInt8} (h : IsFrameOf k s m) (t : List UInt8) :
    IsFrameOf k (s ++ t) m := by
  obtain ⟨ps, p, rest, hm, hs⟩ := h
  exact ⟨ps, p, rest ++ t, hm, by rw [hs, List.append_assoc]⟩

theorem IsFrameOf.length_le {k : ℕ} {s m : List UInt8} (h : IsFrameOf k s m) :
    k + m.length ≤ s.length := by
  obtain ⟨ps, p, rest, hm, hs⟩ := h
  rw [hs, hm]
  simp only [List.length_append, frame_length]
  omega

end MKart.Framing
