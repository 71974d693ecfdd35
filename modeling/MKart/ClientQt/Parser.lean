import MKart.Lib.Framing
import MKart.ClientQt.Tcp

/-!
# What the resumable parser has read

`TcpPrivate::read_message` keeps its place in three fields.  `Parsed past consumed d`
states what they mean: of the bytes `consumed` that the polls of one connection have taken
off the socket, the payloads `past` are complete, and the rest is the length prefix and the
stored part of one more body.  It is computed from the bytes alone, not from the polls, so
it says the same however the bytes were cut.

`poll_parsed` is the only step lemma: a poll that does not find a partial length prefix
keeps `Parsed` for the bytes it took, and completes at most one payload (`Polled`).
-/

namespace MKart.ClientQt

open MKart.Bytes MKart.LittleEndian MKart.Framing

namespace TcpPrivate

/-- Not a partial length prefix: at a frame boundary there is nothing to read, or at least
the four bytes of a length. -/
def LengthWhole (d : TcpPrivate) : Prop :=
  d.messageRemain ≤ 0 → d.sock.buf = [] ∨ 4 ≤ d.sock.buf.length

instance (d : TcpPrivate) : Decidable d.LengthWhole :=
  inferInstanceAs (Decidable (_ → _))

end TcpPrivate

open TcpPrivate

/-- The place of the parser after `consumed`: at a frame boundary behind the payloads
`past`, or inside the body of one more frame. -/
inductive Parsed (past : List (Payload 4)) (consumed : List UInt8) (d : TcpPrivate) : Prop
  | boundary (remain : d.messageRemain = 0) (bytes : consumed = stream 4 past)
  | body (pos : 0 < d.messageRemain) (le : d.messageRemain ≤ d.messageBuffer.length)
      (fits : d.messageBuffer.length < 256 ^ 4) (unready : d.messageReady = false)
      (bytes : consumed = stream 4 past ++ leBytes 4 d.messageBuffer.length ++
        d.messageBuffer.take (d.messageBuffer.length - d.messageRemain.toNat))

theorem Parsed.nonneg {past : List (Payload 4)} {consumed : List UInt8} {d : TcpPrivate}
    (h : Parsed past consumed d) : 0 ≤ d.messageRemain := by
  cases h with
  | boundary remain _ => omega
  | body pos _ _ _ _ => omega

/-- Only the parser's three fields count for its place. -/
theorem Parsed.congr {past : List (Payload 4)} {consumed : List UInt8} {d d' : TcpPrivate}
    (h : Parsed past consumed d) (hremain : d'.messageRemain = d.messageRemain)
    (hbuffer : d'.messageBuffer = d.messageBuffer)
    (hready : d.messageReady = false → d'.messageReady = false) : Parsed past consumed d' := by
  cases h with
  | boundary remain bytes => exact .boundary (hremain.trans remain) bytes
  | body pos le fits unready bytes =>
      rw [← hremain, ← hbuffer] at *
      exact .body pos le fits (hready unready) bytes

/-- What a poll that took the parser from `d` to `d'` has completed. -/
inductive Polled (d d' : TcpPrivate) : List (Payload 4) → Prop
  | silent (h : d'.messageReady = true →
      d.messageReady = true ∧ d'.messageBuffer = d.messageBuffer) : Polled d d' []
  | keepAlive (p : Payload 4) (empty : p.bytes = []) (unready : d'.messageReady = false) :
      Polled d d' [p]
  | message (p : Payload 4) (nonempty : p.bytes ≠ []) (ready : d'.messageReady = true)
      (buffer : d'.messageBuffer = p.bytes) : Polled d d' [p]

section Poll

variable {past : List (Payload 4)} {consumed : List UInt8} {d : TcpPrivate}

/-- A poll at a frame boundary takes the next length, and with it a whole keep-alive. -/
theorem poll_length (hconn : d.sock.state = .connectedState) (hremain : d.messageRemain = 0)
    (hbytes : consumed = stream 4 past) (hlen : 4 ≤ d.sock.buf.length) :
    ∃ ps, Parsed (past ++ ps) (consumed ++ d.sock.buf.take 4) (d.update QTcpSocket.read) ∧
      Polled d (d.update QTcpSocket.read) ps := by
  have htake : (d.sock.buf.take 4).length = 4 := by rw [List.length_take]; omega
  have hlt : leValue (d.sock.buf.take 4) < 256 ^ 4 := by
    have h := leValue_lt (d.sock.buf.take 4)
    rwa [htake] at h
  have hprefix : leBytes 4 (leValue (d.sock.buf.take 4)) = d.sock.buf.take 4 := by
    have h := leBytes_leValue (d.sock.buf.take 4)
    rwa [htake] at h
  rw [update_length hconn hremain.le hlen]
  generalize leValue (d.sock.buf.take 4) = n at hlt hprefix
  rcases Nat.eq_zero_or_pos n with rfl | hn
  · -- a keep-alive is complete with its length
    refine ⟨[⟨[], by simp⟩], .boundary (by simp) ?_, .keepAlive _ rfl rfl⟩
    rw [hbytes, stream_append, ← hprefix]
    rfl
  · refine ⟨[], .body (by simpa using hn) (by simp) (by simpa using hlt) rfl ?_, .silent ?_⟩
    · simp only [List.length_replicate, List.append_nil, Int.toNat_natCast, Nat.sub_self,
        List.take_zero, hprefix, hbytes]
    · intro h
      exact absurd h (by simp)

/-- A poll inside a body stores what is there, up to the end of the body. -/
theorem poll_body (hconn : d.sock.state = .connectedState) (hpos : 0 < d.messageRemain)
    (hle : d.messageRemain ≤ d.messageBuffer.length) (hfits : d.messageBuffer.length < 256 ^ 4)
    (hunready : d.messageReady = false)
    (hbytes : consumed = stream 4 past ++ leBytes 4 d.messageBuffer.length ++
      d.messageBuffer.take (d.messageBuffer.length - d.messageRemain.toNat))
    (hne : d.sock.buf ≠ []) :
    ∃ ps, Parsed (past ++ ps) (consumed ++ d.sock.buf.take d.messageRemain.toNat)
        (d.update QTcpSocket.read) ∧ Polled d (d.update QTcpSocket.read) ps := by
  obtain ⟨r, hr⟩ : ∃ r : ℕ, d.messageRemain = r := ⟨_, (Int.toNat_of_nonneg hpos.le).symm⟩
  rw [update_body hconn hpos hne]
  simp only [hr, Int.toNat_natCast, Nat.cast_pos, Nat.cast_le] at hpos hle hbytes ⊢
  have hoff : ((d.messageBuffer.length : ℤ) - r).toNat = d.messageBuffer.length - r := by omega
  rw [hoff]
  have hget : (d.sock.buf.take r).length ≤ r := by rw [List.length_take]; omega
  generalize d.sock.buf.take r = bytes at hget
  have hbuffer : (overwrite d.messageBuffer (d.messageBuffer.length - r) bytes).length =
      d.messageBuffer.length := overwrite_length _ _ _ (by omega)
  have hstored : (overwrite d.messageBuffer (d.messageBuffer.length - r) bytes).take
      (d.messageBuffer.length - r + bytes.length) =
        d.messageBuffer.take (d.messageBuffer.length - r) ++ bytes :=
    overwrite_take _ _ _ (by omega)
  have hend : bytes.length = r → overwrite d.messageBuffer (d.messageBuffer.length - r) bytes =
      d.messageBuffer.take (d.messageBuffer.length - r) ++ bytes :=
    fun hall => overwrite_to_end _ _ _ (by omega)
  generalize overwrite d.messageBuffer (d.messageBuffer.length - r) bytes = buffer
    at hbuffer hstored hend
  rcases Nat.lt_or_ge bytes.length r with hpart | hall
  · -- part of the body: the stored prefix grew by the bytes read
    have hrest : ((r : ℤ) - bytes.length).toNat = r - bytes.length := by omega
    refine ⟨[], .body ?_ ?_ ?_ ?_ ?_, .silent ?_⟩
    · show (0 : ℤ) < r - bytes.length
      omega
    · show (r : ℤ) - bytes.length ≤ buffer.length
      omega
    · exact hbuffer ▸ hfits
    · show (if (r : ℤ) - bytes.length = 0 then true else d.messageReady) = false
      rw [if_neg (by omega), hunready]
    · show consumed ++ bytes = _
      rw [hrest, hbuffer,
        show d.messageBuffer.length - (r - bytes.length) =
          d.messageBuffer.length - r + bytes.length by omega,
        hstored, hbytes, List.append_nil]
      simp only [List.append_assoc]
    · intro h
      have h' : (if (r : ℤ) - bytes.length = 0 then true else d.messageReady) = true := h
      rw [if_neg (by omega), hunready] at h'
      exact absurd h' (by simp)
  · -- the whole body: the buffer is the payload
    have hall' : bytes.length = r := le_antisymm hget hall
    have hwhole := hend hall'
    refine ⟨[⟨buffer, hbuffer ▸ hfits⟩], .boundary ?_ ?_, .message _ ?_ ?_ rfl⟩
    · show (r : ℤ) - bytes.length = 0
      omega
    · rw [stream_append, stream_singleton]
      show consumed ++ bytes = stream 4 past ++ (leBytes 4 buffer.length ++ buffer)
      rw [hbuffer, hbytes, hwhole]
      simp only [List.append_assoc]
    · exact List.ne_nil_of_length_pos (by show 0 < buffer.length; omega)
    · show (if (r : ℤ) - bytes.length = 0 then true else d.messageReady) = true
      rw [if_pos (by omega)]

/-- A poll reads from the socket and leaves its connection alone. -/
theorem TcpPrivate.update_sock_state (d : TcpPrivate) (hconn : d.sock.state = .connectedState) :
    (d.update QTcpSocket.read).sock.state = .connectedState := by
  unfold update readMessage readBody readLength QTcpSocket.read
  split
  · split
    · exact hconn
    · split
      · exact hconn
      · dsimp only
        split <;> exact hconn
  · exact hconn

/-- **One poll of a connected socket.**  It takes some bytes off the socket, keeps the
parser's place for them, and completes at most one payload. -/
theorem poll_parsed (h : Parsed past consumed d) (hconn : d.sock.state = .connectedState)
    (hwhole : d.LengthWhole) :
    ∃ bytes ps, d.sock.buf = bytes ++ (d.update QTcpSocket.read).sock.buf ∧
      Parsed (past ++ ps) (consumed ++ bytes) (d.update QTcpSocket.read) ∧
      Polled d (d.update QTcpSocket.read) ps := by
  by_cases hbuf : d.sock.buf = []
  · rw [update_idle _ hconn hbuf]
    refine ⟨[], [], by simp [hbuf], ?_, .silent fun hready => ⟨hready, rfl⟩⟩
    rw [List.append_nil, List.append_nil]
    exact h.congr rfl rfl id
  · cases h with
    | boundary remain bytes =>
        have hlen : 4 ≤ d.sock.buf.length := (hwhole remain.le).resolve_left hbuf
        obtain ⟨ps, hparsed, hpolled⟩ := poll_length hconn remain bytes hlen
        refine ⟨d.sock.buf.take 4, ps, ?_, hparsed, hpolled⟩
        rw [update_length hconn remain.le hlen, List.take_append_drop]
    | body pos le fits unready bytes =>
        obtain ⟨ps, hparsed, hpolled⟩ := poll_body hconn pos le fits unready bytes hbuf
        refine ⟨d.sock.buf.take d.messageRemain.toNat, ps, ?_, hparsed, hpolled⟩
        rw [update_body hconn pos hbuf, List.take_append_drop]

theorem Parsed.stream_append {past : List (Payload 4)} {consumed : List UInt8} {d : TcpPrivate}
    (h : Parsed past consumed d) : ∃ part, consumed = stream 4 past ++ part := by
  cases h with
  | boundary _ bytes => exact ⟨[], by rw [bytes, List.append_nil]⟩
  | body _ _ _ _ bytes => exact ⟨_, by rw [bytes, List.append_assoc]⟩

/-- Bytes that complete no payload leave the parser inside a body. -/
theorem Parsed.inside {bytes : List UInt8} {d' : TcpPrivate} (h : Parsed past consumed d)
    (h' : Parsed past (consumed ++ bytes) d') (hne : bytes ≠ []) : 0 < d'.messageRemain := by
  cases h' with
  | body pos _ _ _ _ => exact pos
  | boundary _ hbytes =>
      obtain ⟨part, rfl⟩ := h.stream_append
      rw [List.append_assoc] at hbytes
      have hnil := List.append_right_eq_self.mp hbytes
      exact absurd (List.append_eq_nil_iff.mp hnil).2 hne

end Poll

end MKart.ClientQt
