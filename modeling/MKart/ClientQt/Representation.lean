import MKart.Lib.Runs
import MKart.ClientQt.Tcp

/-!
# The parser's fields under any socket

`m_message_buffer`, `m_message_remain` and `m_message_ready` are written on six exits of
`TcpPrivate::read_message` and on one of `Tcp::read_message`.  Here nothing is assumed of the
socket but that a `read` stores no more than it was asked for (`BoundedRead`): its state and the
number of bytes available may be anything at each call, and so may the result of each read.

A `Reader` is the `Tcp` object with the bytes that it has read from the socket since the last
complete length.  `Inv` ties the three fields to those bytes, and every call keeps it.
-/

namespace MKart.ClientQt.Representation

open MKart.Bytes MKart.LittleEndian MKart.Runs

/-- A behaviour of `QTcpSocket::read`: -1, or up to `maxlen` bytes. -/
structure BoundedRead where
  read : SocketRead
  length_le : ∀ sock maxlen bytes, (read sock maxlen).1 = some bytes → bytes.length ≤ maxlen

inductive Event
  | connect
  | disconnect
  | update (read : BoundedRead)
  | readMessage
  /-- What the socket is at the next call. -/
  | socket (sock : QTcpSocket)

structure Reader where
  tcp : TcpPrivate
  since : List UInt8

/-- `Tcp::init`, which leaves the buffer as it finds it. -/
def init (buffer : List UInt8) : Reader where
  tcp := { TcpPrivate.init with messageBuffer := buffer }
  since := []

/-- The bytes that a poll reads, and whether they are a complete length. -/
def fetched (read : SocketRead) (d : TcpPrivate) : List UInt8 × Bool :=
  if TcpPrivate.pollState d.sock.state = .connected ∧ d.sock.bytesAvailable ≠ 0 then
    if d.messageRemain > 0 then ((read d.sock d.messageRemain.toNat).1.getD [], false)
    else
      let bytes := (read d.sock 4).1.getD []
      (bytes, bytes.length == 4)
  else ([], false)

def step (s : Reader) : Event → Reader
  | .connect => { s with tcp := (Tcp.connect s.tcp).1 }
  | .disconnect => { s with tcp := (Tcp.disconnect s.tcp).1 }
  | .update read =>
      let f := fetched read.read s.tcp
      { tcp := Tcp.update read.read s.tcp
        since := if f.2 then [] else s.since ++ f.1 }
  | .readMessage => { s with tcp := (Tcp.readMessage s.tcp).1 }
  | .socket sock => { s with tcp := { s.tcp with sock := sock } }

/-- How much of the buffer has been stored. -/
def Reader.stored (s : Reader) : ℕ := s.tcp.messageBuffer.length - s.tcp.messageRemain.toNat

structure Represents (s : Reader) : Prop where
  nonneg : 0 ≤ s.tcp.messageRemain
  le_size : s.tcp.messageRemain ≤ s.tcp.messageBuffer.length
  unready : 0 < s.tcp.messageRemain → s.tcp.messageReady = false
  ready : s.tcp.messageReady = true → s.tcp.messageRemain = 0 ∧ s.tcp.messageBuffer ≠ []
  bytes : 0 < s.tcp.messageRemain ∨ s.tcp.messageReady = true →
    s.tcp.messageBuffer.take s.stored = s.since.take s.stored

/-- The two places that index the buffer: `size - remain` inside a body, with `remain` bytes from
there on to be stored, and element 0 of a message that is handed out. -/
structure IndexesInside (s : Reader) : Prop where
  body : 0 < s.tcp.messageRemain →
    s.stored < s.tcp.messageBuffer.length ∧
      (s.tcp.messageBuffer.length : ℤ) - s.tcp.messageRemain = s.stored ∧
      s.stored + s.tcp.messageRemain.toNat ≤ s.tcp.messageBuffer.length
  front : s.tcp.messageReady = true → 0 < s.tcp.messageBuffer.length

/-- What each call keeps.  Inside a body the bytes read are exactly those stored; once the message
is ready, more may have been read behind it. -/
structure Inv (s : Reader) : Prop where
  nonneg : 0 ≤ s.tcp.messageRemain
  le_size : s.tcp.messageRemain ≤ s.tcp.messageBuffer.length
  body : 0 < s.tcp.messageRemain →
    s.tcp.messageReady = false ∧ s.since = s.tcp.messageBuffer.take s.stored
  ready : s.tcp.messageReady = true →
    s.tcp.messageBuffer ≠ [] ∧ s.tcp.messageBuffer <+: s.since

theorem inv_init (buffer : List UInt8) : Inv (init buffer) where
  nonneg := le_refl 0
  le_size := Int.natCast_nonneg _
  body := fun h => absurd h (lt_irrefl 0)
  ready := fun h => absurd h Bool.false_ne_true

/-- The invariant does not look at the socket. -/
theorem Inv.socket {s : Reader} (h : Inv s) (sock : QTcpSocket) (state : Tcp.State) :
    Inv { s with tcp := { s.tcp with sock := sock, state := state } } :=
  ⟨h.nonneg, h.le_size, h.body, h.ready⟩

/-! ### The exits of a poll -/

section Poll

variable {s : Reader} {read : BoundedRead} {sock : QTcpSocket} {state : Tcp.State}
  {bytes : List UInt8}

/-- A read error inside a body gives the body up. -/
theorem Inv.bodyError (h : Inv s) (hpos : 0 < s.tcp.messageRemain) :
    Inv { s with tcp := { s.tcp with sock := sock, state := state, messageRemain := 0 } } where
  nonneg := le_refl 0
  le_size := Int.natCast_nonneg _
  body := fun h => absurd h (lt_irrefl 0)
  ready := fun hready => absurd ((h.body hpos).1.symm.trans hready) (by decide)

/-- Progress inside a body: the bytes go behind those already stored. -/
theorem Inv.bodyBytes (h : Inv s) (hpos : 0 < s.tcp.messageRemain)
    (hlen : bytes.length ≤ s.tcp.messageRemain.toNat) :
    Inv
      { tcp :=
          { s.tcp with
            sock := sock
            state := state
            messageBuffer := overwrite s.tcp.messageBuffer
              ((s.tcp.messageBuffer.length : ℤ) - s.tcp.messageRemain).toNat bytes
            messageReady :=
              if s.tcp.messageRemain - bytes.length = 0 then true else s.tcp.messageReady
            messageRemain := s.tcp.messageRemain - bytes.length }
        since := s.since ++ bytes } := by
  have hle := h.le_size
  obtain ⟨hunready, hsince⟩ := h.body hpos
  have hoff : ((s.tcp.messageBuffer.length : ℤ) - s.tcp.messageRemain).toNat = s.stored := by
    unfold Reader.stored
    omega
  have hstored : s.stored + s.tcp.messageRemain.toNat = s.tcp.messageBuffer.length := by
    unfold Reader.stored
    omega
  have hsize : (overwrite s.tcp.messageBuffer s.stored bytes).length =
      s.tcp.messageBuffer.length := overwrite_length _ _ _ (by omega)
  have htake : (overwrite s.tcp.messageBuffer s.stored bytes).take (s.stored + bytes.length) =
      s.since ++ bytes := by
    rw [overwrite_take _ _ _ (by omega), hsince]
  rw [hoff]
  constructor
  · show 0 ≤ s.tcp.messageRemain - bytes.length
    omega
  · show s.tcp.messageRemain - bytes.length ≤ _
    rw [hsize]
    omega
  · intro hmore
    have hmore : 0 < s.tcp.messageRemain - bytes.length := hmore
    constructor
    · show (if s.tcp.messageRemain - bytes.length = 0 then true else s.tcp.messageReady) = false
      rw [if_neg (by omega), hunready]
    · have hplace : (overwrite s.tcp.messageBuffer s.stored bytes).length -
          (s.tcp.messageRemain - bytes.length).toNat = s.stored + bytes.length := by
        rw [hsize]
        omega
      show s.since ++ bytes = (overwrite s.tcp.messageBuffer s.stored bytes).take
        ((overwrite s.tcp.messageBuffer s.stored bytes).length -
          (s.tcp.messageRemain - bytes.length).toNat)
      rw [hplace, htake]
  · intro hready
    have hdone : s.tcp.messageRemain - bytes.length = 0 := by
      by_contra hmore
      have hready : (if s.tcp.messageRemain - bytes.length = 0 then true
        else s.tcp.messageReady) = true := hready
      rw [if_neg hmore, hunready] at hready
      cases hready
    have hwhole : overwrite s.tcp.messageBuffer s.stored bytes = s.since ++ bytes := by
      rw [overwrite_to_end _ _ _ (by omega), hsince]
    constructor
    · apply List.ne_nil_of_length_pos
      show 0 < (overwrite s.tcp.messageBuffer s.stored bytes).length
      rw [hsize]
      omega
    · exact hwhole ▸ List.prefix_rfl

/-- A complete length starts a body of that size, with nothing of it read. -/
theorem Inv.length (s : Reader) :
    Inv
      { tcp :=
          { s.tcp with
            sock := sock
            state := state
            messageRemain := leValue bytes
            messageReady := false
            messageBuffer := List.replicate (leValue bytes) 0 }
        since := [] } where
  nonneg := Int.natCast_nonneg _
  le_size := by
    show (leValue bytes : ℤ) ≤ ((List.replicate (leValue bytes) (0 : UInt8)).length : ℕ)
    rw [List.length_replicate]
  body := by
    intro _
    refine ⟨rfl, ?_⟩
    show [] = (List.replicate (leValue bytes) (0 : UInt8)).take
      ((List.replicate (leValue bytes) (0 : UInt8)).length - (leValue bytes : ℤ).toNat)
    rw [List.length_replicate, Int.toNat_natCast, Nat.sub_self, List.take_zero]
  ready := fun h => absurd h Bool.false_ne_true

/-- Outside a body, bytes that are not a length change nothing but the socket. -/
theorem Inv.short (h : Inv s) (hremain : ¬ s.tcp.messageRemain > 0) :
    Inv { tcp := { s.tcp with sock := sock, state := state }, since := s.since ++ bytes } where
  nonneg := h.nonneg
  le_size := h.le_size
  body := fun hpos => absurd hpos hremain
  ready := fun hready =>
    ⟨(h.ready hready).1, (h.ready hready).2.trans (List.prefix_append _ _)⟩

end Poll

theorem inv_update {s : Reader} (h : Inv s) (read : BoundedRead) :
    Inv (step s (.update read)) := by
  unfold step fetched Tcp.update TcpPrivate.update TcpPrivate.readMessage
  dsimp only
  by_cases hreads : TcpPrivate.pollState s.tcp.sock.state = .connected ∧
      s.tcp.sock.bytesAvailable ≠ 0
  · rw [if_pos hreads, if_pos hreads.1, if_neg hreads.2]
    by_cases hpos : s.tcp.messageRemain > 0
    · rw [if_pos hpos, if_pos hpos, TcpPrivate.readBody]
      dsimp only
      have hlen := read.length_le s.tcp.sock s.tcp.messageRemain.toNat
      generalize read.read s.tcp.sock s.tcp.messageRemain.toNat = result at hlen
      obtain ⟨result, sock⟩ := result
      cases result with
      | none =>
          simp only [Option.getD_none, List.append_nil, Bool.false_eq_true, if_false]
          exact h.bodyError hpos
      | some bytes => exact h.bodyBytes hpos (hlen bytes rfl)
    · rw [if_neg hpos, if_neg hpos, TcpPrivate.readLength]
      dsimp only
      obtain ⟨result, sock⟩ := read.read s.tcp.sock 4
      cases result with
      | none => exact h.short hpos
      | some bytes =>
          by_cases hwhole : bytes.length = 4
          · simp only [Option.getD_some, hwhole, beq_self_eq_true, if_true]
            exact Inv.length s
          · simp only [Option.getD_some, beq_iff_eq, hwhole, if_false]
            exact h.short hpos
  · rw [if_neg hreads]
    have hidle : Inv { s with tcp :=
        { s.tcp with state := TcpPrivate.pollState s.tcp.sock.state } } := h.socket _ _
    split
    · rename_i hconn
      rw [if_pos (by
        by_contra hne
        exact hreads ⟨hconn, hne⟩)]
      simpa using hidle
    · simpa using hidle

theorem inv_readMessage {s : Reader} (h : Inv s) : Inv (step s .readMessage) := by
  unfold step Tcp.readMessage
  dsimp only
  split
  · exact h
  · exact ⟨h.nonneg, h.le_size, fun hpos => ⟨rfl, (h.body hpos).2⟩, fun hready => by cases hready⟩

theorem inv_step {s : Reader} (h : Inv s) (ev : Event) : Inv (step s ev) := by
  cases ev with
  | connect => exact h.socket _ _
  | disconnect => exact h.socket _ _
  | update read => exact inv_update h read
  | readMessage => exact inv_readMessage h
  | socket sock => exact h.socket sock _

/-! ### What the invariant says -/

theorem Inv.represents {s : Reader} (h : Inv s) : Represents s where
  nonneg := h.nonneg
  le_size := h.le_size
  unready := fun hpos => (h.body hpos).1
  ready := by
    intro hready
    have hnonneg := h.nonneg
    have hremain : ¬ 0 < s.tcp.messageRemain := fun hpos =>
      absurd ((h.body hpos).1.symm.trans hready) (by decide)
    exact ⟨by omega, (h.ready hready).1⟩
  bytes := by
    rintro (hpos | hready)
    · rw [(h.body hpos).2, List.take_take, Nat.min_self]
    · obtain ⟨more, hmore⟩ := (h.ready hready).2
      have hle : s.stored ≤ s.tcp.messageBuffer.length := Nat.sub_le _ _
      rw [← hmore, List.take_append_of_le_length hle]

theorem Inv.indexesInside {s : Reader} (h : Inv s) : IndexesInside s where
  body := by
    intro hpos
    have hle := h.le_size
    unfold Reader.stored
    omega
  front := fun hready => List.length_pos_iff.mpr (h.ready hready).1

/-- **In every state that any calls on any socket can reach, the three fields represent what was
read, and the buffer is indexed inside its bounds.** -/
theorem reachable_represents (buffer : List UInt8) (events : List Event) :
    Always step (fun s => Represents s ∧ IndexesInside s) (init buffer) events := by
  have hinv : Always step Inv (init buffer) events := always_of_step (fun _ ev h => inv_step h ev)
    (inv_init buffer)
  exact hinv.imp fun s h => ⟨h.represents, h.indexesInside⟩

end MKart.ClientQt.Representation
