import MKart.Lib.Runs
import MKart.ClientQt.Parser

/-!
# Reconnecting in the Qt client

Runs of the `Tcp` operations in any order over any number of connections.  A `Link` is the
`Tcp` object with what an observer of the network records: the bytes received on each
connection, latest connection first, and the messages `Tcp::read_message` has returned.

Nothing in `Tcp::connect` or `Tcp::disconnect` touches the parser, so a body left open by one
connection is continued with the first bytes of the next.  A run whose polls never do that,
and never find a partial length prefix (`BoundaryKept`), returns only whole frames of single
connections.
-/

namespace MKart.ClientQt.Reconnect

open MKart.Runs MKart.Framing

inductive Event
  | connect
  | disconnect
  | update
  | readMessage
  /-- The socket's own state changes; entering `ConnectedState` begins a connection. -/
  | socketState (state : SocketState)
  | arrive (bytes : List UInt8)

structure Link where
  tcp : TcpPrivate
  streams : List (List UInt8)
  messages : List (List UInt8)

def init : Link where
  tcp := TcpPrivate.init
  streams := []
  messages := []

/-- The link after the bytes of the current connection have become `stream`. -/
def received (stream : List UInt8) : List (List UInt8) → List (List UInt8)
  | [] => []
  | _ :: rest => stream :: rest

def current (s : Link) : List UInt8 := s.streams.headD []

def step (s : Link) : Event → Link
  | .connect => { s with tcp := (Tcp.connect s.tcp).1 }
  | .disconnect => { s with tcp := (Tcp.disconnect s.tcp).1 }
  | .update => { s with tcp := Tcp.update QTcpSocket.read s.tcp }
  | .readMessage =>
      { s with
        tcp := (Tcp.readMessage s.tcp).1
        messages := s.messages ++ (Tcp.readMessage s.tcp).2.toList }
  | .socketState state =>
      if state = .connectedState ∧ s.tcp.sock.state ≠ .connectedState then
        { s with tcp := { s.tcp with sock := ⟨.connectedState, []⟩ }, streams := [] :: s.streams }
      else { s with tcp := { s.tcp with sock := { s.tcp.sock with state := state } } }
  | .arrive bytes =>
      if s.tcp.sock.state = .connectedState then
        { s with
          tcp := { s.tcp with sock := { s.tcp.sock with buf := s.tcp.sock.buf ++ bytes } }
          streams := received (current s ++ bytes) s.streams }
      else s

/-- A poll that reads finds no partial length prefix, and does not read the first bytes of a
connection into a body that an earlier connection left open. -/
def BoundaryKept (s : Link) : Event → Prop
  | .update =>
      s.tcp.sock.state = .connectedState → s.tcp.sock.buf ≠ [] →
        s.tcp.LengthWhole ∧ (s.tcp.sock.buf = current s → s.tcp.messageRemain = 0)
  | _ => True

instance (s : Link) (e : Event) : Decidable (BoundaryKept s e) := by
  cases e <;> unfold BoundaryKept <;> infer_instance

/-- A message made of the bytes of one connection, from one of its frame boundaries on. -/
def FromOne (streams : List (List UInt8)) (m : List UInt8) : Prop :=
  ∃ s ∈ streams, IsFrameOf 4 s m

theorem FromOne.cons {streams : List (List UInt8)} {m : List UInt8} (h : FromOne streams m)
    (s : List UInt8) : FromOne (s :: streams) m := by
  obtain ⟨s', hmem, hframe⟩ := h
  exact ⟨s', List.mem_cons_of_mem s hmem, hframe⟩

theorem FromOne.extend {s m t : List UInt8} {rest : List (List UInt8)}
    (h : FromOne (s :: rest) m) : FromOne ((s ++ t) :: rest) m := by
  obtain ⟨s', hmem, hframe⟩ := h
  rcases List.mem_cons.mp hmem with rfl | hrest
  · exact ⟨s' ++ t, List.mem_cons_self, hframe.append t⟩
  · exact ⟨s', List.mem_cons_of_mem _ hrest, hframe⟩

/-- The place of the parser on the current connection: untouched, or `Parsed`. -/
def Placed (tcp : TcpPrivate) (stream : List UInt8) : Prop :=
  tcp.sock.buf = stream ∨
    ∃ past consumed, Parsed past consumed tcp ∧ stream = consumed ++ tcp.sock.buf

structure Isolated (s : Link) : Prop where
  nonneg : 0 ≤ s.tcp.messageRemain
  unready : 0 < s.tcp.messageRemain → s.tcp.messageReady = false
  placed : s.tcp.sock.state = .connectedState →
    ∃ stream rest, s.streams = stream :: rest ∧ Placed s.tcp stream
  ready : s.tcp.messageReady = true → FromOne s.streams s.tcp.messageBuffer
  messages : ∀ m ∈ s.messages, FromOne s.streams m

theorem isolated_init : Isolated init where
  nonneg := le_refl 0
  unready := fun h => absurd h (lt_irrefl 0)
  placed := fun h => absurd h (by decide)
  ready := fun h => absurd h (by decide)
  messages := fun m h => absurd h List.not_mem_nil

/-- A poll of a connection whose parser is in place completes only frames of it. -/
theorem isolated_poll {s : Link} (h : Isolated s) (hconn : s.tcp.sock.state = .connectedState)
    {stream : List UInt8} {rest : List (List UInt8)} (hstreams : s.streams = stream :: rest)
    {past : List (Payload 4)} {consumed : List UInt8} (hparsed : Parsed past consumed s.tcp)
    (hstream : stream = consumed ++ s.tcp.sock.buf) (hwhole : s.tcp.LengthWhole) :
    Isolated { s with tcp := s.tcp.update QTcpSocket.read } := by
  obtain ⟨bytes, ps, hbuf, hparsed', hpolled⟩ := poll_parsed hparsed hconn hwhole
  have hstream' : stream = consumed ++ bytes ++ (s.tcp.update QTcpSocket.read).sock.buf := by
    rw [hstream, hbuf, List.append_assoc]
  refine ⟨hparsed'.nonneg, ?_, fun _ => ⟨stream, rest, hstreams, Or.inr ⟨_, _, hparsed', hstream'⟩⟩,
    ?_, h.messages⟩
  · intro hpos
    cases hparsed' with
    | boundary remain _ => exact absurd hpos (by rw [remain]; exact lt_irrefl 0)
    | body _ _ _ unready _ => exact unready
  · intro hready
    show FromOne s.streams (s.tcp.update QTcpSocket.read).messageBuffer
    cases hpolled with
    | silent hold =>
        obtain ⟨hready', hsame⟩ := hold hready
        rw [hsame]
        exact h.ready hready'
    | keepAlive p empty unready => exact absurd (unready.symm.trans hready) (by simp)
    | message p nonempty _ buffer =>
        obtain ⟨part, hpart⟩ := hparsed'.stream_append
        rw [hstreams, buffer]
        refine ⟨stream, List.mem_cons_self, past, p,
          part ++ (s.tcp.update QTcpSocket.read).sock.buf, rfl, ?_⟩
        rw [hstream', hpart, stream_append, stream_singleton]
        simp only [List.append_assoc]

theorem isolated_update {s : Link} (h : Isolated s) (hkept : BoundaryKept s .update) :
    Isolated (step s .update) := by
  by_cases hconn : s.tcp.sock.state = .connectedState
  · obtain ⟨stream, rest, hstreams, hplaced⟩ := h.placed hconn
    by_cases hbuf : s.tcp.sock.buf = []
    · show Isolated { s with tcp := s.tcp.update QTcpSocket.read }
      rw [TcpPrivate.update_idle _ hconn hbuf]
      refine ⟨h.nonneg, h.unready, fun _ => ⟨stream, rest, hstreams, ?_⟩, h.ready, h.messages⟩
      rcases hplaced with huntouched | ⟨past, consumed, hparsed, hstream⟩
      · exact Or.inl huntouched
      · exact Or.inr ⟨past, consumed, hparsed.congr rfl rfl id, hstream⟩
    · obtain ⟨hwhole, hfresh⟩ := hkept hconn hbuf
      rcases hplaced with huntouched | ⟨past, consumed, hparsed, hstream⟩
      · -- the first bytes of the connection: the parser is at a boundary
        have hremain : s.tcp.messageRemain = 0 := by
          apply hfresh
          rw [huntouched, current, hstreams]
          rfl
        have hparsed : Parsed [] [] s.tcp := .boundary hremain rfl
        exact isolated_poll h hconn hstreams hparsed huntouched.symm hwhole
      · exact isolated_poll h hconn hstreams hparsed hstream hwhole
  · show Isolated { s with tcp := s.tcp.update QTcpSocket.read }
    rw [TcpPrivate.update_not_connected _ hconn]
    exact ⟨h.nonneg, h.unready, fun hc => absurd hc hconn, h.ready, h.messages⟩

theorem isolated_arrive {s : Link} (h : Isolated s) (bytes : List UInt8) :
    Isolated (step s (.arrive bytes)) := by
  simp only [step]
  split
  · rename_i hconn
    obtain ⟨stream, rest, hstreams, hplaced⟩ := h.placed hconn
    have hcurrent : current s = stream := by rw [current, hstreams]; rfl
    have hreceived : received (current s ++ bytes) s.streams = (stream ++ bytes) :: rest := by
      rw [hcurrent, hstreams]
      rfl
    rw [hreceived]
    refine ⟨h.nonneg, h.unready, fun _ => ⟨_, _, rfl, ?_⟩, ?_, ?_⟩
    · rcases hplaced with huntouched | ⟨past, consumed, hparsed, hstream⟩
      · exact Or.inl (congrArg (· ++ bytes) huntouched)
      · refine Or.inr ⟨past, consumed, hparsed.congr rfl rfl id, ?_⟩
        rw [hstream, List.append_assoc]
    · intro hready
      exact (hstreams ▸ h.ready hready).extend
    · intro m hm
      exact (hstreams ▸ h.messages m hm).extend
  · exact h

theorem isolated_readMessage {s : Link} (h : Isolated s) : Isolated (step s .readMessage) := by
  by_cases hready : s.tcp.messageReady = false
  · have hread : Tcp.readMessage s.tcp = (s.tcp, none) := by simp [Tcp.readMessage, hready]
    simpa [step, hread] using h
  · have htrue : s.tcp.messageReady = true := by simpa using hready
    have hread : Tcp.readMessage s.tcp =
        ({ s.tcp with messageReady := false }, some s.tcp.messageBuffer) := by
      simp [Tcp.readMessage, htrue]
    unfold step
    rw [hread]
    refine ⟨h.nonneg, fun _ => rfl, ?_, fun hfalse => absurd hfalse (by simp), ?_⟩
    · intro hconn
      obtain ⟨stream, rest, hstreams, hplaced⟩ := h.placed hconn
      refine ⟨stream, rest, hstreams, ?_⟩
      rcases hplaced with huntouched | ⟨past, consumed, hparsed, hstream⟩
      · exact Or.inl huntouched
      · exact Or.inr ⟨past, consumed, hparsed.congr rfl rfl fun _ => rfl, hstream⟩
    · intro m hm
      rcases List.mem_append.mp hm with hold | hnew
      · exact h.messages m hold
      · obtain rfl : m = s.tcp.messageBuffer := by simpa using hnew
        exact h.ready htrue

/-- A change of the connection that leaves the parser and the streams alone. -/
theorem Isolated.sock {s : Link} (h : Isolated s) (sock : QTcpSocket)
    (hsock : sock.state = .connectedState → sock = s.tcp.sock) :
    Isolated { s with tcp := { s.tcp with sock := sock } } := by
  refine ⟨h.nonneg, h.unready, ?_, h.ready, h.messages⟩
  intro hconn
  have hsame := hsock hconn
  rw [hsame] at hconn ⊢
  exact h.placed hconn

theorem connectToHost_connected (sock : QTcpSocket) :
    sock.connectToHost.state = .connectedState → sock.connectToHost = sock := by
  unfold QTcpSocket.connectToHost
  split <;> simp

theorem isolated_socketState {s : Link} (h : Isolated s) (state : SocketState) :
    Isolated (step s (.socketState state)) := by
  simp only [step]
  split
  · refine ⟨h.nonneg, h.unready, fun _ => ⟨[], s.streams, rfl, Or.inl rfl⟩, ?_, ?_⟩
    · intro hready
      exact (h.ready hready).cons []
    · intro m hm
      exact (h.messages m hm).cons []
  · rename_i hnew
    apply h.sock
    intro hstate
    have hstate' : state = .connectedState := hstate
    have hold : s.tcp.sock.state = .connectedState := by
      by_contra hne
      exact hnew ⟨hstate', hne⟩
    rw [hstate', ← hold]

/-- **Every event keeps the connections apart**, if polls keep the frame boundaries. -/
theorem step_isolated (s : Link) (e : Event) (h : Isolated s) (hkept : BoundaryKept s e) :
    Isolated (step s e) := by
  cases e with
  | connect => exact h.sock _ (connectToHost_connected s.tcp.sock)
  | disconnect => exact h.sock _ fun hc => absurd hc (by simp [QTcpSocket.abort])
  | update => exact isolated_update h hkept
  | readMessage => exact isolated_readMessage h
  | socketState state => exact isolated_socketState h state
  | arrive bytes => exact isolated_arrive h bytes

/-- **Isolation.**  In every run whose polls keep the frame boundaries, every message returned
consists of the bytes of a single connection, starting at a frame boundary of it. -/
theorem readMessage_isolated (es : List Event) (hkept : Meets step BoundaryKept init es) :
    Always step (fun s => ∀ m ∈ s.messages, FromOne s.streams m) init es :=
  (always_of_meets step_isolated isolated_init hkept).imp fun _ h => h.messages

/-- Two connections; the first ends at a frame boundary. -/
theorem readMessage_isolated_two :
    Always step (fun s => ∀ m ∈ s.messages, FromOne s.streams m) init
      [.connect, .socketState .connectedState, .arrive [2, 0, 0, 0, 97, 98], .update, .update,
        .readMessage, .disconnect, .connect, .socketState .connectedState,
        .arrive [1, 0, 0, 0, 99], .update, .update, .readMessage] :=
  readMessage_isolated _ (by decide)

/-- The first connection ends with two of the five bytes of a body.  The next connection's
length prefix completes it: the message is made of the bytes of both. -/
theorem readMessage_mixes_connections :
    ¬ Always step (fun s => ∀ m ∈ s.messages, FromOne s.streams m) init
      [.connect, .socketState .connectedState, .arrive [5, 0, 0, 0, 97, 98], .update, .update,
        .disconnect, .connect, .socketState .connectedState,
        .arrive [3, 0, 0, 0, 120, 121, 122], .update, .readMessage] := by
  intro h
  obtain ⟨s, hs, hframe⟩ := h.last [97, 98, 3, 0, 0] (by decide)
  have hlen := hframe.length_le
  have hshort : ∀ s ∈ [[3, 0, 0, 0, 120, 121, 122], [5, 0, 0, 0, 97, 98]],
      (s : List UInt8).length < 9 := by decide
  have := hshort s hs
  simp only [List.length_cons, List.length_nil] at hlen
  omega

end MKart.ClientQt.Reconnect
