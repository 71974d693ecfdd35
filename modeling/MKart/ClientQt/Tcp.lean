import MKart.Lib.Bytes
import MKart.Lib.LittleEndian

/-!
# The Qt client's `Tcp`

`client-qt/tcp.cpp`: the state behind `Tcp` (`TcpPrivate`), its polling `update`, the
resumable parser `TcpPrivate::read_message`, and the public `Tcp` operations.

`QTcpSocket` is a library object.  The model keeps what the client sees of it, its
connection state and the received bytes that have not been read, and leaves the
behaviour of one `read` or `write` call a parameter (`SocketRead`, `SocketWrite`);
`QTcpSocket.read` and `QTcpSocket.write` are the documented behaviours.

States start at `Tcp::init`, so `m_sock` is never null here.  The address and the port
of `Tcp::connect` select a peer and nothing else, and are left out.
-/

namespace MKart.ClientQt

open MKart.Bytes MKart.LittleEndian

/-! ### The socket -/

/-- `QAbstractSocket::SocketState`. -/
inductive SocketState
  | unconnectedState
  | hostLookupState
  | connectingState
  | connectedState
  | boundState
  | listeningState
  | closingState
  deriving DecidableEq, Repr

/-- What the client can observe of a `QTcpSocket`: its state, and the bytes received on
the current connection that have not been read. -/
structure QTcpSocket where
  state : SocketState
  buf : List UInt8
  deriving DecidableEq, Repr

namespace QTcpSocket

def bytesAvailable (s : QTcpSocket) : ℕ := s.buf.length

/-- `connectToHost` starts a new connection attempt with an empty read buffer; it refuses
while an attempt or a connection is still there. -/
def connectToHost (s : QTcpSocket) : QTcpSocket :=
  match s.state with
  | .connectedState | .connectingState | .closingState | .hostLookupState => s
  | _ => { state := .hostLookupState, buf := [] }

/-- `abort` closes at once and discards what was not read. -/
def abort (_ : QTcpSocket) : QTcpSocket := { state := .unconnectedState, buf := [] }

end QTcpSocket

/-- A behaviour of `read(data, maxlen)`: the bytes it stores, `none` for a result of -1,
and the socket it leaves. -/
abbrev SocketRead := QTcpSocket → ℕ → Option (List UInt8) × QTcpSocket

/-- A behaviour of `write(data, len)`: the number of bytes accepted, `none` for -1. -/
abbrev SocketWrite := QTcpSocket → List UInt8 → Option ℕ

/-- The documented `read`: the first `min maxlen available` buffered bytes. -/
def QTcpSocket.read : SocketRead := fun s maxlen =>
  (some (s.buf.take maxlen), { s with buf := s.buf.drop maxlen })

/-- A socket takes what is written to it unless it is unconnected.  What is written before the
connection is up is kept until then. -/
def QTcpSocket.write : SocketWrite := fun s bytes =>
  if s.state = .unconnectedState then none else some bytes.length

/-! ### `TcpPrivate` -/

namespace Tcp

inductive State
  | disconnected
  | connecting
  | connected
  deriving DecidableEq, Repr

inductive Result
  | succeeded
  | errNotConnected
  | errInvalidArgument
  | errUnknown
  deriving DecidableEq, Repr

end Tcp

structure TcpPrivate where
  sock : QTcpSocket
  state : Tcp.State
  messageBuffer : List UInt8
  messageRemain : ℤ
  messageReady : Bool
  deriving DecidableEq, Repr

namespace TcpPrivate

/-- `TcpPrivate::init`, with the new and still unconnected socket. -/
def init : TcpPrivate where
  sock := { state := .unconnectedState, buf := [] }
  state := .disconnected
  messageBuffer := []
  messageRemain := 0
  messageReady := false

/-- The branch of `read_message` with `m_message_remain > 0`: one read towards the body. -/
def readBody (read : SocketRead) (d : TcpPrivate) : TcpPrivate :=
  match read d.sock d.messageRemain.toNat with
  | (none, sock) => { d with sock := sock, messageRemain := 0 }
  | (some bytes, sock) =>
      let off := (d.messageBuffer.length : ℤ) - d.messageRemain
      let remain := d.messageRemain - bytes.length
      { d with
        sock := sock
        messageBuffer := overwrite d.messageBuffer off.toNat bytes
        messageReady := if remain = 0 then true else d.messageReady
        messageRemain := remain }

/-- The other branch: one read of four bytes for the message length.  A read of fewer
bytes returns at once, with those bytes gone. -/
def readLength (read : SocketRead) (d : TcpPrivate) : TcpPrivate :=
  match read d.sock 4 with
  | (none, sock) => { d with sock := sock }
  | (some bytes, sock) =>
      if bytes.length = 4 then
        { d with
          sock := sock
          messageRemain := leValue bytes
          messageReady := false
          messageBuffer := List.replicate (leValue bytes) 0 }
      else { d with sock := sock }

/-- `TcpPrivate::read_message`. -/
def readMessage (read : SocketRead) (d : TcpPrivate) : TcpPrivate :=
  if d.state = .connected then
    if d.sock.bytesAvailable = 0 then d
    else if d.messageRemain > 0 then d.readBody read
    else d.readLength read
  else d

/-- The switch of `TcpPrivate::update`: the state `m_state` takes from the socket's. -/
def pollState : SocketState → Tcp.State
  | .connectingState => .connecting
  | .connectedState => .connected
  | _ => .disconnected

/-- `TcpPrivate::update`. -/
def update (read : SocketRead) (d : TcpPrivate) : TcpPrivate :=
  readMessage read { d with state := pollState d.sock.state }

end TcpPrivate

/-! ### The public operations -/

namespace Tcp

def update (read : SocketRead) (d : TcpPrivate) : TcpPrivate := d.update read

/-- `Tcp::disconnect`. -/
def disconnect (d : TcpPrivate) : TcpPrivate × Result :=
  ({ d with sock := d.sock.abort }, .succeeded)

/-- `Tcp::connect`. -/
def connect (d : TcpPrivate) : TcpPrivate × Result :=
  ({ d with sock := d.sock.connectToHost }, .succeeded)

/-- `Tcp::send_raw`: its result, and the bytes the socket accepted.  What `write` returns
is ignored by the source. -/
def sendRaw (write : SocketWrite) (d : TcpPrivate) (buffer : List UInt8) :
    Result × List UInt8 :=
  if d.state ≠ .connected then (.errNotConnected, [])
  else (.succeeded, buffer.take ((write d.sock buffer).getD 0))

/-- `Tcp::read_message`: the message handed out, if one is ready. -/
def readMessage (d : TcpPrivate) : TcpPrivate × Option (List UInt8) :=
  if d.messageReady = false then (d, none)
  else ({ d with messageReady := false }, some d.messageBuffer)

end Tcp

/-! ### What a poll of a connected socket does -/

namespace TcpPrivate

variable {d : TcpPrivate}

theorem update_not_connected (read : SocketRead) (h : d.sock.state ≠ .connectedState) :
    d.update read = { d with state := pollState d.sock.state } := by
  have hstate : pollState d.sock.state ≠ .connected := by
    cases hs : d.sock.state <;> simp_all [pollState]
  simp [update, readMessage, hstate]

/-- With nothing to read a poll of a connected socket changes only `m_state`. -/
theorem update_idle (read : SocketRead) (h : d.sock.state = .connectedState)
    (hbuf : d.sock.buf = []) : d.update read = { d with state := .connected } := by
  simp [update, readMessage, pollState, h, QTcpSocket.bytesAvailable, hbuf]

/-- At a frame boundary a poll that finds a whole length prefix takes it. -/
theorem update_length (h : d.sock.state = .connectedState) (hremain : d.messageRemain ≤ 0)
    (hbuf : 4 ≤ d.sock.buf.length) :
    d.update QTcpSocket.read =
      { sock := { d.sock with buf := d.sock.buf.drop 4 }
        state := .connected
        messageBuffer := List.replicate (leValue (d.sock.buf.take 4)) 0
        messageRemain := leValue (d.sock.buf.take 4)
        messageReady := false } := by
  have hne : d.sock.buf.length ≠ 0 := by omega
  have hremain' : ¬ d.messageRemain > 0 := by omega
  have htake : (d.sock.buf.take 4).length = 4 := by rw [List.length_take]; omega
  simp [update, readMessage, readLength, pollState, h, QTcpSocket.bytesAvailable, hremain',
    QTcpSocket.read, htake, List.ne_nil_of_length_pos (by omega : 0 < d.sock.buf.length)]

/-- At a frame boundary a poll that finds less than a length prefix loses it. -/
theorem update_short (h : d.sock.state = .connectedState) (hremain : d.messageRemain ≤ 0)
    (hne : d.sock.buf ≠ []) (hbuf : d.sock.buf.length < 4) :
    d.update QTcpSocket.read =
      { d with sock := { d.sock with buf := [] }, state := .connected } := by
  have hremain' : ¬ d.messageRemain > 0 := by omega
  have htake : d.sock.buf.take 4 = d.sock.buf := List.take_of_length_le (by omega)
  have hdrop : d.sock.buf.drop 4 = [] := List.drop_of_length_le (by omega)
  have hlen : d.sock.buf.length ≠ 4 := by omega
  simp [update, readMessage, readLength, pollState, h, QTcpSocket.bytesAvailable, hremain',
    QTcpSocket.read, htake, hdrop, hlen, hne]

/-- Inside a body a poll stores what is there, up to the end of the body. -/
theorem update_body (h : d.sock.state = .connectedState) (hremain : 0 < d.messageRemain)
    (hne : d.sock.buf ≠ []) :
    d.update QTcpSocket.read =
      let bytes := d.sock.buf.take d.messageRemain.toNat
      let remain := d.messageRemain - bytes.length
      { sock := { d.sock with buf := d.sock.buf.drop d.messageRemain.toNat }
        state := .connected
        messageBuffer :=
          overwrite d.messageBuffer ((d.messageBuffer.length : ℤ) - d.messageRemain).toNat bytes
        messageReady := if remain = 0 then true else d.messageReady
        messageRemain := remain } := by
  simp [update, readMessage, readBody, pollState, h, QTcpSocket.bytesAvailable, hremain,
    QTcpSocket.read, hne]

end TcpPrivate

end MKart.ClientQt
