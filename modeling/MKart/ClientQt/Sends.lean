import MKart.ClientQt.Tcp
import MKart.Lib.Runs

/-!
# What a successful send means

`Tcp::send_raw` asks `m_state`, which is the socket's state as the last `Tcp::update` found it, and
does not look at the result of `write`.  It reports success for bytes that no socket took if the
connection was lost in between, or given up by `Tcp::disconnect`.

A run reports no false success exactly if, at each send after an update that found the socket
connected, the socket still is (`honest_iff`).
-/

namespace MKart.ClientQt

open MKart.Runs

/-- A `write` that accepts what it is given while the socket is connected, and fails otherwise. -/
def QTcpSocket.writeConnected : SocketWrite := fun s bytes =>
  if s.state = .connectedState then some bytes.length else none

namespace Sends

inductive Op
  | connect
  | disconnect
  | update (read : SocketRead)
  | sendRaw (buffer : List UInt8)
  /-- Whatever happens on the network. -/
  | socket (sock : QTcpSocket)

/-- The `Tcp`, and the state of the socket that its last update saw. -/
structure Polled where
  tcp : TcpPrivate
  seen : SocketState

def init : Polled := ⟨TcpPrivate.init, .unconnectedState⟩

def step (s : Polled) : Op → Polled
  | .connect => { s with tcp := (Tcp.connect s.tcp).1 }
  | .disconnect => { s with tcp := (Tcp.disconnect s.tcp).1 }
  | .update read => ⟨Tcp.update read s.tcp, s.tcp.sock.state⟩
  | .sendRaw _ => s
  | .socket sock => { s with tcp := { s.tcp with sock := sock } }

/-- `send_raw` reports success only if the socket accepted the whole buffer. -/
def Honest (s : Polled) : Op → Prop
  | .sendRaw buffer =>
      (Tcp.sendRaw QTcpSocket.writeConnected s.tcp buffer).1 = .succeeded →
        QTcpSocket.writeConnected s.tcp.sock buffer = some buffer.length
  | _ => True

/-- At a send, a socket that was connected at the last update still is. -/
def StillConnected (s : Polled) : Op → Prop
  | .sendRaw _ => s.seen = .connectedState → s.tcp.sock.state = .connectedState
  | _ => True

instance (s : Polled) : (op : Op) → Decidable (Honest s op)
  | .sendRaw _ => inferInstanceAs (Decidable (_ → _))
  | .connect | .disconnect | .update _ | .socket _ => isTrue trivial

variable {s : Polled}

/-! ### What `m_state` is -/

theorem readMessage_state (read : SocketRead) (d : TcpPrivate) :
    (d.readMessage read).state = d.state := by
  unfold TcpPrivate.readMessage TcpPrivate.readBody TcpPrivate.readLength
  split
  · split
    · rfl
    · split
      · split <;> rfl
      · split
        · rfl
        · split <;> rfl
  · rfl

/-- `m_state` is what the last update saw. -/
def Follows (s : Polled) : Prop := s.tcp.state = TcpPrivate.pollState s.seen

theorem follows_step (s : Polled) (op : Op) (h : Follows s) : Follows (step s op) := by
  cases op with
  | update read =>
      show (TcpPrivate.readMessage read _).state = _
      exact readMessage_state read _
  | connect | disconnect | sendRaw buffer | socket sock => exact h

theorem pollState_eq_connected_iff (state : SocketState) :
    TcpPrivate.pollState state = .connected ↔ state = .connectedState := by
  cases state <;> decide

/-! ### One send -/

theorem sendRaw_succeeded_iff (write : SocketWrite) (d : TcpPrivate) (buffer : List UInt8) :
    (Tcp.sendRaw write d buffer).1 = .succeeded ↔ d.state = .connected := by
  rw [Tcp.sendRaw]
  split
  · rename_i hstate
    exact iff_of_false (by decide) hstate
  · rename_i hstate
    exact iff_of_true rfl (not_not.mp hstate)

theorem writeConnected_eq_some_iff (sock : QTcpSocket) (buffer : List UInt8) :
    QTcpSocket.writeConnected sock buffer = some buffer.length ↔ sock.state = .connectedState := by
  rw [QTcpSocket.writeConnected]
  split
  · rename_i hstate
    exact iff_of_true rfl hstate
  · rename_i hstate
    exact iff_of_false (fun h => by cases h) hstate

theorem honest_step_iff (h : Follows s) (op : Op) : Honest s op ↔ StillConnected s op := by
  cases op with
  | sendRaw buffer =>
      rw [Honest, StillConnected, sendRaw_succeeded_iff, writeConnected_eq_some_iff, h,
        pollState_eq_connected_iff]
  | connect | disconnect | update read | socket sock => exact Iff.rfl

/-! ### Runs -/

/-- **A run reports no false success exactly if the socket is still connected at each send that
follows an update which found it connected.** -/
theorem honest_iff (ops : List Op) :
    Meets step Honest init ops ↔ Meets step StillConnected init ops :=
  meets_congr follows_step (fun _ op h => honest_step_iff h op) rfl

/-- A send right after `Tcp::disconnect`. -/
theorem not_honest :
    ¬ Meets step Honest init
      [.connect, .socket ⟨.connectedState, []⟩, .update QTcpSocket.read, .disconnect,
        .sendRaw [1]] := by
  decide

end Sends

end MKart.ClientQt
