import MKart.Server.Video
import MKart.System.ScriptCommands

/-!
# The capture flag on both sides

The client's `FpvContext::m_capture` says what the user wants, the server's `V4L2::m_capture`
what the server does.  They are kept in step by the command strings alone.  `Session` is both
machines with the commands in flight between them, connection by connection, and `step` one
action of either side or of the network.

Connections are numbered in the order in which the client begins them.  The server's
`sockPeer` holds the connection `peer` while its state is connected.
-/

namespace MKart.System.CaptureFlag

open MKart.Runs MKart.ClientQt MKart.Server
open MKart.Server.RpiServer MKart.Server.Scripts
open MKart.Server.Video (accepts)

/-! ### The server's flag -/

/-- The flag after some calls. -/
def flagAfter (flag : Bool) (calls : List ScriptCall) : Bool :=
  calls.foldl (fun flag c =>
    match c with
    | .v4l2SetCapturing enabled => enabled
    | _ => flag) flag

/-- The calls that the script in progress has left. -/
def callsLeft : Phase → List ScriptCall
  | .script _ rest => rest
  | _ => []

/-- The calls that a step receives. -/
def callsReceived (s : RpiServer) (e : Env) : List ScriptCall :=
  ((received s.sockPeer s e).map (e, ·)).toList.flatMap evaluated

/-- The device calls of a capture succeed and deliver a JPEG frame. -/
def DeviceWorks (g : Grab) : Prop := g.qbuf = true ∧ g.dqbuf ≠ none ∧ V4L2.isJpeg g.memory = true

instance (g : Grab) : Decidable (DeviceWorks g) := inferInstanceAs (Decidable (_ ∧ _))

theorem flagAfter_append (flag : Bool) (calls more : List ScriptCall) :
    flagAfter flag (calls ++ more) = flagAfter (flagAfter flag calls) more := List.foldl_append

section Server

variable {s : RpiServer} {e : Env}

/-- After a send the server is connected only if the send succeeded. -/
theorem send_connected {kind : Kind} {buf : List UInt8}
    (h : (s.send kind buf e).1.state = .connected) : s.state = .connected := by
  rcases send_cases kind buf e s with ⟨n, -, -, -, hsend⟩ | ⟨-, hsend⟩
  · rw [hsend] at h
    exact h
  · rw [hsend] at h
    cases h

theorem call_flag {sock : ℕ} {c : ScriptCall} (h : (s.call sock c e).state = .connected) :
    s.state = .connected ∧ (s.call sock c e).phase = s.phase ∧
      (s.call sock c e).v4l2.capturing = flagAfter s.v4l2.capturing [c] := by
  rcases s.call_cases sock c e with ⟨-, hcall⟩ | ⟨-, ⟨-, hcall⟩ | ⟨enabled, rfl, hcall⟩ |
    ⟨bank, hc, -, hcall⟩ | ⟨-, hc, -, -, hcall⟩⟩
  · rw [hcall] at h
    cases h
  · rw [hcall] at h
    cases h
  · rw [hcall] at h ⊢
    exact ⟨h, rfl, rfl⟩
  · rw [hcall] at h ⊢
    have hstate := send_connected h
    refine ⟨hstate, send_phase _ _ _ _, ?_⟩
    rw [send_v4l2]
    rcases hc with ⟨rfl, -⟩ | ⟨rfl, -⟩ <;> rfl
  · rw [hcall] at h ⊢
    refine ⟨h, rfl, ?_⟩
    cases c with
    | v4l2SetCapturing enabled => exact absurd rfl (hc enabled)
    | _ => rfl

theorem grab_ne_none {g : Grab} (hworks : DeviceWorks g) (v : V4L2) : (v.grab g).2 ≠ none := by
  obtain ⟨hqbuf, hdqbuf, hjpeg⟩ := hworks
  cases hd : g.dqbuf with
  | none => exact absurd hd hdqbuf
  | some bytesused => simp [V4L2.grab, hqbuf, hd, hjpeg]

/-- With a working device a connected server goes on capturing. -/
theorem v4l2Update_flag (hworks : DeviceWorks e.device) (h : (s.v4l2Update e).state = .connected) :
    s.state = .connected ∧ (s.v4l2Update e).v4l2.capturing = s.v4l2.capturing := by
  rcases s.v4l2Update_cases e with ⟨-, hsame | ⟨v, -, hnone, hoff⟩ | hcrash⟩ |
    ⟨frame, v, w, -, -, hconn, hcapturing, -, hw, hsend⟩
  · rw [hsame] at h ⊢
    exact ⟨h, rfl⟩
  · rw [hoff] at h
    exact absurd (hnone h) (grab_ne_none hworks s.v4l2)
  · rw [hcrash] at h ⊢
    exact ⟨h, rfl⟩
  · rw [hsend]
    exact ⟨hconn, hw.trans hcapturing.symm⟩

theorem completeAccept_flag {i : ℕ} {ok : Bool} {now : ℤ}
    (hother : ¬ (ok = true ∧ s.pending[i]? = some s.sockPeer))
    (h : (s.completeAccept i ok now).state = .connected) :
    s.state = .connected ∧ (s.completeAccept i ok now).v4l2 = s.v4l2 := by
  rcases s.completeAccept_cases i ok now with
    ⟨-, hsame⟩ | ⟨target, htarget, ⟨-, hfailed⟩ | ⟨hok, rfl, -⟩ | ⟨-, -, hcrash⟩⟩
  · rw [hsame] at h ⊢
    exact ⟨h, rfl⟩
  · rw [hfailed] at h
    cases h
  · exact absurd ⟨hok, htarget⟩ hother
  · rw [hcrash] at h ⊢
    exact ⟨h, rfl⟩

/-- Accepting leaves the flag alone, and happens outside of scripts. -/
theorem accepts_step (h : accepts s e = true) :
    (s.step e).v4l2 = s.v4l2 ∧ callsLeft (s.step e).phase = [] := by
  unfold accepts at h
  split at h
  · rename_i i hphase haccept
    have hpending : s.pending[i]? = some s.sockPeer := by simpa using h
    simp [RpiServer.step, hphase, haccept, completeAccept, hpending, handleAccept, callsLeft]
  · exact absurd h (by decide)

theorem callsReceived_eq_nil (hp : s.phase ≠ .receive) : callsReceived s e = [] := by
  simp [callsReceived, received, hp]

/-- A step after which the server is connected either accepts, or changes the flag by the calls
it makes only. -/
theorem step_flag (hworks : DeviceWorks e.device) (haccepts : accepts s e = false)
    (h : (s.step e).state = .connected) :
    s.state = .connected ∧
      flagAfter (s.step e).v4l2.capturing (callsLeft (s.step e).phase) =
        flagAfter s.v4l2.capturing (callsLeft s.phase ++ callsReceived s e) := by
  by_cases hp : s.phase = .receive
  · have hleft : callsLeft s.phase = [] := by rw [hp]; rfl
    rw [hleft, List.nil_append]
    rcases step_receive hp e with ⟨hnone, hsame | hfailed⟩ | ⟨bytes, hbytes, hcalls⟩
    · rw [hsame] at h ⊢
      exact ⟨h, by rw [callsReceived, hnone]; rfl⟩
    · rw [hfailed] at h
      cases h
    · rw [hcalls] at h ⊢
      exact ⟨h, by simp [callsReceived, hbytes, callsLeft, evaluated]⟩
  · rw [callsReceived_eq_nil hp, List.append_nil]
    cases hphase : s.phase with
    | receive => exact absurd hphase hp
    | poll =>
        simp only [RpiServer.step, hphase] at h ⊢
        cases haccept : e.accept with
        | none =>
            rw [haccept] at h
            refine ⟨h, ?_⟩
            cases s.state <;> rfl
        | some a =>
            rw [haccept] at h
            have hother : ¬ (a.2 = true ∧ s.pending[a.1]? = some s.sockPeer) := by
              rintro ⟨hok, hpending⟩
              obtain ⟨i, ok⟩ := a
              subst hok
              simp [accepts, hphase, haccept, hpending] at haccepts
            obtain ⟨hstate, hv4l2⟩ := completeAccept_flag hother h
            refine ⟨hstate, ?_⟩
            rcases completeAccept_phase a.1 a.2 e.now s with hsame | hcrash
            · rw [hv4l2, hsame, hphase]
            · rw [hv4l2, hcrash]
              rfl
    | script sock rest =>
        cases rest with
        | nil =>
            simp only [RpiServer.step, hphase] at h ⊢
            exact ⟨h, rfl⟩
        | cons c rest =>
            simp only [RpiServer.step, hphase] at h ⊢
            obtain ⟨hstate, hsame, hflag⟩ := call_flag h
            refine ⟨hstate, ?_⟩
            rw [hflag, hsame]
            exact (flagAfter_append s.v4l2.capturing [c] rest).symm
    | keepalive =>
        simp only [RpiServer.step, hphase, sendKeepalive] at h ⊢
        split
        · rename_i hdue
          rw [if_pos hdue] at h
          exact ⟨send_connected h, congrArg V4L2.capturing (send_v4l2 _ _ _ _)⟩
        · rename_i hdue
          rw [if_neg hdue] at h
          exact ⟨h, rfl⟩
    | video =>
        simp only [RpiServer.step, hphase] at h ⊢
        obtain ⟨hstate, hflag⟩ := v4l2Update_flag hworks h
        refine ⟨hstate, ?_⟩
        rcases v4l2Update_phase e { s with phase := .ret } with hsame | hcrash
        · rw [hflag, hsame]
          rfl
        · rw [hflag, hcrash]
          rfl
    | ret =>
        simp only [RpiServer.step, hphase] at h ⊢
        refine ⟨h, ?_⟩
        simp only [RpiServer.ret]
        split <;> rfl
    | stopped | hung | crashed =>
        simp only [RpiServer.step, hphase] at h ⊢
        exact ⟨h, trivial⟩

end Server

/-! ### Both machines -/

/-- The environment of a server step in which the commands `cmds` arrive: they are received as a
whole or not at all, and evaluated in order. -/
def deliver (cmds : List Command) (e : Env) : Env :=
  { e with
    inbox := stream cmds
    receives := e.receives.filter Option.isNone
    evaluate := fun t => if t = stream cmds then cmds.map Command.call else e.evaluate t }

/-- Client and server.  `waiting` are the connections that the client has begun and the server has
not accepted, `inFlight` the commands sent on a connection and not received yet. -/
structure Session where
  client : FpvContext
  conn : ℕ
  waiting : List ℕ
  inFlight : ℕ → List Command
  server : RpiServer
  peer : ℕ

inductive Input
  | init
  | update (env : FpvEnv)
  | connect
  | disconnect
  | setCapturing (enabled : Bool)
  /-- The client's socket changes by itself. -/
  | network (sock : QTcpSocket)
  /-- A step of the server.  An accept that completes is that of the `nth` waiting connection, and
  a receive finds the first `arrived` commands in flight. -/
  | server (e : Env) (nth arrived : ℕ)

namespace Session

def start (gpioReady : Bool) (d : Device) (now later : ℤ) : Session where
  client := FpvContext.init
  conn := 0
  waiting := []
  inFlight := fun _ => []
  server := RpiServer.startup gpioReady d now later
  peer := 0

/-- The client turns to a socket or an attempt that no earlier connection belongs to. -/
def nextConn (s : Session) : Session :=
  { s with conn := s.conn + 1, inFlight := Function.update s.inFlight (s.conn + 1) [] }

/-- The client has sent its flag, if the socket took the bytes. -/
def sent (s : Session) (r : FpvContext × List UInt8) : Session :=
  { s with
    client := r.1
    inFlight :=
      if r.2 = [] then s.inFlight
      else Function.update s.inFlight s.conn (s.inFlight s.conn ++ [.setCapturing r.1.capture]) }

/-- `connectToHost` begins a connection unless it refuses. -/
def connecting (s : Session) : Session :=
  if s.client.tcp.sock.connectToHost = s.client.tcp.sock then s
  else { s.nextConn with waiting := s.waiting ++ [s.conn + 1] }

def serverStep (s : Session) (e : Env) (nth arrived : ℕ) : Session :=
  if accepts s.server e then
    match s.waiting[nth]? with
    | none => s
    | some n =>
        { s with server := s.server.step e, waiting := s.waiting.eraseIdx nth, peer := n }
  else
    let n := if s.server.phase = .receive ∧ s.server.sockPeer ∈ s.server.opened then arrived else 0
    { s with
      server := s.server.step (deliver ((s.inFlight s.peer).take n) e)
      inFlight := Function.update s.inFlight s.peer ((s.inFlight s.peer).drop n) }

def step (s : Session) : Input → Session
  | .init => { s.nextConn with client := FpvService.init s.client }
  | .update env => { s with client := (s.client.update env).1 }
  | .connect => s.connecting.sent (FpvService.connect QTcpSocket.write s.client)
  | .disconnect => { s with client := FpvService.disconnect s.client }
  | .setCapturing enabled => s.sent (FpvService.setCapturing QTcpSocket.write s.client enabled)
  | .network sock =>
      { s with client := { s.client with tcp := { s.client.tcp with sock := sock } } }
  | .server e nth arrived => s.serverStep e nth arrived

/-- The server's connection is the client's current one. -/
def Accepted (s : Session) : Prop := s.server.state = .connected ∧ s.peer = s.conn

instance (s : Session) : Decidable s.Accepted := inferInstanceAs (Decidable (_ ∧ _))

/-- No command bytes are in flight or unevaluated. -/
def Quiet (s : Session) : Prop := s.inFlight s.conn = [] ∧ callsLeft s.server.phase = []

instance (s : Session) : Decidable s.Quiet := inferInstanceAs (Decidable (_ ∧ _))

/-- The flags agree whenever both sides consider themselves connected and all is quiet. -/
def Agree (s : Session) : Prop :=
  s.client.tcp.state = .connected → s.Accepted → s.Quiet →
    s.client.capture = s.server.v4l2.capturing

instance (s : Session) : Decidable s.Agree := by unfold Agree; infer_instance

/-- What the server's flag will be when all sent commands have been executed. -/
def flagToCome (s : Session) : Bool :=
  flagAfter s.server.v4l2.capturing
    (callsLeft s.server.phase ++ (s.inFlight s.conn).map Command.call)

end Session

/-- The device works in every step of the server. -/
def Input.DeviceWorks : Input → Prop
  | .server e _ _ => CaptureFlag.DeviceWorks e.device
  | _ => True

instance (i : Input) : Decidable i.DeviceWorks := by
  cases i <;> unfold Input.DeviceWorks <;> infer_instance

/-- The condition on a step.  While the server has the connection, a change of the client's flag is
sent: the client's state is connected, and its socket has not been closed since.  And when the
server accepts the client's current connection, its flag is the client's, counting the commands
sent on the connection until then. -/
def FlagSent (s : Session) : Input → Prop
  | .setCapturing enabled =>
      s.Accepted → enabled = s.client.capture ∨
        (s.client.tcp.state = .connected ∧ s.client.tcp.sock.state ≠ .unconnectedState)
  | .server e nth _ =>
      accepts s.server e = true → s.waiting[nth]? = some s.conn →
        flagAfter s.server.v4l2.capturing ((s.inFlight s.conn).map Command.call) = s.client.capture
  | _ => True

instance (s : Session) (i : Input) : Decidable (FlagSent s i) := by
  cases i <;> unfold FlagSent <;> infer_instance

/-! ### What the server receives -/

theorem callsReceived_deliver {s : RpiServer} {e : Env} {cmds : List Command}
    (hwhere : cmds ≠ [] → s.phase = .receive ∧ s.sockPeer ∈ s.opened)
    (h : (s.step (deliver cmds e)).state = .connected) :
    callsReceived s (deliver cmds e) = cmds.map Command.call := by
  cases hcmds : cmds with
  | nil =>
      have havail : s.available (deliver [] e) = [] := by
        unfold available
        split <;> rfl
      simp [callsReceived, received, havail]
  | cons c cs =>
      rw [← hcmds]
      obtain ⟨hp, hopen⟩ := hwhere (by simp [hcmds])
      have havail : s.available (deliver cmds e) = stream cmds := if_pos hopen
      have hlen : (stream cmds).length ≠ 0 := by
        simp [hcmds, stream, Command.text]
      have hstep : s.step (deliver cmds e) = s.receiveCommands (deliver cmds e) := by
        simp only [RpiServer.step, hp]
      rw [hstep] at h
      rcases s.receiveCommands_cases (deliver cmds e) with
        ⟨hnothing, -⟩ | ⟨-, ⟨-, hfailed⟩ | ⟨bytes, hall, -⟩⟩
      · exact absurd (havail ▸ hnothing) hlen
      · rw [hfailed] at h
        cases h
      · rw [havail] at hall
        obtain rfl : bytes = stream cmds := eq_of_receiveAll (by simp [deliver]) hall
        have hreceived : received s.sockPeer s (deliver cmds e) = some (stream cmds) := by
          simp [received, hp, havail, hlen, hall]
        have hevaluate : (deliver cmds e).evaluate (stream cmds) = cmds.map Command.call :=
          if_pos rfl
        simp [callsReceived, hreceived, evaluated, scriptText_eq (zero_not_mem_stream cmds),
          hevaluate]

/-! ### The invariant -/

/-- The server's flag will be the client's.  The numbers tell earlier connections apart. -/
structure Inv (s : Session) : Prop where
  waiting : ∀ n ∈ s.waiting, n ≤ s.conn
  peer : s.peer ≤ s.conn
  flag : s.Accepted → s.flagToCome = s.client.capture

theorem inv_start (gpioReady : Bool) (d : Device) (now later : ℤ) :
    Inv (Session.start gpioReady d now later) where
  waiting := fun _ h => absurd h List.not_mem_nil
  peer := le_refl 0
  flag := fun h => by cases h.1

theorem Inv.agree {s : Session} (h : Inv s) : s.Agree := by
  intro _ haccepted hquiet
  have hflag := h.flag haccepted
  rw [Session.flagToCome, hquiet.1, hquiet.2] at hflag
  exact hflag.symm

section Steps

variable {s : Session} (h : Inv s)
include h

theorem inv_client {c : FpvContext} (hc : c.capture = s.client.capture) :
    Inv { s with client := c } where
  waiting := h.waiting
  peer := h.peer
  flag := fun haccepted => (h.flag haccepted).trans hc.symm

/-- The server does not have a connection that is only just begun. -/
theorem not_accepted_of_conn {s' : Session} (hpeer : s'.peer = s.peer)
    (hconn : s'.conn = s.conn + 1) : ¬ s'.Accepted := by
  rintro ⟨-, heq⟩
  have hle := h.peer
  omega

theorem inv_init : Inv { s.nextConn with client := FpvService.init s.client } where
  waiting := fun n hn => Nat.le_succ_of_le (h.waiting n hn)
  peer := Nat.le_succ_of_le h.peer
  flag := fun haccepted => absurd haccepted (not_accepted_of_conn h rfl rfl)

theorem inv_connecting : Inv s.connecting := by
  unfold Session.connecting
  split
  · exact h
  · refine ⟨?_, Nat.le_succ_of_le h.peer, fun haccepted =>
      absurd haccepted (not_accepted_of_conn h rfl rfl)⟩
    intro n hn
    rcases List.mem_append.mp hn with hn | hn
    · exact Nat.le_succ_of_le (h.waiting n hn)
    · exact le_of_eq (List.mem_singleton.mp hn)

/-- What has been sent is the client's flag; what has not been sent must not change it. -/
theorem inv_sent {r : FpvContext × List UInt8}
    (hr : r.2 = [] → s.Accepted → r.1.capture = s.client.capture) : Inv (s.sent r) := by
  refine ⟨h.waiting, h.peer, ?_⟩
  intro haccepted
  by_cases hbytes : r.2 = []
  · simp only [Session.flagToCome, Session.sent, if_pos hbytes]
    exact (h.flag haccepted).trans (hr hbytes haccepted).symm
  · simp only [Session.flagToCome, Session.sent, if_neg hbytes, Function.update_self]
    rw [List.map_append, ← List.append_assoc, flagAfter_append]
    rfl

theorem inv_setCapturing {enabled : Bool} (hsent : FlagSent s (.setCapturing enabled)) :
    Inv (s.sent (FpvService.setCapturing QTcpSocket.write s.client enabled)) := by
  refine inv_sent h ?_
  intro hbytes haccepted
  rcases hsent haccepted with hsame | ⟨hstate, hsock⟩
  · exact hsame
  · have htext := Command.setCapturing_text enabled hstate hsock
    exact absurd (htext.symm.trans hbytes) (by simp [Command.text])

theorem inv_connect :
    Inv (s.connecting.sent (FpvService.connect QTcpSocket.write s.client)) := by
  have hclient : s.connecting.client = s.client := by
    unfold Session.connecting
    split <;> rfl
  have hcapture : s.client.capture = s.connecting.client.capture := by rw [hclient]
  exact inv_sent (inv_connecting h) fun _ _ => hcapture

/-- What the server receives is no longer in flight, but still to come. -/
theorem inv_deliver {e : Env} {n : ℕ} (hworks : DeviceWorks e.device)
    (haccepts : accepts s.server e = false)
    (hwhere : (s.inFlight s.peer).take n ≠ [] →
      s.server.phase = .receive ∧ s.server.sockPeer ∈ s.server.opened) :
    Inv { s with
      server := s.server.step (deliver ((s.inFlight s.peer).take n) e)
      inFlight := Function.update s.inFlight s.peer ((s.inFlight s.peer).drop n) } := by
  refine ⟨h.waiting, h.peer, ?_⟩
  intro haccepted
  have hstate : (s.server.step (deliver ((s.inFlight s.peer).take n) e)).state = .connected :=
    haccepted.1
  have hpeer : s.peer = s.conn := haccepted.2
  have haccepts' : accepts s.server (deliver ((s.inFlight s.peer).take n) e) = false := haccepts
  have hworks' : DeviceWorks (deliver ((s.inFlight s.peer).take n) e).device := hworks
  obtain ⟨hbefore, hstep⟩ := step_flag hworks' haccepts' hstate
  rw [callsReceived_deliver hwhere hstate, hpeer] at hstep
  simp only [Session.flagToCome, hpeer, Function.update_self]
  calc
    _ = flagAfter s.server.v4l2.capturing (callsLeft s.server.phase ++
          ((s.inFlight s.conn).take n).map Command.call ++
          ((s.inFlight s.conn).drop n).map Command.call) := by
      rw [flagAfter_append, hstep, ← flagAfter_append]
    _ = s.flagToCome := by
      rw [List.append_assoc, ← List.map_append, List.take_append_drop, Session.flagToCome]
    _ = s.client.capture := h.flag ⟨hbefore, hpeer⟩

theorem inv_serverStep {e : Env} {nth arrived : ℕ} (hworks : DeviceWorks e.device)
    (hflag : FlagSent s (.server e nth arrived)) : Inv (s.serverStep e nth arrived) := by
  unfold Session.serverStep
  by_cases haccepts : accepts s.server e = true
  · rw [if_pos haccepts]
    cases hn : s.waiting[nth]? with
    | none => exact h
    | some n =>
        refine ⟨fun m hm => h.waiting m (List.mem_of_mem_eraseIdx hm),
          h.waiting n (List.mem_of_getElem? hn), ?_⟩
        intro haccepted
        obtain ⟨hv4l2, hleft⟩ := accepts_step haccepts
        have hconn : n = s.conn := haccepted.2
        simp only [Session.flagToCome, hv4l2, hleft, List.nil_append]
        exact hflag haccepts (hconn ▸ hn)
  · rw [if_neg haccepts]
    refine inv_deliver h hworks (eq_false_of_ne_true haccepts) ?_
    intro hne
    by_contra hnot
    rw [if_neg hnot, List.take_zero] at hne
    exact hne rfl

end Steps

theorem step_inv (s : Session) (i : Input) (h : Inv s) (hC : i.DeviceWorks ∧ FlagSent s i) :
    Inv (s.step i) := by
  cases i with
  | init => exact inv_init h
  | update env => exact inv_client h (FpvContext.update_capture env s.client)
  | connect => exact inv_connect h
  | disconnect => exact inv_client h rfl
  | setCapturing enabled => exact inv_setCapturing h hC.2
  | network sock => exact inv_client h rfl
  | server e nth arrived => exact inv_serverStep h hC.1 hC.2

/-- **The flags agree** in every run, with a working device, in which every change of the client's
flag is sent to a server that has the connection, and every accept finds them equal. -/
theorem step_agree (gpioReady : Bool) (d : Device) (now later : ℤ) (is : List Input)
    (hworks : ∀ i ∈ is, i.DeviceWorks)
    (hsent : Meets Session.step FlagSent (Session.start gpioReady d now later) is) :
    Always Session.step Session.Agree (Session.start gpioReady d now later) is :=
  (always_of_meets step_inv (inv_start gpioReady d now later)
    (hsent.and_of_forall hworks)).imp fun _ h => h.agree

/-- An update of the client that finds nothing to decode. -/
def updateIdle : Input := .update ⟨fun _ => 0, fun _ _ => none⟩

/-- A step of the server in which nothing fails. -/
def serverWorks (accept : Option (ℕ × Bool)) (arrived : ℕ) : Input :=
  .server { Env.idle with accept := accept, device := .jpeg } 0 arrived

/-- The client connects and the server accepts, in three steps of the network and the server. -/
def connects : List Input :=
  [.connect, .network ⟨.connectedState, []⟩, serverWorks (some (0, true)) 0]

/-- Once both sides are connected, the user turns capturing on.  The command is sent, received and
executed. -/
theorem step_agree_one :
    Always Session.step Session.Agree (Session.start true .camera 0 0)
      (connects ++ [updateIdle, .setCapturing true, serverWorks none 0, serverWorks none 1,
        serverWorks none 0]) := by
  apply step_agree
  · decide +kernel
  · decide +kernel

/-- The user turns capturing on and then connects.  `FpvService::connect` sends the flag while the
connection is not up yet, which sends nothing. -/
theorem connect_loses_flag :
    let is := .setCapturing true :: (connects ++ [updateIdle])
    (∀ i ∈ is, i.DeviceWorks) ∧
      ¬ Always Session.step Session.Agree (Session.start true .camera 0 0) is := by
  decide +kernel

end MKart.System.CaptureFlag
