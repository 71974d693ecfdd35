import MKart.ClientUnity.Sessions
import MKart.System.Line

/-!
# What the Unity client raises

The Unity client and the server, with everything between them, as for the Qt client.  Its decoder
keeps what it has not used, so there is no cut of the stream that it could not take: what its
calls of `RecieveMessage` raise on a connection are the pictures and the readings that the server
has taken for it, in their order and each once, and none of the calls throws (`raised_prefix`).
Once everything has arrived, one call for each message and one for each byte raise them all
(`raised_complete`).

A `Connect` must not find bytes of an earlier connection in `m_Received`, the server must not
start a frame behind one that is not whole, and no message may be too long for an `int`
(`InPlace`).
-/

namespace MKart.System.Readings

open MKart.Runs MKart.Framing MKart.ClientUnity MKart.Server
open MKart.ClientUnity.EndToEnd (ServerFrame Sent Follows wire)

deriving instance DecidableEq for TcpClient

/-! ### Both machines -/

/-- Client and server.  `raised` are the events of the client's latest connection; `threw` says
whether a call of `RecieveMessage` has thrown. -/
structure Session where
  line : Line
  client : V4L2Client
  raised : List ClientUnity.Event
  threw : Bool

inductive Input
  /-- `Connect`, which succeeds or throws. -/
  | connect (ok : Bool)
  | disconnect
  /-- The server closes, and the client's socket has noticed. -/
  | close
  /-- `RecieveMessage`, with the number of bytes its read asks for. -/
  | recieve (n : ℕ)
  | arrive (n : ℕ)
  /-- A step of the server; what it accepts is the client's connection (`mine`) or another. -/
  | server (e : Env) (mine : Bool)

namespace Session

def start (gpioReady : Bool) (d : Device) (now later : ℤ) : Session where
  line := .start gpioReady d now later
  client := V4L2Client.construct
  raised := []
  threw := false

def connect (s : Session) (ok : Bool) : Session :=
  if ok then
    { s with line := s.line.dial, client := ClientUnity.connect true s.client, raised := [] }
  else { s with client := ClientUnity.connect false s.client }

def close (s : Session) : Session :=
  { s with client := { s.client with
      tcpClient := s.client.tcpClient.map fun tcp => { tcp with connected := false } } }

def recieve (s : Session) (n : ℕ) : Session :=
  match recieveMessage n s.client with
  | .ok evs c => { s with client := c, raised := s.raised ++ evs }
  | .error _ c => { s with client := c, threw := true }

/-- Bytes arrive as long as the client is connected. -/
def arrive (s : Session) (n : ℕ) : Session :=
  match s.client.tcpClient with
  | some ⟨true, _⟩ =>
      { s with
        line := s.line.arrive n
        client := ClientUnity.arrive (s.line.inFlight.take n) s.client }
  | _ => s

def step (s : Session) : Input → Session
  | .connect ok => s.connect ok
  | .disconnect => { s with client := leaves (disconnect s.client) }
  | .close => s.close
  | .recieve n => s.recieve n
  | .arrive n => s.arrive n
  | .server e mine => { s with line := s.line.serve e mine }

/-- What the client sees as a receiver on one connection. -/
def receiver (s : Session) : EndToEnd.Session := ⟨s.client, s.line.toCome, s.raised, s.threw⟩

end Session

/-- The message is not too long for the client's `int`s. -/
def Short (f : ServerFrame) : Prop := (bytes f).length < 2 ^ 31 - 4

instance (f : ServerFrame) : Decidable (Short f) := inferInstanceAs (Decidable (_ < _))

/-- The condition on a step. -/
def InPlace (s : Session) : Input → Prop
  | .connect true => s.client.received = []
  | .server e _ => s.line.WholeBefore e ∧ ∀ f ∈ s.line.added e, Short f
  | _ => True

instance (s : Session) : (i : Input) → Decidable (InPlace s i)
  | .connect true => inferInstanceAs (Decidable (_ = _))
  | .server e _ =>
      inferInstanceAs (Decidable (s.line.WholeBefore e ∧ ∀ f ∈ s.line.added e, Short f))
  | .connect false | .disconnect | .close | .recieve _ | .arrive _ =>
      inferInstanceAs (Decidable True)

/-! ### Messages -/

/-- What the client is to raise. -/
def events (fs : List ServerFrame) : List ClientUnity.Event := fs.flatMap ServerFrame.events

theorem exists_sent {fs : List ServerFrame} (hencoded : ∀ f ∈ fs, f.encode = some (bytes f))
    (hshort : ∀ f ∈ fs, Short f) : ∃ sent : List Sent, sent.map Sent.message = fs := by
  induction fs with
  | nil => exact ⟨[], rfl⟩
  | cons f fs ih =>
      obtain ⟨sent, hsent⟩ := ih (fun g hg => hencoded g (List.mem_cons_of_mem f hg))
        (fun g hg => hshort g (List.mem_cons_of_mem f hg))
      refine ⟨⟨f, bytes f, hencoded f List.mem_cons_self, hshort f List.mem_cons_self⟩ :: sent, ?_⟩
      rw [List.map_cons, hsent]

theorem wire_eq (sent : List Sent) : wire sent = (sent.map Sent.message).flatMap bytes := by
  induction sent with
  | nil => rfl
  | cons f sent ih =>
      have hf : f.bytes = bytes f.message := by rw [bytes, f.built, Option.getD_some]
      rw [EndToEnd.wire_cons, List.map_cons, List.flatMap_cons, ih, hf]

theorem events_eq (sent : List Sent) :
    EndToEnd.events sent = events (sent.map Sent.message) := by
  rw [events, List.flatMap_map]
  rfl

/-! ### The invariant -/

structure Inv (s : Session) : Prop where
  line : s.line.Inv
  threw : s.threw = false
  raised : s.raised <+: events s.line.messages
  follows : ∀ available, s.client.tcpClient = some ⟨true, available⟩ →
    ∃ past future : List Sent, (past ++ future).map Sent.message = s.line.messages ∧
      Follows past future s.receiver

theorem inv_start (gpioReady : Bool) (d : Device) (now later : ℤ) :
    Inv (Session.start gpioReady d now later) where
  line := Line.inv_start gpioReady d now later
  threw := rfl
  raised := List.prefix_rfl
  follows := fun _ h => by cases h

theorem raised_of_follows {s : Session} {past future : List Sent}
    (hfollows : Follows past future s.receiver)
    (hmessages : (past ++ future).map Sent.message = s.line.messages) :
    s.raised <+: events s.line.messages := by
  have hraised : s.raised = events (past.map Sent.message) := by
    rw [← events_eq]
    exact hfollows.raised
  rw [hraised, ← hmessages, List.map_append, events, events, List.flatMap_append]
  exact List.prefix_append _ _

/-- Bytes that arrive have been to come. -/
theorem follows_arrive {past future : List Sent} {c : V4L2Client}
    {available piece rest toCome : List UInt8} {raised : List ClientUnity.Event} {threw : Bool}
    (htcp : c.tcpClient = some ⟨true, available⟩) (hcome : toCome = piece ++ rest)
    (h : Follows past future ⟨c, toCome, raised, threw⟩) :
    Follows past future ⟨ClientUnity.arrive piece c, rest, raised, threw⟩ := by
  obtain ⟨tcpClient, received, message, fourCC⟩ := c
  obtain rfl : tcpClient = some ⟨true, available⟩ := htcp
  obtain ⟨-, hbytes, hraised, hthrew⟩ := h
  refine ⟨rfl, ?_, hraised, hthrew⟩
  rw [← hbytes]
  show received ++ (available ++ piece) ++ rest = received ++ available ++ toCome
  rw [hcome]
  simp only [List.append_assoc]

/-- A call is one of the receiver. -/
theorem receiver_recieve (s : Session) (n : ℕ) :
    (s.recieve n).receiver = EndToEnd.step s.receiver ⟨0, n⟩ := by
  have harrived : EndToEnd.arrived s.receiver ⟨0, n⟩ = s.client := by
    obtain ⟨line, ⟨tcpClient, received, message, fourCC⟩, raised, threw⟩ := s
    cases tcpClient with
    | none => rfl
    | some tcp =>
        show V4L2Client.mk (some { tcp with available := tcp.available ++ [] }) _ _ _ = _
        rw [List.append_nil]
        rfl
  unfold EndToEnd.step Session.recieve
  rw [harrived]
  show Session.receiver (match recieveMessage n s.client with | .ok evs c => _ | .error _ c => _) =
    match recieveMessage n s.client with | .ok evs c => _ | .error _ c => _
  cases recieveMessage n s.client with
  | ok evs c => rfl
  | error ex c => rfl

section Steps

variable {s : Session} (h : Inv s)
include h

/-- The client is without a connection. -/
theorem inv_idle (c : V4L2Client) (hidle : ∀ available, c.tcpClient ≠ some ⟨true, available⟩) :
    Inv { s with client := c } where
  line := h.line
  threw := h.threw
  raised := h.raised
  follows := fun available htcp => absurd htcp (hidle available)

theorem inv_connect (ok : Bool) (hplace : InPlace s (.connect ok)) : Inv (s.connect ok) := by
  cases ok with
  | false => exact inv_idle h _ fun _ h => by cases h
  | true =>
      have hempty : s.client.received = [] := hplace
      refine ⟨h.line.dial, h.threw, List.nil_prefix, fun available _ => ⟨[], [], rfl, ?_⟩⟩
      refine ⟨rfl, ?_, rfl, h.threw⟩
      show s.client.received ++ [] ++ [] = []
      rw [hempty]
      rfl

theorem inv_disconnect : Inv { s with client := leaves (disconnect s.client) } := by
  refine inv_idle h _ fun available htcp => ?_
  rcases disconnect_cases s.client with ⟨hnone, hsame⟩ | ⟨-, -, hclear⟩ | ⟨-, -, hthrow⟩
  · rw [hsame] at htcp
    cases hnone.symm.trans htcp
  · rw [hclear] at htcp
    cases htcp
  · rw [hthrow] at htcp
    cases htcp

theorem inv_close : Inv s.close := by
  refine inv_idle h _ fun available htcp => ?_
  obtain ⟨tcp, -, hclosed⟩ := Option.map_eq_some_iff.mp htcp
  cases hclosed

theorem inv_recieve (n : ℕ) : Inv (s.recieve n) := by
  by_cases hconn : ∃ available, s.client.tcpClient = some ⟨true, available⟩
  · obtain ⟨available, htcp⟩ := hconn
    obtain ⟨past, future, hmessages, hfollows⟩ := h.follows available htcp
    obtain ⟨done, rest, rfl, hnext, -⟩ := EndToEnd.step_follows hfollows ⟨0, n⟩
    rw [← receiver_recieve] at hnext
    have hline : (s.recieve n).line = s.line := by
      unfold Session.recieve
      split <;> rfl
    have hmessages' : ((past ++ done) ++ rest).map Sent.message = (s.recieve n).line.messages := by
      rw [List.append_assoc, hmessages, hline]
    refine ⟨hline ▸ h.line, hnext.threw, raised_of_follows hnext hmessages',
      fun _ _ => ⟨_, _, hmessages', hnext⟩⟩
  · have hidle := (ClientUnity.Sessions.recieveMessage_idle n hconn).1
    have hsame : s.recieve n = s := by
      unfold Session.recieve
      rw [hidle]
      show ({ s with raised := s.raised ++ [] } : Session) = s
      rw [List.append_nil]
    rw [hsame]
    exact h

theorem inv_arrive (n : ℕ) : Inv (s.arrive n) := by
  unfold Session.arrive
  split
  · rename_i available htcp
    obtain ⟨past, future, hmessages, hfollows⟩ := h.follows available htcp
    refine ⟨h.line.arrive n, h.threw, h.raised, fun _ _ => ⟨past, future, hmessages, ?_⟩⟩
    exact follows_arrive htcp (h.line.toCome_arrive n) hfollows
  · exact h

theorem inv_server {e : Env} {mine : Bool} (hplace : InPlace s (.server e mine)) :
    Inv { s with line := s.line.serve e mine } := by
  obtain ⟨hwhole, hshort⟩ := hplace
  have hadded : ∀ f ∈ s.line.added e, f.encode = some (bytes f) :=
    fun f hf => encode_made (Line.of_mem_added hf).2
  obtain ⟨sent, hsent⟩ := exists_sent hadded hshort
  refine ⟨h.line.serve hwhole mine, h.threw, ?_, fun available htcp => ?_⟩
  · show s.raised <+: events (s.line.messages ++ s.line.added e)
    rw [events, List.flatMap_append]
    exact h.raised.trans (List.prefix_append _ _)
  · obtain ⟨past, future, hmessages, hconn, hbytes, hraised, hthrew⟩ := h.follows available htcp
    refine ⟨past, future ++ sent, ?_, hconn, ?_, hraised, hthrew⟩
    · rw [← List.append_assoc, List.map_append, hmessages, hsent]
      rfl
    · show s.client.received ++ s.receiver.available ++ (s.line.serve e mine).toCome =
        wire (future ++ sent)
      rw [h.line.toCome_serve, EndToEnd.wire_append, ← hbytes, wire_eq sent, hsent,
        ← List.append_assoc]
      rfl

end Steps

/-- **Every step keeps what is raised in step with what is made**, if the condition is met. -/
theorem step_inv (s : Session) (i : Input) (h : Inv s) (hplace : InPlace s i) :
    Inv (s.step i) := by
  cases i with
  | connect ok => exact inv_connect h ok hplace
  | disconnect => exact inv_disconnect h
  | close => exact inv_close h
  | recieve n => exact inv_recieve h n
  | arrive n => exact inv_arrive h n
  | server e mine => exact inv_server h hplace

/-- **The client raises what the server has taken.**  In every run whose steps meet the condition,
no call of `RecieveMessage` throws, and what the calls have raised on the client's latest
connection is at every point a prefix of the pictures and readings made for it. -/
theorem raised_prefix (gpioReady : Bool) (d : Device) (now later : ℤ) (is : List Input)
    (hplace : Meets Session.step InPlace (.start gpioReady d now later) is) :
    Always Session.step (fun s => s.threw = false ∧ s.raised <+: events s.line.messages)
      (.start gpioReady d now later) is :=
  (always_of_meets step_inv (inv_start gpioReady d now later) hplace).imp
    fun _ h => ⟨h.threw, h.raised⟩

/-- A client connects; a script of it turns capturing on and reads the first bank, and the camera
delivers a picture. -/
def takes : List Input :=
  .connect true ::
    [{ Env.idle with accept := some (0, true) }, .idle,
      { Env.idle with
        inbox := [59], evaluate := fun _ => [.v4l2SetCapturing true, .gpioGet_0_31] },
      .idle, { Env.idle with gpioRead := 5, send := some 16 }, .idle, .idle,
      Server.Video.captureAt 200000000 (some 12)].map (.server · true)

/-- The reading arrives with a part of the picture. -/
theorem raised_prefix_two :
    Always Session.step (fun s => s.threw = false ∧ s.raised <+: events s.line.messages)
      (.start true .camera 0 0) (takes ++ [.arrive 20, .recieve 18, .arrive 8, .recieve 100]) :=
  raised_prefix true .camera 0 0 _ (by decide +kernel)

theorem run_recieves (s : Session) (reads : List ℕ) :
    (run Session.step s (reads.map .recieve)).receiver =
      run EndToEnd.step s.receiver (reads.map (⟨0, ·⟩)) := by
  induction reads generalizing s with
  | nil => rfl
  | cons n reads ih =>
      rw [List.map_cons, List.map_cons, run_cons, run_cons, ← receiver_recieve]
      exact ih (s.recieve n)

/-- Once all messages have arrived, enough calls raise all of them. -/
theorem Inv.raises_all {s : Session} (h : Inv s) {available : List UInt8}
    (htcp : s.client.tcpClient = some ⟨true, available⟩) (hdrained : s.line.Drained)
    {reads : List ℕ} (henough : s.line.messages.length + available.length ≤ reads.length) :
    (run Session.step s (reads.map .recieve)).raised = events s.line.messages := by
  obtain ⟨past, future, hmessages, hfollows⟩ := h.follows available htcp
  have havailable : s.receiver.available = available := by
    have hconn : some (TcpClient.mk true s.receiver.available) = some ⟨true, available⟩ :=
      hfollows.connected.symm.trans htcp
    exact (TcpClient.mk.inj (Option.some.inj hconn)).2
  obtain ⟨hreads, hdrain⟩ := EndToEnd.run_drains hfollows (h.line.toCome_of_drained hdrained)
    (reads.map (⟨0, ·⟩))
  have hcount : future.length ≤ s.line.messages.length := by
    rw [← hmessages, List.length_map, List.length_append]
    exact Nat.le_add_left _ _
  have hdone := hdrain (by rw [List.length_map]; rw [havailable] at hreads; omega)
  show (run Session.step s (reads.map .recieve)).receiver.raised = _
  rw [run_recieves, hdone.raised, events_eq, hmessages]

/-- **It raises all of it.**  Once all messages have gone out and arrived at a client that is still
connected, one call for each message and one for each byte that has not been read raise
everything. -/
theorem raised_complete (gpioReady : Bool) (d : Device) (now later : ℤ) (is : List Input)
    (reads : List ℕ) (hplace : Meets Session.step InPlace (.start gpioReady d now later) is)
    (available : List UInt8) :
    let s := run Session.step (.start gpioReady d now later) is
    s.client.tcpClient = some ⟨true, available⟩ → s.line.Drained →
      s.line.messages.length + available.length ≤ reads.length →
        (run Session.step s (reads.map .recieve)).raised = events s.line.messages := by
  intro s htcp hdrained henough
  have h : Inv s := (always_of_meets step_inv (inv_start gpioReady d now later) hplace).last
  exact h.raises_all htcp hdrained henough

/-- The first call has read all bytes and raised the reading, and the next raises the picture. -/
theorem raised_complete_two :
    let s := run Session.step (.start true .camera 0 0) (takes ++ [.arrive 28, .recieve 100])
    (run Session.step s ([0, 0].map .recieve)).raised = events s.line.messages ∧
      events s.line.messages = [.gpio 1 5, .jpeg [0xFF, 0xD8, 0xFF, 0xE0]] := by
  have hplace : Meets Session.step InPlace (.start true .camera 0 0)
      (takes ++ [.arrive 28, .recieve 100]) := by
    decide +kernel
  have h := raised_complete true .camera 0 0 (takes ++ [.arrive 28, .recieve 100]) [0, 0] hplace []
  refine ⟨h ?_ ?_ ?_, ?_⟩
  · decide +kernel
  · decide +kernel
  · decide +kernel
  · decide +kernel

end MKart.System.Readings
