import MKart.ClientUnity.EndToEnd
import MKart.Server.Events
import MKart.Server.Output
import MKart.Server.Video

/-!
# One client's connection

What lies between the server and a client: the client begins a connection, the server accepts it
some time later, or never, or gives it up, and of what it sends any part goes out and arrives in
pieces.  A `Line` is the server with the latest connection of one client, and with the messages
that it has made for this connection out of what it read from its devices (`made`).

`Line.Inv` is the conservation law of a line: as long as no frame starts behind one that is not
whole, the bytes that have arrived and the bytes to come are the messages, in their order.
-/

namespace MKart.System

open MKart.Bytes MKart.Framing MKart.PartialSends MKart.Server
open MKart.ClientUnity.EndToEnd (ServerFrame)
open MKart.Server.Output (transmissions transmissions_append)
open MKart.Server.Video (accepts)

/-! ### The messages of a step -/

/-- The message that a step makes of what it reads. -/
def made (s : RpiServer) (e : Env) : Option ServerFrame :=
  match s.phase with
  | .script _ (.gpioGet_0_31 :: _) => if s.gpioReady then some (.gpio 1 e.gpioRead) else none
  | .script _ (.gpioGet_32_53 :: _) => if s.gpioReady then some (.gpio 2 e.gpioRead) else none
  | .keepalive => if s.keepaliveDue e.now then some .keepAlive else none
  | .video =>
      if s.v4l2.due e.now ∧ s.state = .connected then
        ((s.v4l2.grab e.device).2.map fun bytesused => .jpeg bytesused e.device.memory).filter
          fun f => f.encode.isSome
      else none
  | _ => none

/-- The bytes of a message. -/
def bytes (f : ServerFrame) : List UInt8 := f.encode.getD []

section Server

variable {s : RpiServer} {e : Env}

theorem transmissions_sentEvent (sock : ℕ) (kind : Kind) (buf : List UInt8) (e : Env)
    (s : RpiServer) :
    transmissions sock [s.sentEvent kind buf e] =
      if s.sockPeer = sock then [⟨buf, (s.sockSend e buf).getD 0⟩] else [] := by
  unfold transmissions RpiServer.sentEvent
  by_cases h : s.sockPeer = sock <;> simp [h]

theorem transmissions_called (sock k : ℕ) (c : ScriptCall) (log : List Event) :
    transmissions sock (.called k c :: log) = transmissions sock log := rfl

/-- A captured frame is the message made of it. -/
theorem made_video (hp : s.phase = .video) :
    (made s e).map bytes = s.capturedFrame e := by
  simp only [made, hp, RpiServer.capturedFrame]
  split
  · cases (s.v4l2.grab e.device).2 with
    | none => rfl
    | some bytesused =>
        show ((some (ServerFrame.jpeg bytesused e.device.memory)).filter _).map bytes =
          jpegMessage bytesused e.device.memory
        cases hmsg : jpegMessage bytesused e.device.memory with
        | none => simp [Option.filter, ServerFrame.encode, hmsg]
        | some buf => simp [Option.filter, ServerFrame.encode, bytes, hmsg]
  · rfl

/-- **What a step puts on the connections**: the message it makes, on the peer. -/
theorem transmissions_events (s : RpiServer) (e : Env) (sock : ℕ) :
    transmissions sock (s.events e) =
      if s.sockPeer = sock then
        (made s e).toList.map fun f => ⟨bytes f, (s.sockSend e (bytes f)).getD 0⟩
      else [] := by
  cases hp : s.phase with
  | poll =>
      simp only [RpiServer.events, made, hp, Option.toList_none, List.map_nil, ite_self]
      split
      · split <;> rfl
      · rfl
  | script k rest =>
      cases rest with
      | nil =>
          simp only [RpiServer.events, made, hp, Option.toList_none, List.map_nil, ite_self]
          rfl
      | cons c rest =>
          simp only [RpiServer.events, hp, RpiServer.callEvents, transmissions_called]
          cases c with
          | gpioGet_0_31 | gpioGet_32_53 =>
              simp only [made, hp]
              split
              · rw [transmissions_sentEvent]
                rfl
              · exact (ite_self _).symm
          | _ =>
              simp only [made, hp, Option.toList_none, List.map_nil, ite_self]
              rfl
  | keepalive =>
      simp only [RpiServer.events, made, hp]
      split
      · rw [transmissions_sentEvent]
        rfl
      · exact (ite_self _).symm
  | video =>
      simp only [RpiServer.events, hp]
      rw [← made_video hp]
      cases made s e with
      | none => exact (ite_self _).symm
      | some f => exact transmissions_sentEvent sock .jpeg (bytes f) e s
  | receive | ret | stopped | hung | crashed =>
      simp only [RpiServer.events, made, hp, Option.toList_none, List.map_nil, ite_self]
      rfl

theorem transmissions_step (s : RpiServer) (e : Env) (sock : ℕ) :
    transmissions sock (s.step e).log =
      transmissions sock s.log ++ transmissions sock (s.events e) := by
  rw [RpiServer.step_log, transmissions_append]

/-- Whatever is made is a frame. -/
theorem encode_made {f : ServerFrame} (h : made s e = some f) : f.encode = some (bytes f) := by
  have hsome : f.encode.isSome = true := by
    unfold made at h
    split at h
    · split at h <;> cases h
      rfl
    · split at h <;> cases h
      rfl
    · split at h <;> cases h
      rfl
    · split at h
      · exact (Option.filter_eq_some_iff.mp h).2
      · cases h
    · cases h
  obtain ⟨buf, hbuf⟩ := Option.isSome_iff_exists.mp hsome
  rw [bytes, hbuf]
  rfl

/-- A step that makes a message sends. -/
theorem sends_made {f : ServerFrame} (h : made s e = some f) : Output.sends s e = true := by
  rcases Output.step_sends s e with ⟨hsends, -⟩ | ⟨-, hsilent⟩
  · exact hsends
  · have hlog := hsilent s.sockPeer
    rw [transmissions_step, transmissions_events, h, if_pos rfl] at hlog
    exact absurd (List.append_right_eq_self.mp hlog) (List.cons_ne_nil _ _)

/-- What is transmitted goes out on an accepted socket. -/
theorem of_sockSend_pos {buf : List UInt8} (h : 0 < (s.sockSend e buf).getD 0) :
    s.sockPeer ∈ s.opened ∧ e.send ≠ none := by
  unfold RpiServer.sockSend at h
  split at h
  · rename_i hopen
    refine ⟨hopen, fun hnone => ?_⟩
    rw [hnone] at h
    exact lt_irrefl 0 h
  · exact absurd h (lt_irrefl 0)

/-- A send that leaves the peer in its place has succeeded. -/
theorem send_of_keeps {kind : Kind} {buf : List UInt8}
    (h : (s.send kind buf e).1.nextSock = s.nextSock) :
    s.sockPeer ∈ s.opened ∧ e.send ≠ none := by
  rcases RpiServer.send_cases kind buf e s with ⟨n, hopen, hok, -, -⟩ | ⟨-, hsend⟩
  · exact ⟨hopen, hok⟩
  · rw [hsend] at h
    exact absurd h (Nat.succ_ne_self _)

theorem sends_of_keeps (h : Output.sends s e = true) (hkept : (s.step e).nextSock = s.nextSock) :
    s.sockPeer ∈ s.opened ∧ e.send ≠ none := by
  rcases Bool.or_eq_true_iff.mp h with huntested | hvideo
  · obtain ⟨kind, buf, log, p, p', t, -, -, hstep⟩ := RpiServer.step_of_sendsUntested huntested
    rw [hstep] at hkept
    exact send_of_keeps (s := { s with log := log, phase := p }) hkept
  · obtain ⟨hp, hsome⟩ := Bool.and_eq_true_iff.mp hvideo
    have hp : s.phase = .video := of_decide_eq_true hp
    simp only [RpiServer.step, hp] at hkept
    rcases RpiServer.v4l2Update_cases e { s with phase := .ret } with
      ⟨hnone, -⟩ | ⟨frame, v, w, -, -, -, -, -, -, hsend⟩
    · have hnone : s.capturedFrame e = none := hnone
      rw [hnone] at hsome
      cases hsome
    · rw [hsend] at hkept
      exact send_of_keeps (s := { s with v4l2 := v, phase := .ret }) hkept

/-- Nothing has been sent on the sockets to come, nor on a peer that is not accepted. -/
structure Unsent (s : RpiServer) : Prop where
  numbered : RpiServer.Numbered s
  fresh : ∀ sock, s.nextSock ≤ sock → transmissions sock s.log = []
  closed : s.sockPeer ∉ s.opened → transmissions s.sockPeer s.log = []

theorem unsent_startup (gpioReady : Bool) (d : Device) (now later : ℤ) :
    Unsent (RpiServer.startup gpioReady d now later) where
  numbered := RpiServer.numbered_startup gpioReady d now later
  fresh := fun _ _ => rfl
  closed := fun _ => rfl

theorem unsent_step (h : Unsent s) (e : Env) : Unsent (s.step e) := by
  have hother {sock : ℕ} (hne : s.sockPeer ≠ sock) :
      transmissions sock (s.step e).log = transmissions sock s.log := by
    rw [transmissions_step, transmissions_events, if_neg hne, List.append_nil]
  have hfresh (sock : ℕ) (hle : s.nextSock ≤ sock) : transmissions sock (s.step e).log = [] :=
    (hother (Nat.ne_of_lt (Nat.lt_of_lt_of_le h.numbered.peer hle))).trans (h.fresh sock hle)
  refine ⟨RpiServer.numbered_step h.numbered e, fun sock hle => ?_, fun hclosed => ?_⟩
  · rcases s.peer_cases e with ⟨hnext, -⟩ | ⟨hnext, -⟩
    · exact hfresh sock (Nat.le_of_succ_le (hnext.symm.le.trans hle))
    · exact hfresh sock (hnext.symm.le.trans hle)
  · rcases s.peer_cases e with ⟨-, hpeer, -⟩ | ⟨hnext, hpeer, hopened⟩
    · rw [hpeer]
      exact hfresh s.nextSock (Nat.le_refl _)
    · rw [hpeer] at hclosed ⊢
      have hsame : s.sockPeer ∉ s.opened := by
        rcases hopened with ⟨hopened, -⟩ | ⟨-, hopened, -⟩
        · rwa [hopened] at hclosed
        · rw [hopened] at hclosed
          exact absurd List.mem_cons_self hclosed
      rw [transmissions_step, h.closed hsame, transmissions_events, if_pos rfl, List.nil_append]
      cases hmade : made s e with
      | none => rfl
      | some f => exact absurd (sends_of_keeps (sends_made hmade) hnext).1 hsame

/-- A connection that is accepted finds nothing sent on it. -/
theorem Unsent.of_accepts (h : Unsent s) (haccepts : accepts s e = true) :
    made s e = none ∧ transmissions s.sockPeer s.log = [] := by
  unfold accepts at haccepts
  split at haccepts
  · rename_i i hp haccept
    have hpending : s.sockPeer ∈ s.pending :=
      List.mem_of_getElem? (eq_of_beq haccepts)
    refine ⟨by simp only [made, hp], h.closed (h.numbered.pending s.sockPeer hpending).2⟩
  · cases haccepts

end Server

/-! ### The line -/

/-- The latest connection of a client. -/
inductive Connection
  | none
  | waiting
  | accepted (sock : ℕ)
  deriving DecidableEq, Repr

/-- The server, and the latest connection of one client: how many of its bytes have arrived, and
which messages the server has made for it. -/
structure Line where
  server : RpiServer
  conn : Connection
  arrived : ℕ
  messages : List ServerFrame

namespace Line

def start (gpioReady : Bool) (d : Device) (now later : ℤ) : Line where
  server := RpiServer.startup gpioReady d now later
  conn := .none
  arrived := 0
  messages := []

/-- The sends on the connection. -/
def sends (l : Line) : List Transmission :=
  match l.conn with
  | .accepted sock => transmissions sock l.server.log
  | _ => []

/-- The bytes that have gone out and have not arrived. -/
def inFlight (l : Line) : List UInt8 := (sentBytes l.sends).drop l.arrived

/-- The bytes of the messages that have not arrived. -/
def toCome (l : Line) : List UInt8 := (l.messages.flatMap bytes).drop l.arrived

/-- The client begins a connection. -/
def dial (l : Line) : Line := { l with conn := .waiting, arrived := 0, messages := [] }

/-- The next `n` bytes in flight arrive. -/
def arrive (l : Line) (n : ℕ) : Line :=
  { l with arrived := l.arrived + (l.inFlight.take n).length }

/-- The messages that a step of the server makes for the connection. -/
def added (l : Line) (e : Env) : List ServerFrame :=
  if l.conn = .accepted l.server.sockPeer then (made l.server e).toList else []

/-- A step of the server.  A connection that it accepts is that of the client if `mine`, and of
somebody else otherwise. -/
def serve (l : Line) (e : Env) (mine : Bool) : Line where
  server := l.server.step e
  conn :=
    if accepts l.server e = true ∧ mine = true ∧ l.conn = .waiting then .accepted l.server.sockPeer
    else l.conn
  arrived := l.arrived
  messages := l.messages ++ l.added e

/-- The step does not start a frame on the connection behind one that is not whole. -/
def WholeBefore (l : Line) (e : Env) : Prop :=
  l.conn = .accepted l.server.sockPeer → Output.WholeBefore l.server e

instance (l : Line) (e : Env) : Decidable (l.WholeBefore e) := inferInstanceAs (Decidable (_ → _))

/-- All messages have gone out and have arrived. -/
def Drained (l : Line) : Prop :=
  (∀ t ∈ l.sends, t.Whole) ∧ l.arrived = (sentBytes l.sends).length

instance (l : Line) : Decidable l.Drained := inferInstanceAs (Decidable (_ ∧ _))

/-- What has arrived and what is in flight are the front of the messages. -/
structure Inv (l : Line) : Prop where
  unsent : Unsent l.server
  encoded : ∀ f ∈ l.messages, f.encode = some (bytes f)
  strings : l.sends.map Transmission.string = l.messages.map bytes
  order : InOrder l.sends
  arrived : l.arrived ≤ (sentBytes l.sends).length

theorem inv_start (gpioReady : Bool) (d : Device) (now later : ℤ) :
    Inv (start gpioReady d now later) where
  unsent := unsent_startup gpioReady d now later
  encoded := fun _ h => absurd h List.not_mem_nil
  strings := rfl
  order := List.Pairwise.nil
  arrived := Nat.le_refl 0

variable {l : Line} {e : Env}

theorem Inv.dial (h : l.Inv) : l.dial.Inv where
  unsent := h.unsent
  encoded := fun _ h => absurd h List.not_mem_nil
  strings := rfl
  order := List.Pairwise.nil
  arrived := Nat.le_refl 0

theorem Inv.arrive (h : l.Inv) (n : ℕ) : (l.arrive n).Inv := by
  refine ⟨h.unsent, h.encoded, h.strings, h.order, ?_⟩
  show l.arrived + (l.inFlight.take n).length ≤ (sentBytes l.sends).length
  have harrived := h.arrived
  simp only [inFlight, List.length_take, List.length_drop]
  omega

theorem Inv.flatMap_string (h : l.Inv) :
    l.sends.flatMap Transmission.string = l.messages.flatMap bytes := by
  rw [List.flatMap_def, h.strings, List.flatMap_def]

/-- What has gone out is the front of the messages. -/
theorem Inv.sentBytes_prefix (h : l.Inv) : sentBytes l.sends <+: l.messages.flatMap bytes := by
  rw [← h.flatMap_string]
  exact PartialSends.sentBytes_prefix h.order

/-- **What arrives is next to come.** -/
theorem Inv.toCome_arrive (h : l.Inv) (n : ℕ) :
    l.toCome = l.inFlight.take n ++ (l.arrive n).toCome := by
  obtain ⟨rest, hrest⟩ := h.sentBytes_prefix
  have hcome : l.toCome = l.inFlight.take n ++ (l.inFlight.drop n ++ rest) := by
    rw [← List.append_assoc, List.take_append_drop, toCome, ← hrest,
      List.drop_append_of_le_length h.arrived, inFlight]
  have hback : (l.arrive n).toCome = l.toCome.drop (l.inFlight.take n).length := by
    show (l.messages.flatMap bytes).drop (l.arrived + (l.inFlight.take n).length) = _
    rw [toCome, List.drop_drop]
  rw [hback, hcome, List.drop_left]

/-- What a step makes comes behind what is to come. -/
theorem Inv.toCome_serve (h : l.Inv) (e : Env) (mine : Bool) :
    (l.serve e mine).toCome = l.toCome ++ (l.added e).flatMap bytes := by
  obtain ⟨rest, hrest⟩ := h.sentBytes_prefix
  have hle : l.arrived ≤ (l.messages.flatMap bytes).length := by
    rw [← hrest, List.length_append]
    exact Nat.le_add_right_of_le h.arrived
  show ((l.messages ++ l.added e).flatMap bytes).drop l.arrived = _
  rw [List.flatMap_append, List.drop_append_of_le_length hle, toCome]

/-- There are no messages for a connection that has not been accepted. -/
theorem Inv.messages_eq_nil (h : l.Inv) (hconn : l.conn = .waiting) : l.messages = [] := by
  have hstrings := h.strings
  simp only [sends, hconn, List.map_nil] at hstrings
  exact List.map_eq_nil_iff.mp hstrings.symm

theorem Inv.toCome_of_drained (h : l.Inv) (hdrained : l.Drained) : l.toCome = [] := by
  obtain ⟨hwhole, harrived⟩ := hdrained
  rw [toCome, ← h.flatMap_string, ← sentBytes_of_whole hwhole, harrived, List.drop_length]

/-! ### A step of the server -/

/-- The sends that a step adds. -/
theorem Inv.sends_serve (h : l.Inv) (e : Env) (mine : Bool) :
    (l.serve e mine).sends = l.sends ++
      (l.added e).map fun f => ⟨bytes f, (l.server.sockSend e (bytes f)).getD 0⟩ := by
  by_cases haccepted : accepts l.server e = true ∧ mine = true ∧ l.conn = .waiting
  · have hconn : (l.serve e mine).conn = .accepted l.server.sockPeer := if_pos haccepted
    obtain ⟨hmade, hnone⟩ := h.unsent.of_accepts haccepted.1
    unfold sends added
    rw [hconn, haccepted.2.2]
    show transmissions l.server.sockPeer (l.server.step e).log = _
    rw [transmissions_step, transmissions_events, hnone, hmade]
    simp
  · have hconn : (l.serve e mine).conn = l.conn := if_neg haccepted
    unfold sends added
    rw [hconn]
    cases hc : l.conn with
    | none | waiting => simp
    | accepted sock =>
        show transmissions sock (l.server.step e).log = _
        rw [transmissions_step, transmissions_events]
        by_cases hpeer : l.server.sockPeer = sock
        · rw [if_pos hpeer, if_pos (congrArg Connection.accepted hpeer.symm)]
        · rw [if_neg hpeer, if_neg fun h => hpeer (Connection.accepted.inj h).symm]
          rfl

theorem of_mem_added {f : ServerFrame} (h : f ∈ l.added e) :
    l.conn = .accepted l.server.sockPeer ∧ made l.server e = some f := by
  unfold added at h
  split at h
  · rename_i hconn
    exact ⟨hconn, Option.mem_toList.mp h⟩
  · exact absurd h List.not_mem_nil

/-- **A step of the server**, if it does not start a frame behind one that is not whole. -/
theorem Inv.serve (h : l.Inv) (hwhole : l.WholeBefore e) (mine : Bool) : (l.serve e mine).Inv := by
  have hsends := h.sends_serve e mine
  refine ⟨unsent_step h.unsent e, ?_, ?_, ?_, ?_⟩
  · intro f hf
    rcases List.mem_append.mp hf with hold | hnew
    · exact h.encoded f hold
    · exact encode_made (of_mem_added hnew).2
  · show _ = (l.messages ++ l.added e).map bytes
    rw [hsends, List.map_append, List.map_append, h.strings, List.map_map]
    rfl
  · rw [hsends]
    cases hadded : l.added e with
    | nil =>
        rw [List.map_nil, List.append_nil]
        exact h.order
    | cons f rest =>
        obtain ⟨hconn, hmade⟩ := of_mem_added (hadded ▸ List.mem_cons_self)
        have hone : l.added e = [f] := by rw [added, if_pos hconn, hmade, Option.toList_some]
        obtain rfl : rest = [] := (List.cons.inj (hadded.symm.trans hone)).2
        refine inOrder_concat.mpr ⟨h.order, fun hpos t ht => ?_⟩
        rw [sends, hconn] at ht
        exact hwhole hconn ⟨sends_made hmade, of_sockSend_pos hpos⟩ t ht
  · rw [hsends, sentBytes, List.flatMap_append, List.length_append]
    exact Nat.le_add_right_of_le h.arrived

end Line

end MKart.System
