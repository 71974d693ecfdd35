import MKart.ClientQt.Reassembly
import MKart.ClientQt.Reconnect
import MKart.System.Line

/-!
# The Qt client's pictures

The Qt client and the server, with everything between them: connections that come and go, a
server that accepts this client or another one, a network that hands the bytes over in pieces of
any size, and scripts that do what they like.

What the client hands to its image decoder on a connection are the pictures that the camera has
delivered for it, whole, in their order and each once (`images_prefix`), and once everything has
arrived two updates for each message show them all (`images_complete`).  That holds of every run
in which the three ways are avoided in which the two programs lose their place in the stream
(`InPlace`).
-/

namespace MKart.System.Video

open MKart.Bytes MKart.Runs MKart.Framing MKart.LittleEndian MKart.ClientQt MKart.Server
open MKart.ClientQt.Reassembly (delivered Follows)
open MKart.ClientUnity.EndToEnd (ServerFrame)

/-! ### Messages and pictures -/

/-- The picture of a message. -/
def picture : ServerFrame → Option (List UInt8)
  | .jpeg bytesused ptr => some (readBytes ptr bytesused.toNat)
  | _ => none

/-- What the client's `on_recieve_jpeg` is handed for a message, if it is. -/
def handed (env : FpvEnv) (msg : List UInt8) : Option (List UInt8) :=
  if FpvContext.is4cc (FpvContext.msgPtr env msg) 'J' 'P' 'E' 'G' then
    some (readBytes (fun i => FpvContext.msgPtr env msg (4 + i))
      (((msg.length : ℤ) - 4) % 2 ^ 32).toNat)
  else none

/-- What a message carries behind its length. -/
def content : ServerFrame → List UInt8
  | .jpeg bytesused ptr => jpegTag ++ readBytes ptr bytesused.toNat
  | .gpio bank values => gpioTag ++ leBytes 4 bank.toNat ++ leBytes 4 values.toNat
  | .keepAlive => []

def payload (f : ServerFrame) : Payload 4 :=
  if h : (content f).length < 256 ^ 4 then ⟨content f, h⟩ else ⟨[], by decide⟩

/-- The picture in what a message carries. -/
def image (msg : List UInt8) : Option (List UInt8) :=
  if msg.take 4 = jpegTag then some (msg.drop 4) else none

theorem image_content (f : ServerFrame) : image (content f) = picture f := by
  cases f with
  | jpeg bytesused ptr => exact if_pos rfl
  | gpio bank values => exact if_neg (by show ¬ gpioTag = jpegTag; decide)
  | keepAlive => rfl

theorem content_length (f : ServerFrame) : content f = [] ∨ 4 ≤ (content f).length := by
  cases f with
  | jpeg bytesused ptr => exact Or.inr (by simp [content, jpegTag])
  | gpio bank values => exact Or.inr (by simp [content, gpioTag])
  | keepAlive => exact Or.inl rfl

/-- A message that is made is the frame of what it carries. -/
theorem bytes_eq {f : ServerFrame} (h : f.encode = some (bytes f)) :
    bytes f = frame 4 (content f) := by
  cases f with
  | jpeg bytesused ptr => exact eq_of_jpegMessage h
  | gpio bank values => exact gpioMessage_eq bank values
  | keepAlive => exact keepAliveMessage_eq

theorem payload_bytes {f : ServerFrame} (h : f.encode = some (bytes f)) :
    (payload f).bytes = content f := by
  have hfits : (content f).length < 256 ^ 4 := by
    cases f with
    | jpeg bytesused ptr =>
        have hsize : ¬ 2 ^ 32 ≤ bytesused.toNat + 8 := by
          rw [← jpegMessage_eq_none bytesused ptr]
          exact fun hnone => absurd (hnone.symm.trans h) (Option.some_ne_none _).symm
        simp only [content, jpegTag, List.length_append, List.length_cons, List.length_nil,
          readBytes_length]
        omega
    | gpio bank values => simp [content, gpioTag]
    | keepAlive => decide
  rw [payload, dif_pos hfits]

theorem stream_payload {fs : List ServerFrame} (h : ∀ f ∈ fs, f.encode = some (bytes f)) :
    Framing.stream 4 (fs.map payload) = fs.flatMap bytes := by
  induction fs with
  | nil => rfl
  | cons f fs ih =>
      have hf := h f List.mem_cons_self
      rw [List.map_cons, Framing.stream_cons, List.flatMap_cons, payload_bytes hf, ← bytes_eq hf,
        ih fun g hg => h g (List.mem_cons_of_mem f hg)]

/-- **The pictures of the messages are the images of what is delivered.** -/
theorem images_delivered {fs : List ServerFrame} (h : ∀ f ∈ fs, f.encode = some (bytes f)) :
    (delivered (fs.map payload)).filterMap image = fs.filterMap picture := by
  induction fs with
  | nil => rfl
  | cons f fs ih =>
      have hf := payload_bytes (h f List.mem_cons_self)
      have hrest := ih fun g hg => h g (List.mem_cons_of_mem f hg)
      rw [List.map_cons, ← List.singleton_append, Reassembly.delivered_append,
        List.filterMap_append, hrest, List.filterMap_cons]
      have hone : (delivered [payload f]).filterMap image = (picture f).toList := by
        rw [← image_content]
        by_cases hnil : content f = []
        · simp [delivered, hf, hnil, image, jpegTag]
        · have hkeep : delivered [payload f] = [content f] := by simp [delivered, hf, hnil]
          rw [hkeep, List.filterMap_cons]
          cases image (content f) with
          | none => rfl
          | some p => rfl
      rw [hone]
      cases picture f with
      | none => rfl
      | some p => rfl

/-- What the client is handed is in the message: it does not look behind one of four bytes or
more. -/
theorem handed_eq (env : FpvEnv) {msg : List UInt8} (hlen : 4 ≤ msg.length)
    (hfits : msg.length < 256 ^ 4) : handed env msg = image msg := by
  match msg, hlen with
  | b0 :: b1 :: b2 :: b3 :: rest, _ =>
      have hcc : FpvContext.is4cc (FpvContext.msgPtr env (b0 :: b1 :: b2 :: b3 :: rest)) 'J' 'P'
          'E' 'G' = decide ([b0, b1, b2, b3] = jpegTag) := by
        simp only [jpegTag, List.cons.injEq, and_true, Bool.decide_and]
        rw [FpvContext.is4cc, Bool.and_assoc, Bool.and_assoc]
        rfl
      have hlength : ((((b0 :: b1 :: b2 :: b3 :: rest).length : ℤ) - 4) % 2 ^ 32).toNat =
          rest.length := by
        simp only [List.length_cons] at hfits ⊢
        omega
      have hread : readBytes (fun i => FpvContext.msgPtr env (b0 :: b1 :: b2 :: b3 :: rest) (4 + i))
          rest.length = rest := by
        apply List.ext_getElem (by simp)
        intro i h1 h2
        simp [readBytes, FpvContext.msgPtr, Nat.add_comm 4 i, h2]
      rw [handed, image, hcc, hlength, hread]
      simp

/-! ### Both machines -/

/-- Client and server.  `got` and `images` are the messages that the client has obtained on its
latest connection, and what it has handed to its decoder. -/
structure Session where
  line : Line
  client : FpvContext
  got : List (List UInt8)
  images : List (List UInt8)

inductive Input
  | init
  | connect
  | disconnect
  | setCapturing (enabled : Bool)
  | update (env : FpvEnv)
  /-- The state of the client's socket changes; entering `ConnectedState` begins a connection. -/
  | network (state : SocketState)
  | arrive (n : ℕ)
  /-- A step of the server; what it accepts is the client's connection (`mine`) or another. -/
  | server (e : Env) (mine : Bool)

namespace Session

def start (gpioReady : Bool) (d : Device) (now later : ℤ) : Session where
  line := .start gpioReady d now later
  client := FpvContext.init
  got := []
  images := []

def update (s : Session) (env : FpvEnv) : Session :=
  let r := s.client.update env
  { s with
    client := r.1
    got := s.got ++ r.2.toList
    images := s.images ++ (r.2.bind (handed env)).toList }

/-- The client with another socket. -/
def withSock (s : Session) (sock : QTcpSocket) : Session :=
  { s with client := { s.client with tcp := { s.client.tcp with sock := sock } } }

/-- The socket becomes connected: a connection begins. -/
def Enters (s : Session) (state : SocketState) : Prop :=
  state = .connectedState ∧ s.client.tcp.sock.state ≠ .connectedState

instance (s : Session) (state : SocketState) : Decidable (s.Enters state) :=
  inferInstanceAs (Decidable (_ ∧ _))

def network (s : Session) (state : SocketState) : Session :=
  if s.Enters state then
    { s.withSock ⟨.connectedState, []⟩ with line := s.line.dial, got := [], images := [] }
  else s.withSock { s.client.tcp.sock with state := state }

def arrive (s : Session) (n : ℕ) : Session :=
  if s.client.tcp.sock.state = .connectedState then
    { s.withSock { s.client.tcp.sock with
        buf := s.client.tcp.sock.buf ++ s.line.inFlight.take n } with line := s.line.arrive n }
  else s

def step (s : Session) : Input → Session
  | .init => { s with client := FpvService.init s.client }
  | .connect => { s with client := (FpvService.connect QTcpSocket.write s.client).1 }
  | .disconnect => { s with client := FpvService.disconnect s.client }
  | .setCapturing enabled =>
      { s with client := (FpvService.setCapturing QTcpSocket.write s.client enabled).1 }
  | .update env => s.update env
  | .network state => s.network state
  | .arrive n => s.arrive n
  | .server e mine => { s with line := s.line.serve e mine }

/-- What the client sees as a receiver on one connection. -/
def receiver (s : Session) : Reassembly.Session := ⟨s.client, s.line.toCome, s.got⟩

/-- The payloads of the messages made for the connection. -/
def frames (s : Session) : List (Payload 4) := s.line.messages.map payload

end Session

/-- The condition on a step.  The client does not find one to three bytes of a length, does not
begin a connection inside a message of the one before, and the server starts no frame behind one
that has not gone out as a whole. -/
def InPlace (s : Session) : Input → Prop
  | .update _ => s.client.tcp.sock.state = .connectedState → s.client.tcp.LengthWhole
  | .network state => s.Enters state → s.client.tcp.messageRemain = 0
  | .server e _ => s.line.WholeBefore e
  | _ => True

instance (s : Session) : (i : Input) → Decidable (InPlace s i)
  | .update _ | .network _ => inferInstanceAs (Decidable (_ → _))
  | .server e _ => inferInstanceAs (Decidable (s.line.WholeBefore e))
  | .init | .connect | .disconnect | .setCapturing _ | .arrive _ => inferInstanceAs (Decidable True)

/-! ### The invariant -/

structure Inv (s : Session) : Prop where
  line : s.line.Inv
  nonneg : 0 ≤ s.client.tcp.messageRemain
  unready : s.client.tcp.messageReady = false
  follows : s.client.tcp.sock.state = .connectedState → ∃ past, Follows s.frames past s.receiver
  got : s.got <+: delivered s.frames
  images : s.images = s.got.filterMap image

theorem inv_start (gpioReady : Bool) (d : Device) (now later : ℤ) :
    Inv (Session.start gpioReady d now later) where
  line := Line.inv_start gpioReady d now later
  nonneg := le_refl 0
  unready := rfl
  follows := fun h => by cases h
  got := List.prefix_rfl
  images := rfl

/-- What a receiver follows depends on its `Tcp` only. -/
theorem follows_congr {frames past : List (Payload 4)} {c c' : FpvContext} {toCome : List UInt8}
    {got : List (List UInt8)} (h : Follows frames past ⟨c, toCome, got⟩) (htcp : c'.tcp = c.tcp) :
    Follows frames past ⟨c', toCome, got⟩ := by
  obtain ⟨hconn, hready, hparsed, hgot⟩ := h
  refine ⟨?_, ?_, ?_, hgot⟩
  · show c'.tcp.sock.state = _
    rw [htcp]
    exact hconn
  · show c'.tcp.messageReady = _
    rw [htcp]
    exact hready
  · show ∃ consumed, Parsed past consumed c'.tcp ∧ consumed ++ c'.tcp.sock.buf ++ toCome = _
    rw [htcp]
    exact hparsed

theorem follows_arrive {frames past : List (Payload 4)} {c : FpvContext}
    {piece rest : List UInt8} {got : List (List UInt8)}
    (h : Follows frames past ⟨c, piece ++ rest, got⟩) :
    Follows frames past ⟨{ c with tcp := { c.tcp with sock :=
      { c.tcp.sock with buf := c.tcp.sock.buf ++ piece } } }, rest, got⟩ := by
  obtain ⟨hconn, hready, ⟨consumed, hparsed, hbytes⟩, hgot⟩ := h
  refine ⟨hconn, hready, ⟨consumed, hparsed.congr rfl rfl id, ?_⟩, hgot⟩
  show consumed ++ (c.tcp.sock.buf ++ piece) ++ rest = _
  rw [← hbytes]
  simp only [List.append_assoc]

theorem follows_more {frames past : List (Payload 4)} {c : FpvContext} {toCome : List UInt8}
    {got : List (List UInt8)} (h : Follows frames past ⟨c, toCome, got⟩)
    (more : List (Payload 4)) :
    Follows (frames ++ more) past ⟨c, toCome ++ Framing.stream 4 more, got⟩ := by
  obtain ⟨hconn, hready, ⟨consumed, hparsed, hbytes⟩, hgot⟩ := h
  refine ⟨hconn, hready, ⟨consumed, hparsed, ?_⟩, hgot⟩
  rw [Framing.stream_append, ← hbytes, List.append_assoc, List.append_assoc, List.append_assoc]

theorem arrived_receiver (s : Session) (env : FpvEnv) :
    Reassembly.arrived s.receiver ⟨0, env⟩ = s.client.tcp := by
  show { s.client.tcp with sock := { s.client.tcp.sock with buf := s.client.tcp.sock.buf ++ [] } }
    = s.client.tcp
  rw [List.append_nil]

/-- An update is one of the receiver. -/
theorem receiver_update (s : Session) (env : FpvEnv) :
    (s.update env).receiver = Reassembly.step s.receiver ⟨0, env⟩ := by
  unfold Reassembly.step
  rw [arrived_receiver]
  rfl

/-- The images are those of the messages obtained, none of which is too short. -/
theorem images_update {s : Session} (env : FpvEnv) (himages : s.images = s.got.filterMap image)
    (hlong : ∀ msg ∈ (s.update env).got, 4 ≤ msg.length ∧ msg.length < 256 ^ 4) :
    (s.update env).images = (s.update env).got.filterMap image := by
  show s.images ++ ((s.client.update env).2.bind (handed env)).toList =
    (s.got ++ (s.client.update env).2.toList).filterMap image
  rw [List.filterMap_append, ← himages]
  cases hobtained : (s.client.update env).2 with
  | none => rfl
  | some msg =>
      have hmem : msg ∈ (s.update env).got := by
        show msg ∈ s.got ++ (s.client.update env).2.toList
        rw [hobtained]
        exact List.mem_append_right _ List.mem_cons_self
      obtain ⟨hlen, hfits⟩ := hlong msg hmem
      show s.images ++ (handed env msg).toList = s.images ++ [msg].filterMap image
      rw [handed_eq env hlen hfits, List.filterMap_cons]
      cases image msg with
      | none => rfl
      | some p => rfl

section Steps

variable {s : Session} (h : Inv s)
include h

/-- What the client does by itself leaves its parser alone, or clears it with the connection. -/
theorem inv_client (c : FpvContext) (hremain : 0 ≤ c.tcp.messageRemain)
    (hready : c.tcp.messageReady = false)
    (hsock : c.tcp.sock.state = .connectedState → c.tcp = s.client.tcp) :
    Inv { s with client := c } where
  line := h.line
  nonneg := hremain
  unready := hready
  follows := fun hconn => by
    have htcp := hsock hconn
    obtain ⟨past, hpast⟩ := h.follows (htcp ▸ hconn)
    exact ⟨past, follows_congr hpast htcp⟩
  got := h.got
  images := h.images

theorem inv_sock (sock : QTcpSocket)
    (hsock : sock.state = .connectedState → sock = s.client.tcp.sock) : Inv (s.withSock sock) :=
  inv_client h _ h.nonneg h.unready fun hconn => by
    show { s.client.tcp with sock := sock } = s.client.tcp
    rw [hsock hconn]

theorem inv_network (state : SocketState) (hplace : InPlace s (.network state)) :
    Inv (s.network state) := by
  unfold Session.network
  split
  · rename_i henters
    have hremain : s.client.tcp.messageRemain = 0 := hplace henters
    refine ⟨h.line.dial, h.nonneg, h.unready, fun _ => ⟨[], ?_⟩, List.nil_prefix, rfl⟩
    exact ⟨rfl, h.unready, ⟨[], .boundary hremain rfl, rfl⟩, rfl⟩
  · rename_i henters
    refine inv_sock h _ fun hconn => ?_
    have hstate : state = .connectedState := hconn
    have hold : s.client.tcp.sock.state = .connectedState := by
      by_contra hne
      exact henters ⟨hstate, hne⟩
    rw [hstate, ← hold]

theorem inv_arrive (n : ℕ) : Inv (s.arrive n) := by
  unfold Session.arrive
  split
  · rename_i hconn
    obtain ⟨past, hpast⟩ := h.follows hconn
    rw [Session.receiver, h.line.toCome_arrive n] at hpast
    exact ⟨h.line.arrive n, h.nonneg, h.unready, fun _ => ⟨past, follows_arrive hpast⟩, h.got,
      h.images⟩
  · exact h

theorem inv_server {e : Env} {mine : Bool} (hplace : InPlace s (.server e mine)) :
    Inv { s with line := s.line.serve e mine } := by
  have hadded : ∀ f ∈ s.line.added e, f.encode = some (bytes f) :=
    fun f hf => encode_made (Line.of_mem_added hf).2
  have hframes : ({ s with line := s.line.serve e mine } : Session).frames =
      s.frames ++ (s.line.added e).map payload := List.map_append
  refine ⟨h.line.serve hplace mine, h.nonneg, h.unready, fun hconn => ?_, ?_, h.images⟩
  · obtain ⟨past, hpast⟩ := h.follows hconn
    refine ⟨past, ?_⟩
    rw [hframes, Session.receiver, h.line.toCome_serve e mine, ← stream_payload hadded]
    exact follows_more hpast _
  · rw [hframes, Reassembly.delivered_append]
    exact h.got.trans (List.prefix_append _ _)

/-- Every message that is delivered has four bytes or more. -/
theorem length_of_mem_delivered {msg : List UInt8} (hmsg : msg ∈ delivered s.frames) :
    4 ≤ msg.length ∧ msg.length < 256 ^ 4 := by
  obtain ⟨hmem, hne⟩ := List.mem_filter.mp hmsg
  obtain ⟨p, hp, rfl⟩ := List.mem_map.mp hmem
  obtain ⟨f, hf, rfl⟩ := List.mem_map.mp hp
  refine ⟨?_, (payload f).fits⟩
  rw [payload_bytes (h.line.encoded f hf)]
  rcases content_length f with hnil | hlen
  · rw [payload_bytes (h.line.encoded f hf), hnil] at hne
    exact absurd hne (by decide)
  · exact hlen

theorem inv_update (env : FpvEnv) (hplace : InPlace s (.update env)) : Inv (s.update env) := by
  obtain ⟨htcp, hmsg⟩ := FpvContext.update_tcp env s.client
  by_cases hconn : s.client.tcp.sock.state = .connectedState
  · obtain ⟨past, hpast⟩ := h.follows hconn
    have hwhole : Reassembly.LengthsWhole s.receiver ⟨0, env⟩ := by
      rw [Reassembly.LengthsWhole, arrived_receiver]
      exact hplace hconn
    obtain ⟨ps, hnext⟩ := Reassembly.step_follows hpast hwhole
    rw [← receiver_update] at hnext
    have hgot : (s.update env).got <+: delivered s.frames := hnext.got_prefix
    refine ⟨h.line, ?_, hnext.unready, fun _ => ⟨_, hnext⟩, hgot, ?_⟩
    · obtain ⟨consumed, hparsed, -⟩ := hnext.parsed
      exact hparsed.nonneg
    · exact images_update env h.images fun msg hmsg =>
        length_of_mem_delivered h (hgot.subset hmsg)
  · have htcp' : (s.client.update env).1.tcp =
        { s.client.tcp with state := TcpPrivate.pollState s.client.tcp.sock.state } := by
      rw [htcp, TcpPrivate.update_not_connected _ hconn]
      simp [Tcp.readMessage, h.unready]
    have hnone : (s.client.update env).2 = none := by
      rw [hmsg, TcpPrivate.update_not_connected _ hconn]
      simp [Tcp.readMessage, h.unready]
    have hsame : s.update env = { s with client := (s.client.update env).1 } := by
      show ({ s with
        client := (s.client.update env).1
        got := s.got ++ (s.client.update env).2.toList
        images := s.images ++ ((s.client.update env).2.bind (handed env)).toList } : Session) = _
      rw [hnone]
      simp
    rw [hsame]
    refine inv_client h _ ?_ ?_ fun hc => ?_
    · rw [htcp']
      exact h.nonneg
    · rw [htcp']
      exact h.unready
    · rw [htcp'] at hc
      exact absurd hc hconn

end Steps

/-- **Every step keeps the client's place in the stream**, if the condition is met. -/
theorem step_inv (s : Session) (i : Input) (h : Inv s) (hplace : InPlace s i) :
    Inv (s.step i) := by
  cases i with
  | init => exact inv_client h _ (le_refl 0) rfl fun hc => by cases hc
  | connect => exact inv_sock h _ (Reconnect.connectToHost_connected s.client.tcp.sock)
  | disconnect => exact inv_sock h _ fun hc => by cases hc
  | setCapturing enabled => exact inv_client h _ h.nonneg h.unready fun _ => rfl
  | update env => exact inv_update h env hplace
  | network state => exact inv_network h state hplace
  | arrive n => exact inv_arrive h n
  | server e mine => exact inv_server h hplace

theorem Inv.images_delivered {s : Session} (h : Inv s) :
    (delivered s.frames).filterMap image = s.line.messages.filterMap picture :=
  Video.images_delivered h.line.encoded

/-- **The client shows the camera's pictures.**  In every run whose steps keep the two programs in
place, what the client has handed to its decoder on its latest connection is at every point a
prefix of the pictures that the camera has delivered for it. -/
theorem images_prefix (gpioReady : Bool) (d : Device) (now later : ℤ) (is : List Input)
    (hplace : Meets Session.step InPlace (.start gpioReady d now later) is) :
    Always Session.step (fun s => s.images <+: s.line.messages.filterMap picture)
      (.start gpioReady d now later) is := by
  apply (always_of_meets step_inv (inv_start gpioReady d now later) hplace).imp
  intro s h
  rw [h.images, ← h.images_delivered]
  exact h.got.filterMap image

/-- An update in which no picture decodes. -/
def envIdle : FpvEnv := ⟨fun _ => 0, fun _ _ => none⟩

/-- A client connects and asks for video, and the camera delivers a picture. -/
def captures : List Input :=
  [.connect, .network .connectedState] ++
    (Server.Video.asks ++ [Server.Video.captureAt 200000000 (some 12)]).map (.server · true)

/-- The picture arrives in two pieces. -/
theorem images_prefix_one :
    Always Session.step (fun s => s.images <+: s.line.messages.filterMap picture)
      (.start true .camera 0 0)
      (captures ++ [.arrive 6, .update envIdle, .arrive 6, .update envIdle]) :=
  images_prefix true .camera 0 0 _ (by decide +kernel)

section Drain

variable {s : Session} (envs : List FpvEnv)

theorem run_updates :
    (run Session.step s (envs.map .update)).receiver =
      run Reassembly.step s.receiver (envs.map (⟨0, ·⟩)) := by
  induction envs generalizing s with
  | nil => rfl
  | cons env envs ih =>
      rw [List.map_cons, List.map_cons, run_cons, run_cons, ← receiver_update]
      exact ih

theorem got_run : s.got <+: (run Session.step s (envs.map .update)).got := by
  induction envs generalizing s with
  | nil => exact List.prefix_rfl
  | cons env envs ih => exact (List.prefix_append _ _).trans (ih (s := s.update env))

theorem images_run (himages : s.images = s.got.filterMap image)
    (hlong : ∀ msg ∈ (run Session.step s (envs.map .update)).got,
      4 ≤ msg.length ∧ msg.length < 256 ^ 4) :
    (run Session.step s (envs.map .update)).images =
      (run Session.step s (envs.map .update)).got.filterMap image := by
  induction envs generalizing s with
  | nil => exact himages
  | cons env envs ih =>
      apply ih (s := s.update env) _ hlong
      exact images_update env himages fun msg hmsg => hlong msg ((got_run envs).subset hmsg)

end Drain

/-- **What has arrived is shown.** -/
theorem Inv.images_drained {s : Session} (h : Inv s) {envs : List FpvEnv}
    (hconn : s.client.tcp.sock.state = .connectedState) (hdrained : s.line.Drained)
    (henough : 2 * s.line.messages.length ≤ envs.length) :
    (run Session.step s (envs.map .update)).images = s.line.messages.filterMap picture := by
  obtain ⟨past, hpast⟩ := h.follows hconn
  have hgot : (run Session.step s (envs.map .update)).got = delivered s.frames := by
    show (run Session.step s (envs.map .update)).receiver.got = _
    rw [run_updates]
    apply Reassembly.run_drained hpast (h.line.toCome_of_drained hdrained)
    apply (Reassembly.pending_le _ _ _).trans
    simpa [Session.frames] using henough
  rw [images_run envs h.images, hgot, h.images_delivered]
  intro msg hmsg
  exact length_of_mem_delivered h (hgot ▸ hmsg)

/-- **It shows all of them.**  Once all messages have gone out and arrived at a client that is still
connected, two updates for each message hand every picture to the decoder. -/
theorem images_complete (gpioReady : Bool) (d : Device) (now later : ℤ) (is : List Input)
    (envs : List FpvEnv) (hplace : Meets Session.step InPlace (.start gpioReady d now later) is) :
    let s := run Session.step (.start gpioReady d now later) is
    s.client.tcp.sock.state = .connectedState → s.line.Drained →
      2 * s.line.messages.length ≤ envs.length →
        (run Session.step s (envs.map .update)).images = s.line.messages.filterMap picture := by
  intro s hconn hdrained henough
  have h : Inv s := (always_of_meets step_inv (inv_start gpioReady d now later) hplace).last
  exact h.images_drained hconn hdrained henough

/-- Two updates show the picture. -/
theorem images_complete_one :
    let s := run Session.step (.start true .camera 0 0) (captures ++ [.arrive 12])
    (run Session.step s ([envIdle, envIdle].map .update)).images =
        s.line.messages.filterMap picture ∧
      s.line.messages.filterMap picture = [[0xFF, 0xD8, 0xFF, 0xE0]] := by
  have hplace : Meets Session.step InPlace (.start true .camera 0 0)
      (captures ++ [.arrive 12]) := by
    decide +kernel
  have h := images_complete true .camera 0 0 (captures ++ [.arrive 12]) [envIdle, envIdle] hplace
  refine ⟨h ?_ ?_ ?_, ?_⟩
  · decide +kernel
  · decide +kernel
  · decide +kernel
  · decide +kernel

end MKart.System.Video
