import MKart.ClientUnity.Lengths

/-!
# Sessions of the Unity client

Runs of `Connect`, `Disconnect` and `RecieveMessage` over any number of connections.  A `Session`
is the object with what an observer records of the current connection: the stream that the peer
sends on it, the part that has not arrived, and the messages that the client has extracted since
it connected.

`m_Received` is cleared by `Disconnect` alone, and only while `m_TcpClient` is set; a connection
also ends when the peer closes it, when a `Connect` fails, and when another `Connect` replaces it.
`Disconnect` then goes on to clear `m_Message`, which is null until a first message has been
extracted.  A run keeps its sessions apart exactly if it meets neither (`Orderly`).
-/

namespace MKart.ClientUnity

open MKart.LittleEndian MKart.Framing MKart.Runs

/-! ### `Connect` and `Disconnect` -/

/-- `V4L2Client.Connect`, whose constructor call connects (`ok`) or throws. -/
def connect (ok : Bool) (c : V4L2Client) : V4L2Client :=
  { c with tcpClient := if ok then some ⟨true, []⟩ else none }

/-- `m_Message.Clear()`. -/
def clearMessage : Unity Unit := do
  let _ ← messageBytes
  modify fun c => { c with message := some [] }

/-- `V4L2Client.Disconnect`. -/
def disconnect : Unity Unit := do
  match (← get).tcpClient with
  | none => return ()
  | some _ =>
      modify fun c => { c with tcpClient := none }
      modify fun c => { c with received := [] }
      clearMessage

/-- What a `Disconnect` leaves, and whether it completes. -/
theorem disconnect_cases (c : V4L2Client) :
    (c.tcpClient = none ∧ disconnect c = .ok () c) ∨
    (c.tcpClient ≠ none ∧ c.message ≠ none ∧
      disconnect c = .ok () { c with tcpClient := none, received := [], message := some [] }) ∨
    (c.tcpClient ≠ none ∧ c.message = none ∧
      disconnect c = .error .nullReference { c with tcpClient := none, received := [] }) := by
  obtain ⟨tcpClient, received, message, fourCC⟩ := c
  cases tcpClient with
  | none => exact Or.inl ⟨rfl, rfl⟩
  | some tcp =>
      cases message with
      | none => exact Or.inr (Or.inr ⟨Option.some_ne_none tcp, rfl, rfl⟩)
      | some msg =>
          exact Or.inr (Or.inl ⟨Option.some_ne_none tcp, Option.some_ne_none msg, rfl⟩)

def FourCC.bytes (f : FourCC) : List UInt8 := [f.c0, f.c1, f.c2, f.c3]

namespace Sessions

/-! ### The machine -/

/-- A frame that the server sends: a keep-alive, or a tag and data. -/
structure WireFrame where
  payload : Payload 4
  wellFormed : payload.bytes = [] ∨
    (4 ≤ payload.bytes.length ∧ payload.bytes.length + 4 < 2 ^ 31)

def wire (fs : List WireFrame) : List UInt8 := stream 4 (fs.map WireFrame.payload)

inductive Event
  /-- `Connect`: it fails, or reaches a peer that is going to send these frames. -/
  | connect (peer : Option (List WireFrame))
  | disconnect
  /-- `RecieveMessage`, with the number of bytes its read returns. -/
  | recieve (count : ℕ)
  /-- The next `n` bytes of the current connection arrive. -/
  | arrive (n : ℕ)
  /-- The peer closes, and the client's socket has noticed. -/
  | close

structure Session where
  client : V4L2Client
  stream : List UInt8
  coming : List UInt8
  /-- The messages extracted since the last `Connect`, with their tags. -/
  delivered : List (List UInt8)
  /-- A `Disconnect` has thrown. -/
  threw : Bool
  /-- A successful `Connect` has left something in `m_Received`. -/
  stale : Bool

def init : Session where
  client := V4L2Client.construct
  stream := []
  coming := []
  delivered := []
  threw := false
  stale := false

/-- The message that a call of `RecieveMessage` extracts, with its tag. -/
def extracted (n : ℕ) (c : V4L2Client) : List (List UInt8) :=
  match c.tcpClient with
  | none => []
  | some tcp =>
      if tcp.connected then
        match takeFrame (reading n c) with
        | .ok true c' => [c'.fourCC.bytes ++ c'.message.getD []]
        | _ => []
      else []

def throws {α : Type} : EStateM.Result Exn V4L2Client α → Bool
  | .ok _ _ => false
  | .error _ _ => true

def step (s : Session) : Event → Session
  | .connect none => { s with client := connect false s.client }
  | .connect (some fs) =>
      { s with
        client := connect true s.client
        stream := wire fs
        coming := wire fs
        delivered := []
        stale := s.stale || !(connect true s.client).received.isEmpty }
  | .disconnect =>
      { s with
        client := leaves (disconnect s.client)
        threw := s.threw || throws (disconnect s.client) }
  | .recieve n =>
      { s with
        client := leaves (recieveMessage n s.client)
        delivered := s.delivered ++ extracted n s.client }
  | .arrive n =>
      { s with client := arrive (s.coming.take n) s.client, coming := s.coming.drop n }
  | .close =>
      { s with client := { s.client with
          tcpClient := s.client.tcpClient.map fun tcp => { tcp with connected := false } } }

/-- The sessions so far have been kept apart. -/
structure Isolated (s : Session) : Prop where
  completes : s.threw = false
  fresh : s.stale = false
  /-- Every message is a frame of the current connection, from one of its boundaries on. -/
  frames : ∀ m ∈ s.delivered, IsFrameOf 4 s.stream m

/-- The step does not connect over bytes left in `m_Received`, and does not disconnect before any
message has been extracted. -/
def Orderly (s : Session) : Event → Prop
  | .connect (some _) => s.client.received = []
  | .disconnect => s.client.tcpClient = none ∨ s.client.message ≠ none
  | _ => True

/-! ### One extraction -/

theorem wire_cons (f : WireFrame) (fs : List WireFrame) :
    wire (f :: fs) = frame 4 f.payload.bytes ++ wire fs := stream_cons 4 f.payload _

/-- Bytes that hold a prefix start with the length of the first frame. -/
theorem lengthPrefix_wire {received tail : List UInt8} {f : WireFrame} {fs : List WireFrame}
    (h : received ++ tail = wire (f :: fs)) (hlen : 4 ≤ received.length) :
    lengthPrefix received = f.payload.bytes.length := by
  rw [lengthPrefix, ← leValue_frame_take f.payload (wire fs), ← wire_cons, ← h,
    List.take_append_of_le_length hlen]

/-- An extraction from the front of a stream of frames takes at most one of them. -/
theorem takeFrame_wire {c : V4L2Client} {tail : List UInt8} {rest : List WireFrame}
    (h : c.received ++ tail = wire rest) :
    ∃ b c' ps rest', takeFrame c = .ok b c' ∧ c'.received ++ tail = wire rest' ∧
      wire rest = stream 4 ps ++ wire rest' ∧
      (b = true → ∃ p, ps = [p] ∧ c'.fourCC.bytes ++ c'.message.getD [] = p.bytes) := by
  by_cases hlen : c.received.length < 4
  · exact ⟨false, c, [], rest, takeFrame_short hlen, h, rfl, fun hb => by cases hb⟩
  · cases rest with
    | nil =>
        have hnil := congrArg List.length h
        rw [List.length_append] at hnil
        have : (wire []).length = 0 := rfl
        omega
    | cons f fs =>
        have hnum := lengthPrefix_wire h (by omega)
        rcases f.wellFormed with hempty | ⟨hfour, hlt⟩
        · have hzero : lengthPrefix c.received = 0 := by
            rw [hnum, hempty]
            rfl
          have hframe : (frame 4 f.payload.bytes).length = 4 := by
            rw [frame_length, hempty]
            rfl
          refine ⟨false, _, [f.payload], fs, takeFrame_zero (by omega) hzero, ?_, ?_,
            fun hb => by cases hb⟩
          · show c.received.drop 4 ++ tail = wire fs
            rw [← List.drop_append_of_le_length (by omega), h, wire_cons, List.drop_left' hframe]
          · rw [stream_singleton, wire_cons]
        · rw [← hnum] at hfour hlt
          by_cases hthere : lengthPrefix c.received + 4 ≤ c.received.length
          · obtain ⟨t0, t1, t2, t3, body, hbody, hsplit, htake⟩ :=
              takeFrame_takes hfour hlt hthere
            let p : Payload 4 := ⟨t0 :: t1 :: t2 :: t3 :: body, by
              simp only [List.length_cons]; omega⟩
            have hboth : frame 4 p.bytes ++
                (c.received.drop (lengthPrefix c.received + 4) ++ tail) =
                  frame 4 f.payload.bytes ++ wire fs := by
              rw [← List.append_assoc, ← hsplit, h, wire_cons]
            obtain ⟨hp, hrest⟩ := frame_append_inj hboth
            refine ⟨true, _, [f.payload], fs, htake, hrest, ?_, fun _ => ⟨f.payload, rfl, ?_⟩⟩
            · rw [stream_singleton, wire_cons]
            · rw [← hp]
              rfl
          · exact ⟨false, c, [], f :: fs, takeFrame_waits (by omega) (by omega) hlt (by omega), h,
              rfl, fun hb => by cases hb⟩

/-! ### The invariant -/

structure Inv (s : Session) : Prop where
  isolated : Isolated s
  /-- What has been received and not taken starts at a frame boundary. -/
  aligned : ∀ tcp, s.client.tcpClient = some tcp → ∃ past rest,
    s.stream = stream 4 past ++ wire rest ∧
      s.client.received ++ (tcp.available ++ s.coming) = wire rest

theorem inv_init : Inv init where
  isolated := ⟨rfl, rfl, fun m hm => absurd hm List.not_mem_nil⟩
  aligned := fun tcp h => by cases h

theorem inv_connect {s : Session} (h : Inv s) (peer : Option (List WireFrame))
    (horderly : Orderly s (.connect peer)) : Inv (step s (.connect peer)) := by
  cases peer with
  | none =>
      exact ⟨⟨h.isolated.completes, h.isolated.fresh, h.isolated.frames⟩,
        fun tcp htcp => by cases htcp⟩
  | some fs =>
      have hreceived : s.client.received = [] := horderly
      refine ⟨⟨h.isolated.completes, ?_, fun m hm => absurd hm List.not_mem_nil⟩, ?_⟩
      · show (s.stale || !s.client.received.isEmpty) = false
        rw [h.isolated.fresh, hreceived]
        rfl
      · intro tcp htcp
        obtain rfl : (⟨true, []⟩ : TcpClient) = tcp := Option.some.inj htcp
        refine ⟨[], fs, rfl, ?_⟩
        show s.client.received ++ wire fs = wire fs
        rw [hreceived, List.nil_append]

theorem inv_disconnect {s : Session} (h : Inv s) (horderly : Orderly s .disconnect) :
    Inv (step s .disconnect) := by
  rcases disconnect_cases s.client with ⟨hnone, hok⟩ | ⟨-, -, hok⟩ | ⟨hopen, hnull, -⟩
  · refine ⟨⟨?_, h.isolated.fresh, h.isolated.frames⟩, ?_⟩
    · show (s.threw || throws (disconnect s.client)) = false
      rw [h.isolated.completes, hok]
      rfl
    · intro tcp htcp
      have htcp : (leaves (disconnect s.client)).tcpClient = some tcp := htcp
      rw [hok] at htcp
      exact absurd (hnone.symm.trans htcp) (Option.some_ne_none tcp).symm
  · refine ⟨⟨?_, h.isolated.fresh, h.isolated.frames⟩, ?_⟩
    · show (s.threw || throws (disconnect s.client)) = false
      rw [h.isolated.completes, hok]
      rfl
    · intro tcp htcp
      have htcp : (leaves (disconnect s.client)).tcpClient = some tcp := htcp
      rw [hok] at htcp
      cases htcp
  · exact absurd horderly (by simp [Orderly, hopen, hnull])

theorem inv_arrive {s : Session} (h : Inv s) (n : ℕ) : Inv (step s (.arrive n)) := by
  refine ⟨⟨h.isolated.completes, h.isolated.fresh, h.isolated.frames⟩, ?_⟩
  intro tcp htcp
  have htcp : s.client.tcpClient.map (fun tcp =>
      { tcp with available := tcp.available ++ s.coming.take n }) = some tcp := htcp
  obtain ⟨old, hold, rfl⟩ := Option.map_eq_some_iff.mp htcp
  obtain ⟨past, rest, hstream, hrest⟩ := h.aligned old hold
  refine ⟨past, rest, hstream, ?_⟩
  show s.client.received ++ (old.available ++ s.coming.take n ++ s.coming.drop n) = wire rest
  rw [List.append_assoc, List.take_append_drop, hrest]

theorem inv_close {s : Session} (h : Inv s) : Inv (step s .close) := by
  refine ⟨⟨h.isolated.completes, h.isolated.fresh, h.isolated.frames⟩, ?_⟩
  intro tcp htcp
  have htcp : s.client.tcpClient.map (fun tcp =>
      { tcp with connected := false }) = some tcp := htcp
  obtain ⟨old, hold, rfl⟩ := Option.map_eq_some_iff.mp htcp
  exact h.aligned old hold

/-- Without a connection a call does nothing. -/
theorem recieveMessage_idle {c : V4L2Client} (n : ℕ) (h : ¬ IsConnected c) :
    recieveMessage n c = .ok [] c ∧ extracted n c = [] := by
  obtain ⟨tcpClient, received, message, fourCC⟩ := c
  cases tcpClient with
  | none => exact ⟨rfl, rfl⟩
  | some tcp =>
      obtain ⟨conn, available⟩ := tcp
      cases conn with
      | false => exact ⟨rfl, rfl⟩
      | true => exact absurd ⟨available, rfl⟩ h

/-- A call leaves what its extraction leaves: the handlers only raise events. -/
theorem recieveMessage_leaves {c c' : V4L2Client} {n : ℕ} {b : Bool} (h : IsConnected c)
    (htake : takeFrame (reading n c) = .ok b c') :
    leaves (recieveMessage n c) = c' ∧
      extracted n c = if b then [c'.fourCC.bytes ++ c'.message.getD []] else [] := by
  constructor
  · rw [recieveMessage_reading n h, parse_eq_takeFrame, bind_ok htake]
    exact frame_ite (f := id) frame_handleMessage (frame_pure _) c'
  · obtain ⟨available, htcp⟩ := h
    rw [extracted, htcp]
    dsimp only
    rw [if_pos rfl, htake]
    cases b with
    | false => rfl
    | true => rfl

theorem inv_recieve {s : Session} (h : Inv s) (n : ℕ) : Inv (step s (.recieve n)) := by
  by_cases hconn : IsConnected s.client
  · obtain ⟨available, htcp⟩ := hconn
    obtain ⟨past, rest, hstream, hrest⟩ := h.aligned _ htcp
    have hreading : (reading n s.client).received ++
        (available.drop (readCount n available) ++ s.coming) = wire rest := by
      rw [reading, htcp, ← hrest]
      show s.client.received ++ available.take _ ++ (available.drop _ ++ s.coming) = _
      rw [List.append_assoc, ← List.append_assoc (available.take _), List.take_append_drop]
    obtain ⟨b, c', ps, rest', htake, hleft, htaken, hmessage⟩ := takeFrame_wire hreading
    obtain ⟨hleaves, hextracted⟩ := recieveMessage_leaves ⟨available, htcp⟩ htake
    have hframe : c'.tcpClient = (reading n s.client).tcpClient := by
      have hkeeps := frame_takeFrame (reading n s.client)
      rwa [htake] at hkeeps
    rw [reading, htcp] at hframe
    have hstream' : s.stream = stream 4 (past ++ ps) ++ wire rest' := by
      rw [hstream, htaken, stream_append, List.append_assoc]
    refine ⟨⟨h.isolated.completes, h.isolated.fresh, ?_⟩, ?_⟩
    · intro m hm
      have hm : m ∈ s.delivered ++ extracted n s.client := hm
      rw [hextracted] at hm
      rcases List.mem_append.mp hm with hold | hnew
      · exact h.isolated.frames m hold
      · cases b with
        | false => exact absurd hnew List.not_mem_nil
        | true =>
            obtain ⟨p, rfl, hp⟩ := hmessage rfl
            obtain rfl : m = c'.fourCC.bytes ++ c'.message.getD [] := List.mem_singleton.mp hnew
            refine ⟨past, p, wire rest', hp, ?_⟩
            rw [← stream_singleton, ← stream_append]
            exact hstream'
    · intro tcp htcp'
      have htcp' : (leaves (recieveMessage n s.client)).tcpClient = some tcp := htcp'
      rw [hleaves, hframe] at htcp'
      obtain rfl := Option.some.inj htcp'
      refine ⟨past ++ ps, rest', hstream', ?_⟩
      show (leaves (recieveMessage n s.client)).received ++ _ = _
      rw [hleaves]
      exact hleft
  · obtain ⟨hok, hnone⟩ := recieveMessage_idle n hconn
    have hsame : step s (.recieve n) = s := by
      simp only [step, hok, hnone, List.append_nil, leaves]
    rw [hsame]
    exact h

theorem inv_step (s : Session) (e : Event) (h : Inv s) (horderly : Orderly s e) :
    Inv (step s e) := by
  cases e with
  | connect peer => exact inv_connect h peer horderly
  | disconnect => exact inv_disconnect h horderly
  | recieve n => exact inv_recieve h n
  | arrive n => exact inv_arrive h n
  | close => exact inv_close h

/-- A step out of order is a `Disconnect` that throws or a `Connect` that leaves old bytes. -/
theorem not_isolated_of_not_orderly (s : Session) (e : Event) (h : ¬ Orderly s e) :
    ¬ Isolated (step s e) := by
  intro hisolated
  cases e with
  | connect peer =>
      cases peer with
      | none => exact h trivial
      | some fs =>
          have hfresh : (s.stale || !s.client.received.isEmpty) = false := hisolated.fresh
          rw [Bool.or_eq_false_iff, Bool.not_eq_false', List.isEmpty_iff] at hfresh
          exact h hfresh.2
  | disconnect =>
      have hcompletes : (s.threw || throws (disconnect s.client)) = false := hisolated.completes
      rcases disconnect_cases s.client with ⟨hnone, -⟩ | ⟨-, hmessage, -⟩ | ⟨-, -, herror⟩
      · exact h (Or.inl hnone)
      · exact h (Or.inr hmessage)
      · rw [herror, Bool.or_eq_false_iff] at hcompletes
        cases hcompletes.2
  | recieve n => exact h trivial
  | arrive n => exact h trivial
  | close => exact h trivial

/-- **A run keeps its sessions apart exactly if none of its steps is out of order.** -/
theorem isolated_iff (events : List Event) :
    Always step Isolated init events ↔ Meets step Orderly init events := by
  constructor
  · exact meets_of_always inv_step (fun s e _ => not_isolated_of_not_orderly s e) inv_init
  · intro h
    exact (always_of_meets inv_step inv_init h).imp fun s hs => hs.isolated

/-- Disconnecting before a message has been extracted clears a null reference. -/
theorem disconnect_before_message :
    ¬ Always step Isolated init [.connect (some []), .disconnect] := by
  intro h
  exact absurd h.last.completes (by decide)

end Sessions

end MKart.ClientUnity
