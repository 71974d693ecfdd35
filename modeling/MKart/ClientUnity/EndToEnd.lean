import MKart.Lib.Runs
import MKart.Server.Messages
import MKart.ClientUnity.V4L2Client

/-!
# From the server's encoders to the Unity client's events

The server sends messages of three kinds, each built by its own code (`ServerFrame.encode`);
the bytes reach the Unity client in pieces of any size, and each call of `RecieveMessage`
reads some of what is there and decodes at most one message.

The invariant (`Follows`) cuts the messages in two: those raised, and those whose bytes are
exactly what the client still holds, has on its socket or will get.  A call moves the cut past
at most one message (`step_follows`), and past exactly one when nothing is left to read
(`step_progress`).
-/

namespace MKart.ClientUnity.EndToEnd

open MKart.Runs MKart.Framing MKart.LittleEndian MKart.Server

/-- A message of the server, with what its encoder is given. -/
inductive ServerFrame
  | jpeg (bytesused : UInt32) (ptr : ℕ → UInt8)
  | gpio (bank values : UInt32)
  | keepAlive

def ServerFrame.encode : ServerFrame → Option (List UInt8)
  | .jpeg bytesused ptr => jpegMessage bytesused ptr
  | .gpio bank values => some (gpioMessage bank values)
  | .keepAlive => some keepAliveMessage

/-- What the client is to raise for a message. -/
def ServerFrame.events : ServerFrame → List Event
  | .jpeg bytesused ptr => [.jpeg (readBytes ptr bytesused.toNat)]
  | .gpio bank values => [.gpio bank.toNat values.toNat]
  | .keepAlive => []

/-- A message that was built, and is not too long for the client's `int`s. -/
structure Sent where
  message : ServerFrame
  bytes : List UInt8
  built : message.encode = some bytes
  short : bytes.length < 2 ^ 31 - 4

/-- The length of a message that is built. -/
def ServerFrame.size : ServerFrame → ℕ
  | .jpeg bytesused _ => bytesused.toNat + 8
  | .gpio _ _ => 16
  | .keepAlive => 4

/-- Every message that is short enough is built and can be sent. -/
theorem exists_sent_of_size {m : ServerFrame} (h : m.size < 2 ^ 31 - 4) :
    ∃ f : Sent, f.message = m := by
  cases m with
  | jpeg bytesused ptr =>
      have hsize : bytesused.toNat + 8 < 2 ^ 31 - 4 := h
      refine ⟨⟨.jpeg bytesused ptr, _, jpegMessage_eq bytesused ptr (by omega), ?_⟩, rfl⟩
      rw [frame_length, List.length_append, readBytes_length]
      simp only [jpegTag, List.length_cons, List.length_nil]
      omega
  | gpio bank values =>
      refine ⟨⟨.gpio bank values, _, rfl, ?_⟩, rfl⟩
      rw [gpioMessage_eq, frame_length]
      simp [gpioTag]
  | keepAlive => exact ⟨⟨.keepAlive, _, rfl, by decide⟩, rfl⟩

def events (fs : List Sent) : List Event := fs.flatMap fun f => f.message.events

/-- The bytes the server sends for `fs`. -/
def wire (fs : List Sent) : List UInt8 := fs.flatMap Sent.bytes

theorem events_append (fs gs : List Sent) : events (fs ++ gs) = events fs ++ events gs := by
  simp [events]

theorem wire_append (fs gs : List Sent) : wire (fs ++ gs) = wire fs ++ wire gs := by
  simp [wire]

theorem wire_cons (f : Sent) (fs : List Sent) : wire (f :: fs) = f.bytes ++ wire fs := rfl

/-! ### The client on one message -/

/-- Whichever encoder built it, a message is a frame. -/
theorem Sent.isFrame (f : Sent) :
    ∃ p : Payload 4, p.bytes.length + 8 < 2 ^ 31 ∧ f.bytes = frame 4 p.bytes := by
  obtain ⟨msg, bytes, built, short⟩ := f
  have hframe : IsFrame 4 bytes := by
    cases msg with
    | jpeg bytesused ptr => exact jpegMessage_isFrame built
    | gpio bank values => exact Option.some.inj built ▸ gpioMessage_isFrame bank values
    | keepAlive => exact Option.some.inj built ▸ keepAliveMessage_isFrame
  obtain ⟨p, rfl⟩ := hframe
  rw [frame_length] at short
  exact ⟨p, by omega, rfl⟩

/-- **A whole message at the front is decoded into its events and removed.** -/
theorem parse_sent (f : Sent) {c : V4L2Client} {rest : List UInt8}
    (h : c.received = f.bytes ++ rest) :
    ∃ c', parse c = .ok f.message.events c' ∧ c'.received = rest ∧ c'.tcpClient = c.tcpClient := by
  obtain ⟨msg, bytes, built, short⟩ := f
  replace h : c.received = bytes ++ rest := h
  cases msg with
  | jpeg bytesused ptr =>
      obtain rfl := eq_of_jpegMessage built
      rw [frame_length, List.length_append, readBytes_length] at short
      have hbody : (readBytes ptr bytesused.toNat).length + 12 < 2 ^ 31 := by
        simp only [jpegTag, List.length_cons, List.length_nil] at short
        rw [readBytes_length]
        omega
      exact ⟨_, (parse_frame hbody h).trans (handleMessage_jpeg rfl rfl), rfl, rfl⟩
  | gpio bank values =>
      obtain rfl := (Option.some.inj built).symm.trans (gpioMessage_eq bank values)
      have hbody : (leBytes 4 bank.toNat ++ leBytes 4 values.toNat).length + 12 < 2 ^ 31 := by
        simp
      have hbank : leValue (leBytes 4 bank.toNat) = bank.toNat :=
        leValue_leBytes_of_lt bank.toNat_lt
      have hvalues : leValue (leBytes 4 values.toNat) = values.toNat :=
        leValue_leBytes_of_lt values.toNat_lt
      have hparse := (parse_frame hbody h).trans
        (handleMessage_gpio (leBytes_length 4 _) (leBytes_length 4 _) rfl rfl)
      rw [hbank, hvalues] at hparse
      exact ⟨_, hparse, rfl, rfl⟩
  | keepAlive =>
      obtain rfl := (Option.some.inj built).symm.trans keepAliveMessage_eq
      exact ⟨{ c with received := rest }, parse_keepAlive h, rfl, rfl⟩

theorem parse_sent_partial (f : Sent) {c : V4L2Client} {rest : List UInt8}
    (h : c.received ++ rest = f.bytes) (hrest : rest ≠ []) : parse c = .ok [] c := by
  obtain ⟨p, hp, hframe⟩ := f.isFrame
  exact parse_partial hp (h.trans hframe) hrest

/-- One call of `parse` on the stream of `future`, of which `tail` is still missing: at most one
message is decoded, and the first one is if nothing is missing. -/
theorem parse_stream {c : V4L2Client} {tail : List UInt8} {future : List Sent}
    (h : c.received ++ tail = wire future) :
    ∃ done rest c', future = done ++ rest ∧ parse c = .ok (events done) c' ∧
      c'.tcpClient = c.tcpClient ∧ c'.received ++ tail = wire rest ∧
      (tail = [] → rest.length = future.length - 1) := by
  cases future with
  | nil =>
      have hempty : c.received = [] := (List.append_eq_nil_iff.mp h).1
      refine ⟨[], [], c, rfl, parse_short ?_, rfl, h, fun _ => rfl⟩
      rw [hempty]
      decide
  | cons f fs =>
      rw [wire_cons] at h
      by_cases hwhole : f.bytes.length ≤ c.received.length
      · obtain ⟨r, hr⟩ : f.bytes <+: c.received :=
          List.prefix_of_prefix_length_le ⟨wire fs, h.symm⟩ (List.prefix_append _ _) hwhole
        obtain ⟨c', hparse, hrest, htcp⟩ := parse_sent f hr.symm
        refine ⟨[f], fs, c', rfl, ?_, htcp, ?_, fun _ => by simp⟩
        · rw [hparse, events, List.flatMap_singleton]
        · rw [← hr, List.append_assoc] at h
          rw [hrest]
          exact List.append_cancel_left h
      · obtain ⟨r, hr⟩ : c.received <+: f.bytes :=
          List.prefix_of_prefix_length_le (List.prefix_append _ _) ⟨wire fs, h.symm⟩ (by omega)
        have hne : r ≠ [] := by
          rintro rfl
          rw [List.append_nil] at hr
          exact hwhole (by rw [hr])
        refine ⟨[], f :: fs, c, rfl, parse_sent_partial f hr hne, rfl, h, ?_⟩
        rintro rfl
        have hlen := congrArg List.length h
        simp only [List.append_nil, List.length_append] at hlen
        omega

/-! ### Sessions -/

/-- One call of `RecieveMessage`: the number of bytes that arrive before it, and the number its
`Read` asks the stream for. -/
structure Tick where
  arrive : ℕ
  read : ℕ

structure Session where
  client : V4L2Client
  toCome : List UInt8
  raised : List Event
  threw : Bool

/-- The bytes on the client's socket. -/
def Session.available (s : Session) : List UInt8 :=
  match s.client.tcpClient with
  | none => []
  | some tcp => tcp.available

/-- The client when the bytes of a tick have arrived. -/
def arrived (s : Session) (t : Tick) : V4L2Client :=
  { s.client with
    tcpClient := s.client.tcpClient.map fun tcp =>
      { tcp with available := tcp.available ++ s.toCome.take t.arrive } }

def step (s : Session) (t : Tick) : Session :=
  match recieveMessage t.read (arrived s t) with
  | .ok evs c => { s with
      client := c, toCome := s.toCome.drop t.arrive, raised := s.raised ++ evs }
  | .error _ c => { s with client := c, toCome := s.toCome.drop t.arrive, threw := true }

/-- The client `c` on a fresh connection on which the server sends `fs`. -/
def start (c : V4L2Client) (fs : List Sent) : Session where
  client := { c with tcpClient := some ⟨true, []⟩, received := [] }
  toCome := wire fs
  raised := []
  threw := false

/-- The number of calls in `ts` that find bytes to read. -/
def reads : Session → List Tick → ℕ
  | _, [] => 0
  | s, t :: ts =>
      (if s.available ++ s.toCome.take t.arrive = [] then 0 else 1) + reads (step s t) ts

/-- The messages `past` have been raised; the bytes of `future` are held, available or to come. -/
structure Follows (past future : List Sent) (s : Session) : Prop where
  connected : s.client.tcpClient = some ⟨true, s.available⟩
  bytes : s.client.received ++ s.available ++ s.toCome = wire future
  raised : s.raised = events past
  threw : s.threw = false

theorem follows_start (c : V4L2Client) (fs : List Sent) : Follows [] fs (start c fs) where
  connected := rfl
  bytes := rfl
  raised := rfl
  threw := rfl

theorem reads_le_length (s : Session) (ts : List Tick) : reads s ts ≤ ts.length := by
  induction ts generalizing s with
  | nil => exact Nat.le_refl 0
  | cons t ts ih =>
      have hrest := ih (step s t)
      simp only [reads, List.length_cons]
      split <;> omega

/-- **One call.**  It decodes at most one message; once all bytes have arrived, a call that has
nothing to read decodes one, and every other call takes a byte off the socket. -/
theorem step_follows {past future : List Sent} {s : Session} (h : Follows past future s)
    (t : Tick) : ∃ done rest, future = done ++ rest ∧ Follows (past ++ done) rest (step s t) ∧
      (s.toCome = [] → (step s t).toCome = [] ∧
        rest.length ≤ future.length - 1 + reads s [t] ∧
        (step s t).available.length + reads s [t] ≤ s.available.length) := by
  set available := s.available ++ s.toCome.take t.arrive with havailable
  set k := readCount t.read available
  have htcp : (arrived s t).tcpClient = some ⟨true, available⟩ := by
    rw [arrived, h.connected]
    rfl
  have hstream : (s.client.received ++ available.take k) ++
      (available.drop k ++ s.toCome.drop t.arrive) = wire future := by
    rw [← h.bytes, List.append_assoc, ← List.append_assoc (available.take k),
      List.take_append_drop, havailable]
    simp only [List.append_assoc, List.take_append_drop]
  obtain ⟨done, rest, c', hfuture, hparse, hclient, hbytes, hprogress⟩ :=
    parse_stream (c := { arrived s t with
      tcpClient := some ⟨true, available.drop k⟩
      received := s.client.received ++ available.take k }) hstream
  have hstep : step s t = { s with
      client := c', toCome := s.toCome.drop t.arrive, raised := s.raised ++ events done } := by
    have hcall := (recieveMessage_connected t.read htcp).trans hparse
    simp only [step, hcall]
  have hnext : (step s t).available = available.drop k := by
    simp only [hstep, Session.available, hclient]
  have hcut : future.length = done.length + rest.length := by rw [hfuture, List.length_append]
  refine ⟨done, rest, hfuture, ⟨?_, ?_, ?_, ?_⟩, ?_⟩
  · rw [hnext, hstep]
    exact hclient
  · rw [hnext, hstep, List.append_assoc]
    exact hbytes
  · rw [hstep, events_append, ← h.raised]
  · rw [hstep]
    exact h.threw
  · intro htoCome
    have hsame : available = s.available := by
      rw [havailable, htoCome, List.take_nil, List.append_nil]
    have hle := readCount_le t.read available
    refine ⟨by rw [hstep, htoCome]; exact List.drop_nil, ?_⟩
    rw [hnext, List.length_drop]
    by_cases hempty : available = []
    · have hlast := hprogress (by rw [hempty, htoCome, List.drop_nil, List.drop_nil]; rfl)
      have hreads : reads s [t] = 0 := by simp only [reads, ← havailable, hempty, if_true]
      rw [hreads, ← hsame]
      omega
    · have hpos : 0 < k := readCount_pos t.read hempty
      have hreads : reads s [t] = 1 := by simp only [reads, ← havailable, hempty, if_false]
      rw [hreads, ← hsame]
      omega

/-- Once all bytes have arrived, enough further calls decode the rest. -/
theorem run_drains {past future : List Sent} {s : Session} (h : Follows past future s)
    (hcome : s.toCome = []) (more : List Tick) :
    reads s more ≤ s.available.length ∧ (future.length + reads s more ≤ more.length →
      Follows (past ++ future) [] (run step s more)) := by
  induction more generalizing past future s with
  | nil =>
      refine ⟨Nat.zero_le _, ?_⟩
      intro hcalls
      have hnil : future = [] := by
        apply List.length_eq_zero_iff.mp
        simp only [List.length_nil] at hcalls
        omega
      rw [hnil, List.append_nil]
      rw [hnil] at h
      exact h
  | cons t ts ih =>
      obtain ⟨done, rest, rfl, hnext, hdrain⟩ := step_follows h t
      obtain ⟨hcome', hrest, havailable⟩ := hdrain hcome
      obtain ⟨hreads, hrun⟩ := ih hnext hcome'
      have hle := reads_le_length (step s t) ts
      have hsum : reads s (t :: ts) = reads s [t] + reads (step s t) ts := by simp [reads]
      rw [hsum]
      refine ⟨by omega, ?_⟩
      intro hcalls
      rw [← List.append_assoc]
      simp only [List.length_cons, List.length_append] at hcalls hrest
      exact hrun (by omega)

theorem run_follows {past future : List Sent} {s : Session} (h : Follows past future s)
    (ts : List Tick) :
    ∃ done rest, future = done ++ rest ∧ Follows (past ++ done) rest (run step s ts) := by
  induction ts generalizing past future s with
  | nil => exact ⟨[], future, rfl, by rw [List.append_nil]; exact h⟩
  | cons t ts ih =>
      obtain ⟨done, rest, rfl, hnext, -⟩ := step_follows h t
      obtain ⟨done', rest', rfl, hrun⟩ := ih hnext
      refine ⟨done ++ done', rest', by rw [List.append_assoc], ?_⟩
      rw [← List.append_assoc]
      exact hrun

/-- **The Unity client raises what the server sent.**  At every point of every session, whatever
the messages and however their bytes are split, no call has thrown, the events raised are those
of a prefix `past` of the messages, and the bytes the client holds are what has been read of the
messages behind it.  Once all bytes have arrived, as many further calls as messages are left, not
counting those that read, raise the rest; and no more calls read than there are bytes. -/
theorem recieveMessage_raises (c : V4L2Client) (frames : List Sent) (ts : List Tick) :
    let s := run step (start c frames) ts
    ∃ past future, frames = past ++ future ∧ s.threw = false ∧ s.raised = events past ∧
      wire frames = wire past ++ s.client.received ++ s.available ++ s.toCome ∧
      (s.toCome = [] → ∀ more : List Tick, reads s more ≤ s.available.length ∧
        (future.length + reads s more ≤ more.length →
          (run step s more).raised = events frames ∧
          (run step s more).client.received = [] ∧ (run step s more).threw = false)) := by
  intro s
  obtain ⟨past, future, rfl, h⟩ := run_follows (follows_start c frames) ts
  rw [List.nil_append] at h
  refine ⟨past, future, rfl, h.threw, h.raised, ?_, ?_⟩
  · rw [wire_append, ← h.bytes]
    simp only [List.append_assoc, s]
  · intro hcome more
    obtain ⟨hreads, hdrain⟩ := run_drains h hcome more
    refine ⟨hreads, ?_⟩
    intro hcalls
    have hdone := hdrain hcalls
    have hbytes := hdone.bytes
    simp only [List.append_assoc] at hbytes
    exact ⟨hdone.raised, (List.append_eq_nil_iff.mp hbytes).1, hdone.threw⟩

/-- A picture, a reading and a keep-alive. -/
def threeFrames : List Sent :=
  [⟨.jpeg 4 ([0xFF, 0xD8, 0xFF, 0xE0].getD · 0), _, rfl, by decide⟩,
    ⟨.gpio 1 5, _, rfl, by decide⟩, ⟨.keepAlive, _, rfl, by decide⟩]

/-- Ten bytes arrive and seven are read; then the rest arrives, and twelve more calls raise all. -/
theorem recieveMessage_raises_three :
    (run step (run step (start ⟨none, [], none, ⟨0, 0, 0, 0⟩⟩ threeFrames) [⟨10, 7⟩, ⟨22, 9⟩])
      (List.replicate 12 ⟨0, 4⟩)).raised = [.jpeg [0xFF, 0xD8, 0xFF, 0xE0], .gpio 1 5] := by
  obtain ⟨past, future, hframes, -, -, -, hdrain⟩ :=
    recieveMessage_raises ⟨none, [], none, ⟨0, 0, 0, 0⟩⟩ threeFrames [⟨10, 7⟩, ⟨22, 9⟩]
  have hfuture : future.length ≤ 3 := by
    have hlength := congrArg List.length hframes
    rw [List.length_append] at hlength
    have hthree : threeFrames.length = 3 := rfl
    omega
  obtain ⟨hreads, hraised⟩ := hdrain (by decide +kernel) (List.replicate 12 ⟨0, 4⟩)
  have hcalls :
      reads (run step (start ⟨none, [], none, ⟨0, 0, 0, 0⟩⟩ threeFrames) [⟨10, 7⟩, ⟨22, 9⟩])
        (List.replicate 12 ⟨0, 4⟩) ≤ 4 := by decide +kernel
  refine (hraised ?_).1
  rw [List.length_replicate]
  omega

end MKart.ClientUnity.EndToEnd
