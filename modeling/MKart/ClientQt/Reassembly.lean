import MKart.Lib.Runs
import MKart.ClientQt.Fpv
import MKart.ClientQt.Parser

/-!
# Stream reassembly in the Qt client

One connection that stays connected: the peer sends frames, TCP hands their bytes over in
pieces of any size, and `FpvContext::update` runs after each arrival.  A `Session` is the
client with the bytes still under way and the messages obtained so far.

The only branch that goes wrong is the length read that finds one to three bytes: they are
taken off the socket and dropped (`TcpPrivate.update_short`).  Every run that never takes it
(`LengthsWhole`) delivers a prefix of the non-empty payloads at every point, and all of them
once the bytes are in and `2 * frames.length` further updates have run.
-/

namespace MKart.ClientQt.Reassembly

open MKart.Runs MKart.Framing MKart.LittleEndian

/-- One call of `FpvContext::update`, with the number of bytes that arrive before it. -/
structure Tick where
  arrive : ℕ
  env : FpvEnv

structure Session where
  ctx : FpvContext
  toCome : List UInt8
  got : List (List UInt8)

/-- The client's `Tcp` when the bytes of a tick have arrived. -/
def arrived (s : Session) (t : Tick) : TcpPrivate :=
  { s.ctx.tcp with
    sock := { s.ctx.tcp.sock with buf := s.ctx.tcp.sock.buf ++ s.toCome.take t.arrive } }

def step (s : Session) (t : Tick) : Session :=
  let r := FpvContext.update t.env { s.ctx with tcp := arrived s t }
  { ctx := r.1, toCome := s.toCome.drop t.arrive, got := s.got ++ r.2.toList }

/-- The update of a tick does not find a partial length prefix. -/
def LengthsWhole (s : Session) (t : Tick) : Prop := (arrived s t).LengthWhole

instance (s : Session) (t : Tick) : Decidable (LengthsWhole s t) :=
  inferInstanceAs (Decidable (arrived s t).LengthWhole)

/-- The client `c` on a fresh connection on which the peer sends `frames`. -/
def start (c : FpvContext) (frames : List (Payload 4)) : Session where
  ctx := { c with tcp := { TcpPrivate.init with sock := ⟨.connectedState, []⟩ } }
  toCome := stream 4 frames
  got := []

/-- The payloads the client is to see: all but the keep-alives. -/
def delivered (ps : List (Payload 4)) : List (List UInt8) :=
  (ps.map Payload.bytes).filter (· ≠ [])

theorem delivered_append (ps qs : List (Payload 4)) :
    delivered (ps ++ qs) = delivered ps ++ delivered qs := by simp [delivered]

/-- The session after `past`: the messages obtained are those of `past`, and the bytes read,
buffered and under way are the stream of all frames. -/
structure Follows (frames past : List (Payload 4)) (s : Session) : Prop where
  connected : s.ctx.tcp.sock.state = .connectedState
  unready : s.ctx.tcp.messageReady = false
  parsed : ∃ consumed, Parsed past consumed s.ctx.tcp ∧
    consumed ++ s.ctx.tcp.sock.buf ++ s.toCome = stream 4 frames
  got : s.got = delivered past

theorem follows_start (c : FpvContext) (frames : List (Payload 4)) :
    Follows frames [] (start c frames) where
  connected := rfl
  unready := rfl
  parsed := ⟨[], .boundary rfl rfl, rfl⟩
  got := rfl

theorem step_toCome (s : Session) (t : Tick) : (step s t).toCome = s.toCome.drop t.arrive := rfl

/-! ### One update -/

/-- What the client takes from a poll: the completed payload, unless it is a keep-alive. -/
theorem readMessage_polled {d d' : TcpPrivate} {ps : List (Payload 4)} (h : Polled d d' ps)
    (hready : d.messageReady = false) :
    (Tcp.readMessage d').2.toList = delivered ps ∧
      (Tcp.readMessage d').1 = { d' with messageReady := false } := by
  obtain ⟨sock, state, buffer, remain, ready⟩ := d'
  cases h with
  | silent h =>
      have hfalse : ready = false := by
        cases ready with
        | false => rfl
        | true => exact absurd (h rfl).1 (by simp [hready])
      subst hfalse
      exact ⟨rfl, rfl⟩
  | keepAlive p empty unready =>
      obtain rfl : ready = false := unready
      refine ⟨?_, rfl⟩
      simp [Tcp.readMessage, delivered, empty]
  | message p nonempty ready' buffer' =>
      obtain rfl : ready = true := ready'
      obtain rfl : buffer = p.bytes := buffer'
      refine ⟨?_, rfl⟩
      simp [Tcp.readMessage, delivered, nonempty]

theorem step_tcp {s : Session} {t : Tick} {ps : List (Payload 4)}
    (hready : s.ctx.tcp.messageReady = false)
    (h : Polled (arrived s t) ((arrived s t).update QTcpSocket.read) ps) :
    (step s t).ctx.tcp = { (arrived s t).update QTcpSocket.read with messageReady := false } ∧
      (step s t).got = s.got ++ delivered ps := by
  obtain ⟨hmsg, htcp⟩ := readMessage_polled h hready
  have hupdate := FpvContext.update_tcp t.env { s.ctx with tcp := arrived s t }
  refine ⟨hupdate.1.trans htcp, ?_⟩
  rw [← hmsg]
  exact congrArg (fun msg => s.got ++ Option.toList msg) hupdate.2

/-- The session after a poll that completed `ps` follows its stream. -/
theorem Follows.polled {frames past ps : List (Payload 4)} {s : Session} {t : Tick}
    {consumed bytes : List UInt8} (h : Follows frames past s)
    (hstream : consumed ++ (arrived s t).sock.buf ++ (step s t).toCome = stream 4 frames)
    (hbuf : (arrived s t).sock.buf = bytes ++ ((arrived s t).update QTcpSocket.read).sock.buf)
    (hparsed : Parsed (past ++ ps) (consumed ++ bytes) ((arrived s t).update QTcpSocket.read))
    (hpolled : Polled (arrived s t) ((arrived s t).update QTcpSocket.read) ps) :
    Follows frames (past ++ ps) (step s t) := by
  obtain ⟨htcp, hgot⟩ := step_tcp h.unready hpolled
  refine ⟨?_, ?_, ⟨consumed ++ bytes, ?_, ?_⟩, ?_⟩
  · rw [htcp]
    exact TcpPrivate.update_sock_state _ h.connected
  · rw [htcp]
  · rw [htcp]
    exact hparsed.congr rfl rfl fun _ => rfl
  · rw [htcp, ← hstream, hbuf]
    simp only [List.append_assoc]
  · rw [hgot, h.got, delivered_append]

theorem Follows.arrived {frames past : List (Payload 4)} {s : Session} (h : Follows frames past s)
    (t : Tick) : ∃ consumed, Parsed past consumed (arrived s t) ∧
      consumed ++ (arrived s t).sock.buf ++ (step s t).toCome = stream 4 frames := by
  obtain ⟨consumed, hparsed, hbytes⟩ := h.parsed
  refine ⟨consumed, hparsed.congr rfl rfl id, ?_⟩
  show consumed ++ (s.ctx.tcp.sock.buf ++ s.toCome.take t.arrive) ++ s.toCome.drop t.arrive = _
  rw [← hbytes]
  simp only [List.append_assoc, List.take_append_drop]

/-- **One update keeps the session on its stream.** -/
theorem step_follows {frames past : List (Payload 4)} {s : Session} {t : Tick}
    (h : Follows frames past s) (hwhole : LengthsWhole s t) :
    ∃ ps, Follows frames (past ++ ps) (step s t) := by
  obtain ⟨consumed, hparsed, hstream⟩ := h.arrived t
  obtain ⟨bytes, ps, hbuf, hparsed', hpolled⟩ := poll_parsed hparsed h.connected hwhole
  exact ⟨ps, h.polled hstream hbuf hparsed' hpolled⟩

/-! ### What has been delivered -/

theorem Follows.split {frames past : List (Payload 4)} {s : Session} (h : Follows frames past s) :
    ∃ future, frames = past ++ future := by
  obtain ⟨consumed, hparsed, hbytes⟩ := h.parsed
  obtain ⟨part, rfl⟩ := hparsed.stream_append
  rw [List.append_assoc, List.append_assoc] at hbytes
  obtain ⟨future, hfuture, _⟩ := stream_prefix (by decide) hbytes
  exact ⟨future, hfuture⟩

theorem Follows.got_prefix {frames past : List (Payload 4)} {s : Session}
    (h : Follows frames past s) : s.got <+: delivered frames := by
  obtain ⟨future, rfl⟩ := h.split
  rw [h.got, delivered_append]
  exact List.prefix_append _ _

/-- The updates still needed once every byte has arrived: two for each frame that is not
complete, less the length read that is done. -/
def pending (frames past : List (Payload 4)) (s : Session) : ℕ :=
  2 * (frames.length - past.length) - if 0 < s.ctx.tcp.messageRemain then 1 else 0

section Drain

variable {frames past : List (Payload 4)} {s : Session}

/-- At a boundary with frames to come the whole next length is there; inside a body the rest
of the body is. -/
theorem drain_available {future : List (Payload 4)} {consumed : List UInt8} {d : TcpPrivate}
    (hparsed : Parsed past consumed d)
    (hbytes : consumed ++ d.sock.buf = stream 4 (past ++ future)) (hfuture : future ≠ []) :
    (d.messageRemain = 0 ∧ 4 ≤ d.sock.buf.length) ∨
      (0 < d.messageRemain ∧ d.messageRemain ≤ d.sock.buf.length) := by
  cases hparsed with
  | boundary remain bytes =>
      left
      rw [bytes, stream_append] at hbytes
      have hbuf := List.append_cancel_left hbytes
      cases future with
      | nil => exact absurd rfl hfuture
      | cons p future =>
          refine ⟨remain, ?_⟩
          rw [hbuf, stream_cons, List.length_append, frame_length]
          omega
  | body pos le fits unready bytes =>
      right
      refine ⟨pos, ?_⟩
      rw [bytes, stream_append, List.append_assoc, List.append_assoc] at hbytes
      obtain ⟨p, rest, _, hlen, hbody⟩ :=
        stream_of_prefix (by decide) fits (List.append_cancel_left hbytes)
      have hcount := congrArg List.length hbody
      simp only [List.length_append, List.length_take] at hcount
      omega

/-- **Progress.**  While frames remain, an update after the last arrival lowers `pending`. -/
theorem step_progress (h : Follows frames past s) (hall : s.toCome = []) (hmore : past ≠ frames)
    (t : Tick) : ∃ past', Follows frames past' (step s t) ∧
      pending frames past' (step s t) < pending frames past s := by
  obtain ⟨future, rfl⟩ := h.split
  have hfuture : future ≠ [] := by
    rintro rfl
    exact hmore (List.append_nil past).symm
  have hpos : 0 < future.length := List.length_pos_iff.mpr hfuture
  obtain ⟨consumed, hparsed, hstream⟩ := h.arrived t
  have hbytes : consumed ++ (arrived s t).sock.buf = stream 4 (past ++ future) := by
    rw [← hstream, step_toCome, hall, List.drop_nil, List.append_nil]
  have havail := drain_available hparsed hbytes hfuture
  have hconn : (arrived s t).sock.state = .connectedState := h.connected
  have hwhole : LengthsWhole s t := by
    intro hle
    rcases havail with ⟨_, h4⟩ | ⟨hpos', _⟩
    · exact Or.inr h4
    · omega
  have hne : (arrived s t).sock.buf ≠ [] := by
    apply List.ne_nil_of_length_pos
    rcases havail with ⟨_, h4⟩ | ⟨hpos', hle⟩ <;> omega
  obtain ⟨bytes, ps, hbuf, hparsed', hpolled⟩ := poll_parsed hparsed hconn hwhole
  refine ⟨past ++ ps, h.polled hstream hbuf hparsed' hpolled, ?_⟩
  have hafter : (step s t).ctx.tcp.messageRemain =
      ((arrived s t).update QTcpSocket.read).messageRemain := by
    rw [(step_tcp h.unready hpolled).1]
  have hbefore : s.ctx.tcp.messageRemain = (arrived s t).messageRemain := rfl
  simp only [pending, List.length_append, hafter, hbefore]
  cases hpolled with
  | keepAlive | message =>
      simp only [List.length_cons, List.length_nil]
      split <;> split <;> omega
  | silent =>
      -- nothing completed: this was the length read that opens a body
      rw [List.append_nil] at hparsed'
      have hinside : bytes ≠ [] → 0 < ((arrived s t).update QTcpSocket.read).messageRemain :=
        hparsed.inside hparsed'
      have hcount := congrArg List.length hbuf
      rw [List.length_append] at hcount
      rcases havail with ⟨h0, h4⟩ | ⟨hpos', hle⟩
      · have hopen : 0 < ((arrived s t).update QTcpSocket.read).messageRemain := by
          apply hinside
          rw [TcpPrivate.update_length hconn h0.le h4, List.length_drop] at hcount
          exact List.ne_nil_of_length_pos (by omega)
        rw [if_pos hopen, if_neg (by omega), List.length_nil]
        omega
      · -- a body read takes the rest of the body
        have hbody := TcpPrivate.update_body hconn hpos' hne
        have hdone : ((arrived s t).update QTcpSocket.read).messageRemain = 0 := by
          rw [hbody]
          simp only [List.length_take]
          omega
        have hopen : 0 < ((arrived s t).update QTcpSocket.read).messageRemain := by
          apply hinside
          rw [hbody, List.length_drop] at hcount
          exact List.ne_nil_of_length_pos (by omega)
        omega

/-- Once every byte has arrived, `pending` updates are enough. -/
theorem run_drained (h : Follows frames past s) (hall : s.toCome = []) (more : List Tick)
    (hmore : pending frames past s ≤ more.length) :
    (run step s more).got = delivered frames := by
  induction more generalizing s past with
  | nil =>
      obtain ⟨future, rfl⟩ := h.split
      have hlen : future.length = 0 := by
        simp only [pending, List.length_append, List.length_nil] at hmore
        split at hmore <;> omega
      rw [run_nil, h.got, List.length_eq_zero_iff.mp hlen, List.append_nil]
  | cons t more ih =>
      have hall' : (step s t).toCome = [] := by rw [step_toCome, hall, List.drop_nil]
      rw [run_cons]
      by_cases hdone : past = frames
      · -- nothing is left to read: the update is idle
        subst hdone
        obtain ⟨consumed, hparsed, hstream⟩ := h.arrived t
        obtain ⟨part, hpart⟩ := hparsed.stream_append
        rw [hpart, List.append_assoc, List.append_assoc] at hstream
        have hnil := List.append_right_eq_self.mp hstream
        have hbuf : (arrived s t).sock.buf = [] :=
          (List.append_eq_nil_iff.mp (List.append_eq_nil_iff.mp hnil).2).1
        obtain ⟨ps, hfollows⟩ := step_follows h fun _ => Or.inl hbuf
        obtain ⟨rest, hrest⟩ := hfollows.split
        have hps : ps = [] := by
          have hlen := congrArg List.length hrest
          simp only [List.length_append] at hlen
          exact List.length_eq_zero_iff.mp (by omega)
        rw [hps, List.append_nil] at hfollows
        apply ih hfollows hall'
        simp [pending]
      · obtain ⟨past', hfollows, hlt⟩ := step_progress h hall hdone t
        apply ih hfollows hall'
        rw [List.length_cons] at hmore
        omega

end Drain

/-! ### The whole connection -/

theorem always_follows {frames past : List (Payload 4)} {s : Session} {ts : List Tick}
    (h : Follows frames past s) (hwhole : Meets step LengthsWhole s ts) :
    Always step (fun s => ∃ past, Follows frames past s) s ts := by
  apply always_of_meets (C := LengthsWhole) _ ⟨past, h⟩ hwhole
  rintro s t ⟨past', h'⟩ hlength
  obtain ⟨ps, hps⟩ := step_follows h' hlength
  exact ⟨_, hps⟩

theorem pending_le (frames past : List (Payload 4)) (s : Session) :
    pending frames past s ≤ 2 * frames.length := by
  unfold pending
  omega

/-- **Reassembly.**  Over every run in which no length prefix is found cut, the messages are
at every point a prefix of the non-empty payloads in sending order; once all bytes have
arrived, `2 * frames.length` further updates have delivered exactly those. -/
theorem update_reassembles (c : FpvContext) (frames : List (Payload 4)) (ts : List Tick)
    (hwhole : Meets step LengthsWhole (start c frames) ts) :
    Always step (fun s => s.got <+: delivered frames) (start c frames) ts ∧
      ((run step (start c frames) ts).toCome = [] →
        ∀ more : List Tick, 2 * frames.length ≤ more.length →
          (run step (start c frames) (ts ++ more)).got = delivered frames) := by
  have halways := always_follows (follows_start c frames) hwhole
  constructor
  · apply halways.imp
    rintro s ⟨past, h⟩
    exact h.got_prefix
  · intro hall more hmore
    obtain ⟨past, h⟩ := halways.last
    rw [run_append]
    exact run_drained h hall more (le_trans (pending_le frames past _) hmore)

/-- A tick in an environment where no image decodes. -/
def plainTick (n : ℕ) : Tick := ⟨n, ⟨fun _ => 0, fun _ _ => none⟩⟩

/-- A message, a keep-alive and another message; the bodies arrive cut, the lengths whole. -/
theorem update_reassembles_three :
    (run step (start .init [⟨[65, 66, 67], by decide⟩, ⟨[], by decide⟩, ⟨[68], by decide⟩])
      ([plainTick 5, plainTick 1, plainTick 9, plainTick 2] ++
        List.replicate 6 (plainTick 0))).got = [[65, 66, 67], [68]] :=
  (update_reassembles .init [⟨[65, 66, 67], by decide⟩, ⟨[], by decide⟩, ⟨[68], by decide⟩]
    [plainTick 5, plainTick 1, plainTick 9, plainTick 2] (by decide)).2 (by decide)
    (List.replicate 6 (plainTick 0)) (by decide)

/-- One frame of eight payload bytes whose length prefix arrives in two pieces.  The first
three bytes are lost, the fourth starts a shifted prefix, and the client obtains a message
that was never sent. -/
theorem update_reassembles_cut_length :
    ¬ Always step (fun s => s.got <+: delivered [⟨[0, 0, 0, 1, 0, 0, 0, 9], by decide⟩])
        (start .init [⟨[0, 0, 0, 1, 0, 0, 0, 9], by decide⟩])
        [plainTick 3, plainTick 9, plainTick 0, plainTick 0] := by
  decide

end MKart.ClientQt.Reassembly
