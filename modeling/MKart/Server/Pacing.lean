import MKart.Lib.RateLimiter
import MKart.Server.Events

/-!
# The pace of the server

What the server sends by itself is paced by two tests of the time that has passed: a keep-alive
goes out when more than 5000 milliseconds have, a frame is captured when more than 100 have.
Both are rate limiters, and the general results on these give how often the server sends at most,
on a clock that does not go back, and how often at least, while a connection lasts.

Times are in nanoseconds.  The tests compare truncated milliseconds, so that a limiter fires
after 5001 and 101 of them.  The test for frames compares a 32-bit number, which is why it must
be polled before it wraps.
-/

namespace MKart.Server.Pacing

open MKart.Runs MKart.RateLimiter RpiServer

/-- The time that must pass between two keep-alives. -/
def keepaliveTime : ℤ := 5001 * 1000000

/-- The time that must pass between two frames. -/
def frameTime : ℤ := 101 * 1000000

/-- The time after which the test for frames wraps. -/
def wrapTime : ℤ := 2 ^ 31 * 1000000

/-- The limiter of `send_keepalive`. -/
def keepaliveLimiter : Limiter RpiServer Env where
  step := RpiServer.step
  first := Env.now
  last := Env.later
  stamp := RpiServer.lastTime
  polls := fun s _ => decide (s.phase = .keepalive)
  fires := sends .keepAlive

/-- The limiter of `V4L2::update`. -/
def frameLimiter : Limiter RpiServer Env where
  step := RpiServer.step
  first := Env.now
  last := Env.later
  stamp := fun s => s.v4l2.lastTime
  polls := fun s _ => decide (s.phase = .video)
  fires := sends .jpeg

/-- The times at which a run sends messages of the kind. -/
def sendTimes (kind : Kind) : RpiServer → List Env → List ℤ
  | _, [] => []
  | s, e :: es => (if sends kind s e then [e.now] else []) ++ sendTimes kind (s.step e) es

/-- The clock does not go back, from `t` on and along the steps. -/
def Clocked (t : ℤ) (es : List Env) : Prop := keepaliveLimiter.Clocked t es

instance (t : ℤ) (es : List Env) : Decidable (Clocked t es) :=
  inferInstanceAs (Decidable (keepaliveLimiter.Clocked t es))

/-- The step does not give the peer up. -/
def KeepsPeer (s : RpiServer) (e : Env) : Prop := (s.step e).nextSock = s.nextSock

instance (s : RpiServer) (e : Env) : Decidable (KeepsPeer s e) :=
  inferInstanceAs (Decidable (_ = _))

/-- The peer stays, it has asked for video, and where a frame is due the camera yields one. -/
def Streams (s : RpiServer) (e : Env) : Prop :=
  KeepsPeer s e ∧
    (s.phase = .video → s.state = .connected ∧ s.v4l2.capturing = true ∧
      ((s.v4l2.grab e.device).2.bind fun n => jpegMessage n e.device.memory) ≠ none)

instance (s : RpiServer) (e : Env) : Decidable (Streams s e) :=
  inferInstanceAs (Decidable (_ ∧ (_ → _ ∧ _ ∧ _)))

/-! ### The tests -/

variable {s : RpiServer} {e : Env}

theorem milliseconds_of_nonneg {ns : ℤ} (h : 0 ≤ ns) : V4L2.milliseconds ns = ns / 1000000 :=
  Int.tdiv_eq_ediv_of_nonneg h

theorem keepaliveDue_iff (h : s.lastTime ≤ e.now) :
    s.keepaliveDue e.now = true ↔ s.lastTime + keepaliveTime ≤ e.now := by
  rw [RpiServer.keepaliveDue, decide_eq_true_iff, milliseconds_of_nonneg (by omega), keepaliveTime]
  omega

/-- The residue that the target machine compares is never above the milliseconds themselves. -/
theorem bmod_le {n : ℤ} (h : 0 ≤ n) : n.bmod (2 ^ 32) ≤ n := by
  rw [Int.bmod_def]
  split <;> omega

theorem of_due (hframe : s.v4l2.frameTime = 100) (h : s.v4l2.lastTime ≤ e.now)
    (hdue : s.v4l2.due e.now = true) : s.v4l2.lastTime + frameTime ≤ e.now := by
  simp only [V4L2.due, Bool.and_eq_true, decide_eq_true_iff, hframe] at hdue
  rw [milliseconds_of_nonneg (by omega)] at hdue
  have hle := bmod_le (n := (e.now - s.v4l2.lastTime) / 1000000) (by omega)
  rw [frameTime]
  omega

theorem due_of_le (hframe : s.v4l2.frameTime = 100) (hcapturing : s.v4l2.capturing = true)
    (h : s.v4l2.lastTime + frameTime ≤ e.now) (hwrap : e.now < s.v4l2.lastTime + wrapTime) :
    s.v4l2.due e.now = true := by
  rw [frameTime] at h
  rw [wrapTime] at hwrap
  simp only [V4L2.due, Bool.and_eq_true, decide_eq_true_iff, hframe, hcapturing, true_and]
  rw [milliseconds_of_nonneg (by omega), Int.bmod_eq_of_le_mul_two (by omega) (by omega)]
  omega

/-! ### What a step does to the camera's times -/

theorem capture_time {t : RpiServer} {captured : Bool} (h : s.capture e = some (t, captured)) :
    t.v4l2.lastTime = s.v4l2.lastTime ∧ t.v4l2.frameTime = s.v4l2.frameTime := by
  by_cases hconn : s.state = .connected
  · rw [RpiServer.capture_connected e hconn] at h
    cases hgrab : (s.v4l2.grab e.device).2 with
    | none =>
        rw [hgrab] at h
        obtain ⟨rfl, -⟩ := Prod.mk.inj (Option.some.inj h)
        simp only [V4L2.grab_fst, and_self]
    | some bytesused =>
        rw [hgrab] at h
        obtain ⟨sentBuf, -, hsent⟩ := Option.map_eq_some_iff.mp h
        obtain ⟨rfl, -⟩ := Prod.mk.inj hsent
        simp only [RpiServer.send_v4l2, V4L2.grab_fst, and_self]
  · rw [RpiServer.capture_not_connected e hconn] at h
    obtain ⟨rfl, -⟩ := Prod.mk.inj (Option.some.inj h)
    exact ⟨rfl, rfl⟩

theorem capturedFrame_of_capture (h : s.capture e = none) : s.capturedFrame e = none := by
  unfold RpiServer.capturedFrame
  split
  · rename_i hdue
    rw [RpiServer.capture_connected e hdue.2] at h
    cases hgrab : (s.v4l2.grab e.device).2 with
    | none => rfl
    | some bytesused =>
        rw [hgrab] at h
        exact Option.map_eq_none_iff.mp h
  · rfl

/-- An update of the camera stores the time at its end if it captured, or tried to. -/
theorem v4l2Update_time (e : Env) (s : RpiServer) :
    (s.v4l2Update e).v4l2.frameTime = s.v4l2.frameTime ∧
      ((s.v4l2.due e.now = false ∧ (s.v4l2Update e).v4l2.lastTime = s.v4l2.lastTime) ∨
        (s.v4l2.due e.now = true ∧ s.capturedFrame e = none ∧
          (s.v4l2Update e).v4l2.lastTime = s.v4l2.lastTime) ∨
        (s.v4l2.due e.now = true ∧ (s.v4l2Update e).v4l2.lastTime = e.later)) := by
  unfold RpiServer.v4l2Update
  cases hdue : s.v4l2.due e.now with
  | false => exact ⟨rfl, Or.inl ⟨rfl, rfl⟩⟩
  | true =>
      cases hcapture : s.capture e with
      | none => exact ⟨rfl, Or.inr (Or.inl ⟨rfl, capturedFrame_of_capture hcapture, rfl⟩)⟩
      | some r =>
          obtain ⟨t, captured⟩ := r
          have hframe := (capture_time hcapture).2
          cases captured with
          | false => exact ⟨hframe, Or.inr (Or.inr ⟨rfl, rfl⟩)⟩
          | true => exact ⟨hframe, Or.inr (Or.inr ⟨rfl, rfl⟩)⟩

/-- Only the camera's own update touches its times. -/
theorem step_v4l2_time (e : Env) (h : s.phase ≠ .video) :
    (s.step e).v4l2.lastTime = s.v4l2.lastTime ∧
      (s.step e).v4l2.frameTime = s.v4l2.frameTime := by
  cases hp : s.phase with
  | poll =>
      simp only [RpiServer.step, hp]
      split
      · rename_i i ok _
        rcases s.completeAccept_cases i ok e.now with
          ⟨-, h⟩ | ⟨target, -, ⟨-, h⟩ | ⟨-, -, h⟩ | ⟨-, -, h⟩⟩ <;> rw [h] <;> exact ⟨rfl, rfl⟩
      · exact ⟨rfl, rfl⟩
  | receive =>
      simp only [RpiServer.step, hp]
      rcases s.receiveCommands_cases e with ⟨-, h⟩ | ⟨-, ⟨-, h⟩ | ⟨bytes, -, h⟩⟩ <;> rw [h] <;>
        exact ⟨rfl, rfl⟩
  | script sock rest =>
      cases rest with
      | nil => simp only [RpiServer.step, hp, and_self]
      | cons c rest =>
          simp only [RpiServer.step, hp]
          rcases RpiServer.call_cases sock c e { s with phase := .script sock rest } with
            ⟨-, hcall⟩ | ⟨-, ⟨-, hcall⟩ | ⟨enabled, -, hcall⟩ | ⟨bank, -, -, hcall⟩ |
              ⟨-, -, -, -, hcall⟩⟩ <;> rw [hcall]
          · exact ⟨rfl, rfl⟩
          · exact ⟨rfl, rfl⟩
          · exact ⟨rfl, rfl⟩
          · rw [RpiServer.send_v4l2]
            exact ⟨rfl, rfl⟩
          · exact ⟨rfl, rfl⟩
  | keepalive =>
      simp only [RpiServer.step, hp, RpiServer.sendKeepalive]
      split
      · show ((s.send .keepAlive keepAliveMessage e).1.v4l2).lastTime = _ ∧
          ((s.send .keepAlive keepAliveMessage e).1.v4l2).frameTime = _
        rw [RpiServer.send_v4l2]
        exact ⟨rfl, rfl⟩
      · exact ⟨rfl, rfl⟩
  | video => exact absurd hp h
  | ret => simp only [RpiServer.step, hp, RpiServer.ret, and_self]
  | stopped | hung | crashed => simp only [RpiServer.step, hp, and_self]

/-! ### The limiters -/

theorem keepaliveLimiter_guarded : keepaliveLimiter.Guarded (fun _ => True) keepaliveTime where
  inv := fun _ _ h => h
  due := fun s e _ hs hfires => (keepaliveDue_iff hs).mp (phase_of_sends hfires).2
  stores := by
    intro s e _ hfires
    rcases step_peer s e with ⟨hnot, -⟩ | ⟨-, htime, -⟩
    · exact absurd hfires (by simp [keepaliveLimiter, hnot])
    · exact htime.symm.le
  forward := by
    intro s e hs hnow
    have hs : s.lastTime ≤ e.now := hs
    have hnow : e.now ≤ e.later := hnow
    show s.lastTime ≤ (s.step e).lastTime ∧ (s.step e).lastTime ≤ e.later
    rcases step_peer s e with
      ⟨-, ⟨-, htime | htime⟩ | ⟨-, htime⟩⟩ | ⟨-, htime, -⟩ <;> rw [htime]
    · exact ⟨hs, hnow⟩
    · exact ⟨le_trans hs hnow, le_refl _⟩
    · exact ⟨le_refl _, le_trans hs hnow⟩
    · exact ⟨hs, hnow⟩

/-- A keep-alive is due at whatever time the limiter is polled next. -/
theorem keepaliveLimiter_prompt (horizon : ℤ) :
    keepaliveLimiter.Prompt (fun _ => True) keepaliveTime horizon KeepsPeer where
  polls := fun s e hfires => decide_eq_true (phase_of_sends hfires).1
  fires := by
    intro s e _ _ hpoll hlate _
    have hp : s.phase = .keepalive := of_decide_eq_true hpoll
    have hlate : s.lastTime + keepaliveTime ≤ e.now := hlate
    have hdue := (keepaliveDue_iff (by rw [keepaliveTime] at hlate; omega)).mpr hlate
    show sends .keepAlive s e = true
    simp [sends, RpiServer.events, hp, hdue, RpiServer.sentEvent, isSent]
  keeps := by
    intro s e hkeeps hfires
    rcases step_peer s e with ⟨-, ⟨hgiven, -⟩ | ⟨-, htime⟩⟩ | ⟨hsends, -⟩
    · exact absurd (hkeeps.symm.trans hgiven.1) (Nat.succ_ne_self _).symm
    · exact htime
    · exact absurd (hsends.symm.trans hfires) (by decide)

theorem step_frameTime (s : RpiServer) (e : Env) :
    (s.step e).v4l2.frameTime = s.v4l2.frameTime := by
  by_cases hp : s.phase = .video
  · simp only [RpiServer.step, hp]
    exact (v4l2Update_time e { s with phase := .ret }).1
  · exact (step_v4l2_time e hp).2

theorem due_of_sends (h : sends .jpeg s e = true) : s.v4l2.due e.now = true := by
  have hsome := (phase_of_sends h).2
  unfold RpiServer.capturedFrame at hsome
  split at hsome
  · rename_i hdue
    exact hdue.1
  · cases hsome

theorem frameLimiter_guarded :
    frameLimiter.Guarded (fun s => s.v4l2.frameTime = 100) frameTime where
  inv := fun s e h => (step_frameTime s e).trans h
  due := fun s e hframe hs hfires => of_due hframe hs (due_of_sends hfires)
  stores := by
    intro s e hnow hfires
    obtain ⟨hp, hsome⟩ := phase_of_sends hfires
    have htime : (s.step e).v4l2.lastTime = e.later := by
      simp only [RpiServer.step, hp]
      rcases (v4l2Update_time e { s with phase := .ret }).2 with
        ⟨hnot, -⟩ | ⟨-, hnone, -⟩ | ⟨-, htime⟩
      · exact absurd (due_of_sends hfires) (by simpa using hnot)
      · have hnone : s.capturedFrame e = none := hnone
        rw [hnone] at hsome
        cases hsome
      · exact htime
    show e.now ≤ (s.step e).v4l2.lastTime
    rw [htime]
    exact hnow
  forward := by
    intro s e hs hnow
    have hs : s.v4l2.lastTime ≤ e.now := hs
    have hnow : e.now ≤ e.later := hnow
    show s.v4l2.lastTime ≤ (s.step e).v4l2.lastTime ∧ (s.step e).v4l2.lastTime ≤ e.later
    by_cases hp : s.phase = .video
    · simp only [RpiServer.step, hp]
      rcases (v4l2Update_time e { s with phase := .ret }).2 with
        ⟨-, htime⟩ | ⟨-, -, htime⟩ | ⟨-, htime⟩ <;> rw [htime]
      · exact ⟨le_refl _, le_trans hs hnow⟩
      · exact ⟨le_refl _, le_trans hs hnow⟩
      · exact ⟨le_trans hs hnow, le_refl _⟩
    · rw [(step_v4l2_time e hp).1]
      exact ⟨le_refl _, le_trans hs hnow⟩

/-- Where a frame is due, a server that streams sends one. -/
theorem sends_of_due (hstreams : Streams s e) (hp : s.phase = .video)
    (hdue : s.v4l2.due e.now = true) : sends .jpeg s e = true := by
  obtain ⟨hconn, -, hcamera⟩ := hstreams.2 hp
  have hsome : (s.capturedFrame e).isSome = true := by
    rw [RpiServer.capturedFrame, if_pos ⟨hdue, hconn⟩]
    exact Option.isSome_iff_ne_none.mpr hcamera
  obtain ⟨frame, hframe⟩ := Option.isSome_iff_exists.mp hsome
  simp [sends, RpiServer.events, hp, hframe, RpiServer.sentEvent, isSent]

theorem frameLimiter_prompt :
    frameLimiter.Prompt (fun s => s.v4l2.frameTime = 100) frameTime wrapTime Streams where
  polls := fun s e hfires => decide_eq_true (phase_of_sends hfires).1
  fires := by
    intro s e hframe hstreams hpoll hlate hwrap
    have hp : s.phase = .video := of_decide_eq_true hpoll
    exact sends_of_due hstreams hp (due_of_le hframe (hstreams.2 hp).2.1 hlate hwrap)
  keeps := by
    intro s e hstreams hfires
    show (s.step e).v4l2.lastTime = s.v4l2.lastTime
    by_cases hp : s.phase = .video
    · have hnot : s.v4l2.due e.now = false := by
        by_contra hdue
        have hsends := sends_of_due hstreams hp (eq_true_of_ne_false hdue)
        exact absurd (hsends.symm.trans hfires) (by decide)
      simp only [RpiServer.step, hp]
      rcases (v4l2Update_time e { s with phase := .ret }).2 with
        ⟨-, htime⟩ | ⟨hdue, -, -⟩ | ⟨hdue, -⟩
      · exact htime
      · exact absurd (hdue.symm.trans hnot) (by decide)
      · exact absurd (hdue.symm.trans hnot) (by decide)
    · exact (step_v4l2_time e hp).1

/-! ### What goes out on the peer -/

/-- Where the peer is kept a send has transmitted something. -/
theorem sent_of_keeps {kind : Kind} {buf : List UInt8}
    (h : (s.send kind buf e).1.nextSock = s.nextSock) :
    ∃ n, 0 < n ∧ s.sentEvent kind buf e = .sent s.sockPeer kind buf n := by
  rcases RpiServer.send_cases kind buf e s with ⟨n, -, -, hpos, hsend⟩ | ⟨-, hsend⟩
  · have hlog := RpiServer.send_log kind buf e s
    rw [hsend] at hlog
    exact ⟨n, hpos, (List.singleton_inj.mp (List.append_cancel_left hlog)).symm⟩
  · rw [hsend] at h
    exact absurd h (Nat.succ_ne_self _)

/-- What the server sends by itself goes to the peer. -/
theorem transmitted_of_sends {kind : Kind} (hkind : kind ≠ .gpio) (hkeeps : KeepsPeer s e)
    (h : sends kind s e = true) : (transmitted s.sockPeer kind (s.events e)).length = 1 := by
  have hphase := phase_of_sends h
  have hlength (buf : List UInt8) (hkept : (s.send kind buf e).1.nextSock = s.nextSock)
      (hevents : s.events e = [s.sentEvent kind buf e]) :
      (transmitted s.sockPeer kind (s.events e)).length = 1 := by
    obtain ⟨n, hpos, hsent⟩ := sent_of_keeps hkept
    rw [hevents, hsent]
    simp [transmitted, hpos]
  cases kind with
  | gpio => exact absurd rfl hkind
  | keepAlive =>
      obtain ⟨hp, hdue⟩ := hphase
      refine hlength keepAliveMessage ?_ (by simp only [RpiServer.events, hp, if_pos hdue])
      have hkept : (s.step e).nextSock = s.nextSock := hkeeps
      simp only [RpiServer.step, hp, RpiServer.sendKeepalive, if_pos hdue] at hkept
      exact hkept
  | jpeg =>
      obtain ⟨hp, hsome⟩ := hphase
      obtain ⟨frame, hframe⟩ := Option.isSome_iff_exists.mp hsome
      refine hlength frame ?_ (by simp [RpiServer.events, hp, hframe])
      have hkept : (s.step e).nextSock = s.nextSock := hkeeps
      simp only [RpiServer.step, hp] at hkept
      rcases RpiServer.v4l2Update_cases e { s with phase := .ret } with
        ⟨hnone, -⟩ | ⟨frame', v, w, hsome', -, -, -, -, -, hsend⟩
      · have hnone : s.capturedFrame e = none := hnone
        rw [hnone] at hframe
        cases hframe
      · have hsome' : s.capturedFrame e = some frame' := hsome'
        obtain rfl := Option.some.inj (hsome'.symm.trans hframe)
        rw [hsend] at hkept
        have hsame : (s.send .jpeg frame' e).1.nextSock =
            (RpiServer.send .jpeg frame' e { s with phase := .ret, v4l2 := v }).1.nextSock := by
          unfold RpiServer.send RpiServer.sockSend
          dsimp only
          split
          · rename_i hsome
            rw [hsome]
          · rename_i hnone
            rw [hnone]
            rfl
        rw [hsame]
        exact hkept

theorem sockPeer_of_keeps (h : KeepsPeer s e) : (s.step e).sockPeer = s.sockPeer := by
  rcases s.peer_cases e with hgiven | hkept
  · exact absurd (h.symm.trans hgiven.1) (Nat.succ_ne_self _).symm
  · exact hkept.2.1

/-- Along a run that keeps the peer, every message that the server sends by itself has gone out on
it. -/
theorem transmitted_run {kind : Kind} (hkind : kind ≠ .gpio) {s : RpiServer} {es : List Env}
    (h : Meets RpiServer.step KeepsPeer s es) :
    (transmitted s.sockPeer kind (run RpiServer.step s es).log).length =
      (transmitted s.sockPeer kind s.log).length + (sendTimes kind s es).length := by
  induction es generalizing s with
  | nil => rfl
  | cons e es ih =>
      obtain ⟨hkeeps, hrest⟩ := h
      have hstep := ih hrest
      rw [sockPeer_of_keeps hkeeps, RpiServer.step_log, transmitted_append,
        List.length_append] at hstep
      rw [run_cons, hstep, sendTimes, List.length_append]
      cases hsends : sends kind s e with
      | false =>
          rw [transmitted_of_not_sends hsends]
          simp
      | true =>
          rw [transmitted_of_sends hkind hkeeps hsends]
          simp
          omega

theorem keepaliveLimiter_firings (s : RpiServer) (es : List Env) :
    keepaliveLimiter.firings s es = sendTimes .keepAlive s es := by
  induction es generalizing s with
  | nil => rfl
  | cons e es ih => exact congrArg _ (ih _)

theorem frameLimiter_firings (s : RpiServer) (es : List Env) :
    frameLimiter.firings s es = sendTimes .jpeg s es := by
  induction es generalizing s with
  | nil => rfl
  | cons e es ih => exact congrArg _ (ih _)

theorem frameLimiter_clocked {t : ℤ} {es : List Env} (h : Clocked t es) :
    frameLimiter.Clocked t es := by
  induction es generalizing t with
  | nil => trivial
  | cons e es ih => exact ⟨h.1, h.2.1, ih h.2.2⟩

/-! ### The times that the server starts with -/

theorem mapBuffer_time (d : Device) (i : Fin 2) (v : V4L2) :
    (v.mapBuffer d i).1.lastTime = v.lastTime ∧ (v.mapBuffer d i).1.frameTime = v.frameTime := by
  unfold V4L2.mapBuffer
  split <;> exact ⟨rfl, rfl⟩

theorem mapBuffers_time (d : Device) (v : V4L2) :
    (v.mapBuffers d).1.lastTime = v.lastTime ∧ (v.mapBuffers d).1.frameTime = v.frameTime := by
  have h0 := mapBuffer_time d V4L2.first v
  unfold V4L2.mapBuffers
  split
  · rename_i w hw
    have h1 := mapBuffer_time d V4L2.second w
    rw [show v.mapBuffer d V4L2.first = (w, true) from hw] at h0
    exact ⟨h1.1.trans h0.1, h1.2.trans h0.2⟩
  · rename_i w hw
    rw [show v.mapBuffer d V4L2.first = (w, false) from hw] at h0
    exact h0

/-- Where the camera does not start its time stays at the epoch. -/
theorem startup_time (d : Device) (now : ℤ) :
    ((V4L2.construct.startup d now).1.lastTime = 0 ∨
      (V4L2.construct.startup d now).1.lastTime = now) ∧
      (V4L2.construct.startup d now).1.frameTime = 100 := by
  have hmap := mapBuffers_time d { V4L2.construct.setCapturing false with fd := d.fd }
  unfold V4L2.startup
  dsimp only
  split
  · exact ⟨Or.inl rfl, rfl⟩
  · split
    · exact ⟨Or.inl rfl, rfl⟩
    · split
      · rename_i w hw
        rw [hw] at hmap
        exact ⟨Or.inl hmap.1, hmap.2⟩
      · rename_i w hw
        rw [hw] at hmap
        split
        · exact ⟨Or.inl hmap.1, hmap.2⟩
        · exact ⟨Or.inr rfl, hmap.2⟩

section Runs

variable {gpioReady : Bool} {d : Device} {now later : ℤ} {before : List Env}

theorem frameTime_run (es : List Env) :
    (run RpiServer.step (RpiServer.startup gpioReady d now later) es).v4l2.frameTime = 100 := by
  have hstep : ∀ (s : RpiServer) (e : Env), s.v4l2.frameTime = 100 →
      (s.step e).v4l2.frameTime = 100 := fun s e h => (step_frameTime s e).trans h
  exact (always_of_step hstep (startup_time d now).2).last

theorem startup_lastTime_le (h0 : 0 ≤ now) (hnow : now ≤ later) :
    (RpiServer.startup gpioReady d now later).v4l2.lastTime ≤ later := by
  show (V4L2.construct.startup d now).1.lastTime ≤ later
  rcases (startup_time d now).1 with h | h <;> rw [h]
  · exact le_trans h0 hnow
  · exact hnow

/-- The steps of an update at `t` in which nothing arrives, every send is whole and the camera
yields a frame. -/
def updateAt (t : ℤ) : List Env :=
  List.replicate 5 { Env.idle with now := t, later := t, send := some 12, device := .jpeg }

/-- The steps of an update at `t` in which a client is accepted, and asks for video. -/
def asksAt (t : ℤ) : List Env :=
  [{ Env.idle with accept := some (0, true), now := t, later := t },
    { Env.idle with now := t, later := t },
    { Env.idle with
      now := t
      later := t
      inbox := [59]
      evaluate := fun _ => [.v4l2SetCapturing true] }] ++
    List.replicate 5 { Env.idle with now := t, later := t, send := some 12, device := .jpeg }

/-! ### How often the server sends -/

/-- **At most.**  On a clock that does not go back, keep-alives are at least 5001 milliseconds
apart, on whatever connections they are sent, and frames at least 101. -/
theorem sends_spaced (gpioReady : Bool) (d : Device) (now later : ℤ) (es : List Env)
    (h0 : 0 ≤ now) (hnow : now ≤ later) (hclock : Clocked later es) :
    let s := RpiServer.startup gpioReady d now later
    Spaced keepaliveTime (sendTimes .keepAlive s es) ∧ Spaced frameTime (sendTimes .jpeg s es) ∧
      ∀ (a w : ℤ), 0 ≤ w →
        (((sendTimes .keepAlive s es).filter fun t => decide (a ≤ t ∧ t ≤ a + w)).length : ℤ) *
            keepaliveTime ≤ w + keepaliveTime ∧
          (((sendTimes .jpeg s es).filter fun t => decide (a ≤ t ∧ t ≤ a + w)).length : ℤ) *
            frameTime ≤ w + frameTime := by
  intro s
  have hkeepalive : Spaced keepaliveTime (sendTimes .keepAlive s es) := by
    rw [← keepaliveLimiter_firings]
    exact (Limiter.spaced_firings keepaliveLimiter_guarded trivial (le_refl later) hclock).1
  have hframe : Spaced frameTime (sendTimes .jpeg s es) := by
    rw [← frameLimiter_firings]
    exact (Limiter.spaced_firings frameLimiter_guarded (startup_time d now).2
      (startup_lastTime_le h0 hnow) (frameLimiter_clocked hclock)).1
  refine ⟨hkeepalive, hframe, fun a w hw => ⟨?_, ?_⟩⟩
  · exact hkeepalive.count_le (by decide) a hw
  · exact hframe.count_le (by decide) a hw

/-- A client asks for video, and gets a frame and later a frame and a keep-alive. -/
theorem sends_spaced_two :
    let s := RpiServer.startup true .camera 0 0
    let es := asksAt 0 ++ updateAt 200000000 ++ updateAt 6000000000
    Spaced keepaliveTime (sendTimes .keepAlive s es) ∧ Spaced frameTime (sendTimes .jpeg s es) ∧
      sendTimes .keepAlive s es = [6000000000] ∧
      sendTimes .jpeg s es = [200000000, 6000000000] := by
  intro s es
  have hspaced := sends_spaced true .camera 0 0 es (le_refl 0) (le_refl 0) (by decide +kernel)
  exact ⟨hspaced.1, hspaced.2.1, by decide +kernel, by decide +kernel⟩

theorem clocked_run {es : List Env} (hclock : Clocked later (before ++ es)) :
    Clocked later before ∧ Clocked (keepaliveLimiter.now later before) es :=
  Limiter.clocked_append.mp hclock

/-- **Keep-alives keep coming.**  While a connection lasts and the server comes round to the test
every `δ`, the client has had `n` keep-alives after less than `(n + 1) * (5001 ms + 2 * δ)`. -/
theorem keepalives_keep_coming (gpioReady : Bool) (d : Device) (now later δ : ℤ)
    (before es : List Env) (hδ : 0 ≤ δ) (hclock : Clocked later (before ++ es))
    (hpeer : Meets RpiServer.step KeepsPeer
      (run RpiServer.step (RpiServer.startup gpioReady d now later) before) es)
    (hdense : Dense δ (keepaliveLimiter.now later before) (keepaliveLimiter.pollings
      (run RpiServer.step (RpiServer.startup gpioReady d now later) before) es)) :
    let s := run RpiServer.step (RpiServer.startup gpioReady d now later) before
    let t := keepaliveLimiter.now later before
    let count (log : List Event) : ℤ := (transmitted s.sockPeer .keepAlive log).length
    (keepaliveLimiter.pollings s es).getLastD t - t <
      (count (run RpiServer.step s es).log - count s.log + 1) * (keepaliveTime + 2 * δ) := by
  intro s t count
  obtain ⟨hbefore, hafter⟩ := clocked_run hclock
  have hstamp : s.lastTime ≤ t :=
    Limiter.stamp_le_now keepaliveLimiter_guarded (le_refl later) hbefore
  have hpos : 0 < keepaliveTime := by decide
  have helapsed := Limiter.elapsed_lt (b := t + keepaliveTime) hpos hδ keepaliveLimiter_guarded
    (keepaliveLimiter_prompt (t + keepaliveTime + δ - s.lastTime)) trivial hpeer hafter hstamp
    (by omega) (by exact add_le_add_left hstamp _) (by show _ ≤ s.lastTime + _; omega) hdense
  have hcount : count (run RpiServer.step s es).log =
      count s.log + (keepaliveLimiter.firings s es).length := by
    simp only [count]
    rw [transmitted_run (by decide) hpeer, keepaliveLimiter_firings, Nat.cast_add]
  rw [hcount]
  linarith

/-- A client that has been accepted has had a keep-alive after six seconds. -/
theorem keepalives_keep_coming_six :
    let s := run RpiServer.step (RpiServer.startup true .camera 0 0) (asksAt 0)
    let count (log : List Event) : ℤ := (transmitted s.sockPeer .keepAlive log).length
    (6000000000 : ℤ) - 0 < (count (run RpiServer.step s (updateAt 6000000000)).log -
      count s.log + 1) * (keepaliveTime + 2 * 6000000000) :=
  keepalives_keep_coming true .camera 0 0 6000000000 (asksAt 0) (updateAt 6000000000)
    (by decide) (by decide +kernel) (by decide +kernel) (by decide +kernel)

theorem keepsPeer_of_streams {s : RpiServer} {es : List Env}
    (h : Meets RpiServer.step Streams s es) : Meets RpiServer.step KeepsPeer s es := by
  have hkeep : ∀ (s : RpiServer) (e : Env), True → True := fun _ _ h => h
  exact Meets.imp hkeep (fun s e _ hC => hC.1) trivial h

/-- The frames that are sent pace the time, if the camera was in use less than `2 ^ 31`
milliseconds ago. -/
theorem frames_elapsed {δ : ℤ} {es : List Env} (h0 : 0 ≤ now) (hnow : now ≤ later) (hδ : 0 ≤ δ)
    (hclock : Clocked later (before ++ es))
    (hstreams : Meets RpiServer.step Streams
      (run RpiServer.step (RpiServer.startup gpioReady d now later) before) es)
    (hdense : Dense δ (keepaliveLimiter.now later before) (frameLimiter.pollings
      (run RpiServer.step (RpiServer.startup gpioReady d now later) before) es))
    (hrecent : keepaliveLimiter.now later before + frameTime + δ ≤
      (run RpiServer.step (RpiServer.startup gpioReady d now later) before).v4l2.lastTime +
        wrapTime) :
    let s := run RpiServer.step (RpiServer.startup gpioReady d now later) before
    let t := keepaliveLimiter.now later before
    (frameLimiter.pollings s es).getLastD t - t <
      ((sendTimes .jpeg s es).length + 1) * (frameTime + 2 * δ) := by
  intro s t
  obtain ⟨hbefore, hafter⟩ := clocked_run hclock
  have hstamp : s.v4l2.lastTime ≤ t :=
    Limiter.stamp_le_now frameLimiter_guarded (startup_lastTime_le h0 hnow)
      (frameLimiter_clocked hbefore)
  have hpos : 0 < frameTime := by decide
  have helapsed := Limiter.elapsed_lt (b := t + frameTime) hpos hδ frameLimiter_guarded
    frameLimiter_prompt (frameTime_run before) hstreams (frameLimiter_clocked hafter) hstamp
    (by omega) (by exact add_le_add_left hstamp _) hrecent hdense
  rw [frameLimiter_firings] at helapsed
  linarith

/-- **Frames keep coming.**  While the peer stays, wants video and the camera yields frames, and
the server comes round to the test every `δ`, something of `n` frames has gone out to it after
less than `(n + 1) * (101 ms + 2 * δ)`, if the camera was in use less than `2 ^ 31` milliseconds
ago. -/
theorem frames_keep_coming (gpioReady : Bool) (d : Device) (now later δ : ℤ)
    (before es : List Env) (h0 : 0 ≤ now) (hnow : now ≤ later) (hδ : 0 ≤ δ)
    (hclock : Clocked later (before ++ es))
    (hstreams : Meets RpiServer.step Streams
      (run RpiServer.step (RpiServer.startup gpioReady d now later) before) es)
    (hdense : Dense δ (keepaliveLimiter.now later before) (frameLimiter.pollings
      (run RpiServer.step (RpiServer.startup gpioReady d now later) before) es))
    (hrecent : keepaliveLimiter.now later before + frameTime + δ ≤
      (run RpiServer.step (RpiServer.startup gpioReady d now later) before).v4l2.lastTime +
        wrapTime) :
    let s := run RpiServer.step (RpiServer.startup gpioReady d now later) before
    let t := keepaliveLimiter.now later before
    let count (log : List Event) : ℤ := (transmitted s.sockPeer .jpeg log).length
    (frameLimiter.pollings s es).getLastD t - t <
      (count (run RpiServer.step s es).log - count s.log + 1) * (frameTime + 2 * δ) := by
  intro s t count
  have helapsed : (frameLimiter.pollings s es).getLastD t - t <
      ((sendTimes .jpeg s es).length + 1) * (frameTime + 2 * δ) :=
    frames_elapsed h0 hnow hδ hclock hstreams hdense hrecent
  have hcount : count (run RpiServer.step s es).log =
      count s.log + (sendTimes .jpeg s es).length := by
    simp only [count]
    rw [transmitted_run (by decide) (keepsPeer_of_streams hstreams), Nat.cast_add]
  rw [hcount, add_sub_cancel_left]
  exact helapsed

/-- A client that has asked for video is sent frames in less than half a second. -/
theorem frames_keep_coming_half :
    let s := run RpiServer.step (RpiServer.startup true .camera 0 0) (asksAt 0)
    let count (log : List Event) : ℤ := (transmitted s.sockPeer .jpeg log).length
    (400000000 : ℤ) - 0 <
      (count (run RpiServer.step s (updateAt 200000000 ++ updateAt 400000000)).log -
        count s.log + 1) * (frameTime + 2 * 200000000) :=
  frames_keep_coming true .camera 0 0 200000000 (asksAt 0)
    (updateAt 200000000 ++ updateAt 400000000) (le_refl 0) (le_refl 0) (by decide)
    (by decide +kernel) (by decide +kernel) (by decide +kernel) (by decide +kernel)

end Runs

/-! ### Peers that are gone -/

theorem nextSock_of_meets {s : RpiServer} {es : List Env}
    (h : Meets RpiServer.step KeepsPeer s es) :
    (run RpiServer.step s es).nextSock = s.nextSock := by
  induction es generalizing s with
  | nil => rfl
  | cons e es ih => exact (ih h.2).trans h.1

/-- Where every send fails no keep-alive goes out to a peer that is kept. -/
theorem sendTimes_of_dead {s : RpiServer} {es : List Env} (hdead : ∀ e ∈ es, e.send = none)
    (hpeer : Meets RpiServer.step KeepsPeer s es) : sendTimes .keepAlive s es = [] := by
  induction es generalizing s with
  | nil => rfl
  | cons e es ih =>
      have hnot : sends .keepAlive s e = false := by
        by_contra hsends
        obtain ⟨hp, hdue⟩ := phase_of_sends (eq_true_of_ne_false hsends)
        have hkept : (s.step e).nextSock = s.nextSock := hpeer.1
        simp only [RpiServer.step, hp, RpiServer.sendKeepalive, if_pos hdue] at hkept
        rcases RpiServer.send_cases .keepAlive keepAliveMessage e s with
          ⟨n, -, hsend, -⟩ | ⟨-, hsend⟩
        · exact hsend (hdead e List.mem_cons_self)
        · rw [hsend] at hkept
          exact absurd hkept (Nat.succ_ne_self _)
      rw [sendTimes, hnot, ih (fun e he => hdead e (List.mem_cons_of_mem _ he)) hpeer.2]
      rfl

/-- **A peer that is gone is given up**, at the latest by the test of `send_keepalive` that comes
5001 milliseconds after the last keep-alive.  If every send up to that test fails, the peer is kept
up to a step behind which the server is disconnected, with an accept into a new socket pending. -/
theorem dead_peer_given_up (s : RpiServer) (es : List Env) (e : Env)
    (hdead : ∀ e' ∈ es ++ [e], e'.send = none) (hp : (run RpiServer.step s es).phase = .keepalive)
    (hlate : s.lastTime + keepaliveTime ≤ e.now) :
    ∃ before e' after, es ++ [e] = before ++ e' :: after ∧
      Meets RpiServer.step KeepsPeer s before ∧
        let t := run RpiServer.step s (before ++ [e'])
        t.state = .disconnected ∧ t.sockPeer = s.nextSock ∧ t.sockPeer ∈ t.pending := by
  have hleaves : ¬ Meets RpiServer.step KeepsPeer s (es ++ [e]) := by
    intro hpeer
    have hnone : keepaliveLimiter.firings s (es ++ [e]) = [] := by
      rw [keepaliveLimiter_firings]
      exact sendTimes_of_dead hdead hpeer
    have hpoll : e.now ∈ keepaliveLimiter.pollings s (es ++ [e]) := by
      rw [Limiter.pollings_append]
      refine List.mem_append_right _ ?_
      rw [Limiter.pollings_of_polls (decide_eq_true hp)]
      exact List.mem_cons_self
    have hearly : e.now < s.lastTime + keepaliveTime :=
      Limiter.lt_of_firings_nil keepaliveLimiter_guarded.inv keepaliveLimiter_prompt trivial hpeer
        hnone hpoll
    omega
  obtain ⟨before, e', after, hes, hbefore, hgiven⟩ := exists_first_of_not_meets hleaves
  refine ⟨before, e', after, hes, hbefore, ?_⟩
  rw [run_append, run_cons, run_nil]
  rcases (run RpiServer.step s before).peer_cases e' with
    ⟨-, hpeer, -, hstate, rest, -, hpending⟩ | hkept
  · have hsock := nextSock_of_meets hbefore
    refine ⟨hstate, hpeer.trans hsock, ?_⟩
    rw [hpeer, hpending]
    exact List.mem_append_right _ List.mem_cons_self
  · exact absurd hkept.1 hgiven

/-- A client that never comes back is given up after six seconds. -/
theorem dead_peer_given_up_six :
    let s := run RpiServer.step (RpiServer.startup true .absent 0 0)
      [{ Env.idle with accept := some (0, true) }]
    ∃ before e' after,
      List.replicate 3 { Env.idle with now := 6000000000, later := 6000000000 } =
        before ++ e' :: after ∧ Meets RpiServer.step KeepsPeer s before ∧
          let t := run RpiServer.step s (before ++ [e'])
          t.state = .disconnected ∧ t.sockPeer = s.nextSock ∧ t.sockPeer ∈ t.pending := by
  intro s
  apply dead_peer_given_up s (List.replicate 2 { Env.idle with now := 6000000000, later := _ })
  · intro e' he
    have hidle : e' = { Env.idle with now := 6000000000, later := 6000000000 } :=
      List.eq_of_mem_replicate (n := 3) he
    rw [hidle]
    rfl
  · decide +kernel
  · decide +kernel

/-! ### The wrap -/

theorem not_due_of_wrapped (hframe : s.v4l2.frameTime = 100)
    (hlow : s.v4l2.lastTime + wrapTime ≤ e.now)
    (hhigh : e.now < s.v4l2.lastTime + 2 * wrapTime + frameTime) :
    s.v4l2.due e.now = false := by
  rw [wrapTime] at hlow hhigh
  rw [frameTime] at hhigh
  have hms : V4L2.milliseconds (e.now - s.v4l2.lastTime) = (e.now - s.v4l2.lastTime) / 1000000 :=
    milliseconds_of_nonneg (by omega)
  have hbmod : ((e.now - s.v4l2.lastTime) / 1000000).bmod (2 ^ 32) =
      (e.now - s.v4l2.lastTime) / 1000000 - 2 ^ 32 := by
    rw [← Int.sub_mul_bmod_self_right _ 1, Int.bmod_eq_of_le_mul_two (by omega) (by omega)]
    omega
  simp only [V4L2.due, hframe, hms, hbmod, Bool.and_eq_false_iff, decide_eq_false_iff_not]
  right
  omega

theorem silent_of_rested {s : RpiServer} {es : List Env} (hframe : s.v4l2.frameTime = 100)
    (hrested : ∀ e ∈ es, s.v4l2.lastTime + wrapTime ≤ e.now ∧
      e.now < s.v4l2.lastTime + 2 * wrapTime + frameTime) :
    sendTimes .jpeg s es = [] := by
  induction es generalizing s with
  | nil => rfl
  | cons e es ih =>
      obtain ⟨hlow, hhigh⟩ := hrested e List.mem_cons_self
      have hdue := not_due_of_wrapped hframe hlow hhigh
      have htime : (s.step e).v4l2.lastTime = s.v4l2.lastTime := by
        by_cases hp : s.phase = .video
        · simp only [RpiServer.step, hp]
          rcases (v4l2Update_time e { s with phase := .ret }).2 with
            ⟨-, htime⟩ | ⟨hdue', -, -⟩ | ⟨hdue', -⟩
          · exact htime
          · exact absurd (hdue'.symm.trans hdue) (by decide)
          · exact absurd (hdue'.symm.trans hdue) (by decide)
        · exact (step_v4l2_time e hp).1
      have hnot : sends .jpeg s e = false := by
        by_contra hsends
        exact absurd ((due_of_sends (eq_true_of_ne_false hsends)).symm.trans hdue) (by decide)
      have hrest := ih ((step_frameTime s e).trans hframe) fun e he =>
        htime ▸ hrested e (List.mem_cons_of_mem _ he)
      rw [sendTimes, hnot, hrest]
      rfl

/-- **A camera that has rested too long stays silent.**  From `2 ^ 31` milliseconds after it was
last in use on, no frame is sent for as long again, whatever the clients and their scripts ask for. -/
theorem rested_camera_silent (gpioReady : Bool) (d : Device) (now later : ℤ)
    (before es : List Env) :
    let s := run RpiServer.step (RpiServer.startup gpioReady d now later) before
    (∀ e ∈ es, s.v4l2.lastTime + wrapTime ≤ e.now ∧
      e.now < s.v4l2.lastTime + 2 * wrapTime + frameTime) → sendTimes .jpeg s es = [] := by
  intro s hrested
  exact silent_of_rested (frameTime_run before) hrested

/-- A client asks for video on the twenty-fifth day, and gets none on the twenty-sixth. -/
theorem rested_camera_silent_day :
    sendTimes .jpeg (RpiServer.startup true .camera 0 0)
      (asksAt (25 * 86400000000000) ++ updateAt (26 * 86400000000000)) = [] := by
  apply rested_camera_silent true .camera 0 0 []
  decide +kernel

end MKart.Server.Pacing
