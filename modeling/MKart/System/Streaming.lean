import MKart.Server.Pacing
import MKart.System.Video

/-!
# Video keeps coming

The pace of the server and the pictures of the Qt client, put together.  While the server serves
the client's connection and the camera yields frames, a picture is made for the connection every
101 milliseconds and a little more; and every picture that is made is shown, however long its bytes
take and in whatever pieces they arrive.  So the number of pictures that the client has shown in
the end is bounded from below by the time that it has been watching (`pictures_keep_coming`).
-/

namespace MKart.System.Streaming

open MKart.Runs MKart.RateLimiter MKart.ClientQt MKart.Server MKart.Server.Pacing
open MKart.ClientUnity.EndToEnd (ServerFrame)
open MKart.Server.RpiServer (sends phase_of_sends)
open MKart.System.Video (Session Input InPlace picture)

/-! ### The server in a session -/

/-- The step that the server takes in a step of the session. -/
def serverStep : Input → Option Env
  | .server e _ => some e
  | _ => none

def serverSteps (is : List Input) : List Env := is.filterMap serverStep

variable {s : Session} {i : Input}

theorem line_arrive (s : Session) (n : ℕ) :
    (s.arrive n).line = s.line ∨ (s.arrive n).line = s.line.arrive n := by
  unfold Session.arrive
  split
  · exact Or.inr rfl
  · exact Or.inl rfl

theorem line_network (s : Session) (state : SocketState) :
    (s.network state).line = if s.Enters state then s.line.dial else s.line := by
  unfold Session.network
  split <;> rfl

theorem server_step (s : Session) (i : Input) :
    (s.step i).line.server = run RpiServer.step s.line.server (serverStep i).toList := by
  cases i with
  | server e mine => rfl
  | arrive n =>
      show (s.arrive n).line.server = s.line.server
      rcases line_arrive s n with h | h <;> rw [h]
      rfl
  | network state =>
      show (s.network state).line.server = s.line.server
      rw [line_network]
      split <;> rfl
  | init | connect | disconnect | setCapturing _ | update _ => rfl

theorem server_run (s : Session) (is : List Input) :
    (run Session.step s is).line.server =
      run RpiServer.step s.line.server (serverSteps is) := by
  induction is generalizing s with
  | nil => rfl
  | cons i is ih =>
      rw [run_cons, ih, server_step, ← run_append]
      cases i <;> rfl

/-- The client does not begin another connection. -/
def Holds (s : Session) : Input → Prop
  | .network state => ¬ s.Enters state
  | _ => True

instance (s : Session) : (i : Input) → Decidable (Holds s i)
  | .network _ => inferInstanceAs (Decidable (¬ _))
  | .init | .connect | .disconnect | .setCapturing _ | .update _ | .arrive _ | .server _ _ =>
      inferInstanceAs (Decidable True)

/-- Neither does it, nor does the server let go of the connection; the server has been asked for
video, and the camera yields a frame whenever one is due. -/
def Watches (s : Session) : Input → Prop
  | .network state => ¬ s.Enters state
  | .server e _ => Streams s.line.server e
  | _ => True

instance (s : Session) : (i : Input) → Decidable (Watches s i)
  | .network _ => inferInstanceAs (Decidable (¬ _))
  | .server e _ => inferInstanceAs (Decidable (Streams s.line.server e))
  | .init | .connect | .disconnect | .setCapturing _ | .update _ | .arrive _ =>
      inferInstanceAs (Decidable True)

theorem Watches.holds (h : Watches s i) : Holds s i := by
  cases i with
  | network state => exact h
  | _ => trivial

/-- Without another connection, only the server's steps change what is made for this one. -/
theorem line_step (hholds : Holds s i) :
    (∃ e mine, i = .server e mine ∧ (s.step i).line = s.line.serve e mine) ∨
      (serverStep i = none ∧ (s.step i).line.server = s.line.server ∧
        (s.step i).line.conn = s.line.conn ∧ (s.step i).line.messages = s.line.messages) := by
  cases i with
  | server e mine => exact Or.inl ⟨e, mine, rfl, rfl⟩
  | arrive n =>
      refine Or.inr ⟨rfl, ?_⟩
      show (s.arrive n).line.server = _ ∧ (s.arrive n).line.conn = _ ∧
        (s.arrive n).line.messages = _
      rcases line_arrive s n with h | h <;> rw [h] <;> exact ⟨rfl, rfl, rfl⟩
  | network state =>
      refine Or.inr ⟨rfl, ?_⟩
      show (s.network state).line.server = _ ∧ (s.network state).line.conn = _ ∧
        (s.network state).line.messages = _
      rw [line_network, if_neg hholds]
      exact ⟨rfl, rfl, rfl⟩
  | init | connect | disconnect | setCapturing _ | update _ =>
      exact Or.inr ⟨rfl, rfl, rfl, rfl⟩

theorem messages_step (hholds : Holds s i) : s.line.messages <+: (s.step i).line.messages := by
  rcases line_step hholds with ⟨e, mine, -, hline⟩ | ⟨-, -, -, hsame⟩
  · rw [hline]
    exact List.prefix_append _ _
  · exact hsame ▸ List.prefix_rfl

theorem messages_run {is : List Input} (h : Meets Session.step Holds s is) :
    s.line.messages <+: (run Session.step s is).line.messages := by
  induction is generalizing s with
  | nil => exact List.prefix_rfl
  | cons i is ih => exact (messages_step h.1).trans (ih h.2)

/-! ### The pictures that are made -/

/-- How many pictures the server has made for the connection. -/
def pictures (s : Session) : ℕ := (s.line.messages.filterMap picture).length

/-- Frames are made in the camera's update, and pictures of nothing else. -/
theorem picture_made {t : RpiServer} {e : Env} {f : ServerFrame} (h : made t e = some f) :
    (picture f).isSome = decide (t.phase = .video) := by
  unfold made at h
  split at h
  · rename_i hp
    split at h <;> cases h
    simp [picture, hp]
  · rename_i hp
    split at h <;> cases h
    simp [picture, hp]
  · rename_i hp
    split at h <;> cases h
    simp [picture, hp]
  · rename_i hp
    split at h
    · obtain ⟨bytesused, -, rfl⟩ := Option.map_eq_some_iff.mp (Option.filter_eq_some_iff.mp h).1
      simp [picture, hp]
    · cases h
  · cases h

/-- **A picture is made exactly where a frame is sent.** -/
theorem pictures_made (t : RpiServer) (e : Env) :
    ((made t e).toList.filterMap picture).length = if sends .jpeg t e then 1 else 0 := by
  by_cases hp : t.phase = .video
  · have hsends : sends .jpeg t e = (made t e).isSome := by
      simp only [sends, RpiServer.events, hp]
      rw [← made_video hp]
      cases made t e <;> rfl
    rw [hsends]
    cases hmade : made t e with
    | none => rfl
    | some f =>
        obtain ⟨p, hpicture⟩ := Option.isSome_iff_exists.mp
          ((picture_made hmade).trans (decide_eq_true hp))
        simp [hpicture]
  · have hnot : sends .jpeg t e = false := by
      by_contra hsends
      exact hp (phase_of_sends (eq_true_of_ne_false hsends)).1
    rw [hnot]
    cases hmade : made t e with
    | none => rfl
    | some f =>
        have hnone : picture f = none := by
          apply Option.not_isSome_iff_eq_none.mp
          rw [picture_made hmade, decide_eq_false hp]
          exact Bool.false_ne_true
        simp [hnone]

theorem pictures_serve {e : Env} (mine : Bool)
    (hconn : s.line.conn = .accepted s.line.server.sockPeer) :
    pictures { s with line := s.line.serve e mine } =
      pictures s + if sends .jpeg s.line.server e then 1 else 0 := by
  have hadded : s.line.added e = (made s.line.server e).toList := if_pos hconn
  show ((s.line.messages ++ s.line.added e).filterMap picture).length = _
  rw [List.filterMap_append, List.length_append, hadded, pictures_made]
  rfl

/-- A connection that is accepted stays the line's connection. -/
theorem conn_serve {e : Env} (mine : Bool) (hkeeps : KeepsPeer s.line.server e)
    (hconn : s.line.conn = .accepted s.line.server.sockPeer) :
    (s.line.serve e mine).conn = .accepted (s.line.serve e mine).server.sockPeer := by
  have hnot : ¬ (Server.Video.accepts s.line.server e = true ∧ mine = true ∧
      s.line.conn = .waiting) := by
    rw [hconn]
    exact fun h => by cases h.2.2
  have hsame : (s.line.serve e mine).conn = s.line.conn := if_neg hnot
  rw [hsame, hconn]
  exact congrArg Connection.accepted (sockPeer_of_keeps hkeeps).symm

/-- **While the client watches, every frame that is sent is a picture for it.** -/
theorem run_watches {is : List Input} (hconn : s.line.conn = .accepted s.line.server.sockPeer)
    (h : Meets Session.step Watches s is) :
    Meets RpiServer.step Streams s.line.server (serverSteps is) ∧
      pictures (run Session.step s is) =
        pictures s + (sendTimes .jpeg s.line.server (serverSteps is)).length := by
  induction is generalizing s with
  | nil => exact ⟨trivial, rfl⟩
  | cons i is ih =>
      obtain ⟨hwatches, hrest⟩ := h
      rcases line_step hwatches.holds with
        ⟨e, mine, rfl, hline⟩ | ⟨hnone, hserver, hsame, hmessages⟩
      · have hstreams : Streams s.line.server e := hwatches
        obtain ⟨hmeets, hcount⟩ := ih (s := { s with line := s.line.serve e mine })
          (conn_serve mine hstreams.1 hconn) hrest
        refine ⟨⟨hstreams, hmeets⟩, ?_⟩
        show pictures (run Session.step { s with line := s.line.serve e mine } is) = _
        rw [hcount, pictures_serve mine hconn]
        show _ = pictures s + (sendTimes .jpeg s.line.server (e :: serverSteps is)).length
        rw [sendTimes, List.length_append, add_assoc]
        congr 2
        split <;> rfl
      · have hsteps : serverSteps (i :: is) = serverSteps is := by
          rw [serverSteps, List.filterMap_cons, hnone, serverSteps]
        have hpictures : pictures (s.step i) = pictures s := by rw [pictures, hmessages, pictures]
        have hrest := ih (by rw [hserver, hsame, hconn]) hrest
        rw [hserver, hpictures] at hrest
        rw [hsteps]
        exact hrest

/-! ### The time that the client watches -/

/-- **Pictures keep coming.**  Let the server serve the client's connection from some point on and
come round to its camera every `δ`, let the client ask for video and the camera yield frames.
However long the last messages take after that: once they have all arrived at a client that is
still connected, it has shown a picture for each 101 milliseconds and `2 * δ`, less one. -/
theorem pictures_keep_coming (gpioReady : Bool) (d : Device) (now later δ : ℤ)
    (before is after : List Input) (envs : List FpvEnv) (h0 : 0 ≤ now) (hnow : now ≤ later)
    (hδ : 0 ≤ δ)
    (hplace : Meets Session.step InPlace (.start gpioReady d now later) (before ++ is ++ after))
    (hclock : Clocked later (serverSteps (before ++ is))) :
    let s := run Session.step (.start gpioReady d now later) before
    let s' := run Session.step (.start gpioReady d now later) (before ++ is ++ after)
    let t := keepaliveLimiter.now later (serverSteps before)
    let polls := frameLimiter.pollings s.line.server (serverSteps is)
    s.line.conn = .accepted s.line.server.sockPeer → Meets Session.step Watches s is →
      Meets Session.step Holds (run Session.step s is) after → Dense δ t polls →
      t + frameTime + δ ≤ s.line.server.v4l2.lastTime + wrapTime →
      s'.client.tcp.sock.state = .connectedState → s'.line.Drained →
      2 * s'.line.messages.length ≤ envs.length →
        polls.getLastD t - t <
          ((run Session.step s' (envs.map .update)).images.length - pictures s + 1) *
            (frameTime + 2 * δ) := by
  intro s s' t polls hconn hwatches hholds hdense hrecent hconnected hdrained henough
  have hserver : s.line.server =
      run RpiServer.step (RpiServer.startup gpioReady d now later) (serverSteps before) :=
    server_run _ _
  obtain ⟨hstreams, hcount⟩ := run_watches hconn hwatches
  -- the frames sent while the client watches, by the server's clock
  have helapsed : polls.getLastD t - t <
      ((sendTimes .jpeg s.line.server (serverSteps is)).length + 1) * (frameTime + 2 * δ) := by
    have hsteps : serverSteps (before ++ is) = serverSteps before ++ serverSteps is :=
      List.filterMap_append
    rw [hsteps] at hclock
    simp only [polls, hserver] at hstreams hdense hrecent ⊢
    exact frames_elapsed h0 hnow hδ hclock hstreams hdense hrecent
  -- they are pictures in the end, and all of these are shown
  have hsplit : s' = run Session.step (run Session.step s is) after := by
    show run _ _ (before ++ is ++ after) = _
    rw [run_append, run_append]
  have hgrow : pictures (run Session.step s is) ≤ pictures s' := by
    rw [hsplit]
    exact ((messages_run hholds).filterMap picture).length_le
  have hshown : (run Session.step s' (envs.map .update)).images.length = pictures s' := by
    have hinv : Video.Inv s' :=
      (always_of_meets Video.step_inv (Video.inv_start gpioReady d now later) hplace).last
    rw [hinv.images_drained hconnected hdrained henough]
    rfl
  have hmore : ((sendTimes .jpeg s.line.server (serverSteps is)).length : ℤ) + 1 ≤
      (run Session.step s' (envs.map .update)).images.length - pictures s + 1 := by omega
  have hperiod : 0 ≤ frameTime + 2 * δ := by
    have hframe : 0 ≤ frameTime := by decide
    omega
  exact helapsed.trans_le (mul_le_mul_of_nonneg_right hmore hperiod)

/-- The client connects and asks for video. -/
def connects : List Input :=
  [.connect, .network .connectedState] ++ (asksAt 0).map (.server · true)

/-- Two rounds of the server, 200 and 400 milliseconds later. -/
def rounds : List Input :=
  (updateAt 200000000 ++ updateAt 400000000).map (.server · false)

/-- The pictures of both rounds arrive together. -/
theorem pictures_keep_coming_two :
    let s := run Session.step (.start true .camera 0 0) connects
    let s' := run Session.step (.start true .camera 0 0) (connects ++ rounds ++ [.arrive 24])
    let shown := (run Session.step s' ((List.replicate 4 Video.envIdle).map .update)).images
    (400000000 : ℤ) - 0 < (shown.length - pictures s + 1) * (frameTime + 2 * 200000000) ∧
      shown.length = 2 := by
  intro s s' shown
  refine ⟨?_, by decide +kernel⟩
  apply pictures_keep_coming true .camera 0 0 200000000 connects rounds [.arrive 24]
    (List.replicate 4 Video.envIdle) (le_refl 0) (le_refl 0)
  · decide
  · decide +kernel
  · decide +kernel
  · decide +kernel
  · decide +kernel
  · decide +kernel
  · decide +kernel
  · decide +kernel
  · decide +kernel
  · decide +kernel
  · decide +kernel

end MKart.System.Streaming
