import MKart.Lib.Runs
import MKart.Server.RpiServer

/-!
# Who gets video

`m_capture` belongs to the `V4L2` object and not to a connection: a script sets it, and it is
cleared by a script or by a capture that is attempted while nobody is connected.  A connection
that ends leaves it set until such an attempt, and a client that is accepted before gets the
video its predecessor asked for.  In a run whose accepts all find it cleared (`FlagClear`), a
JPEG frame is only sent on a connection whose own scripts asked for it.
-/

namespace MKart.Server.Video

open MKart.Runs

/-- Some script received on `sock` has called `v4l2_set_capturing(true)`, and none has called
`v4l2_set_capturing(false)` since. -/
def Asked (log : List Event) (sock : ℕ) : Prop :=
  ∃ before since, log = before ++ .called sock (.v4l2SetCapturing true) :: since ∧
    Event.called sock (.v4l2SetCapturing false) ∉ since

/-- At each send of a JPEG frame its connection had asked for it. -/
def VideoAsked (log : List Event) : Prop :=
  ∀ before sock frame n since, log = before ++ .sent sock .jpeg frame n :: since →
    Asked before sock

/-- The step completes an accept into the peer socket without an error. -/
def accepts (s : RpiServer) (e : Env) : Bool :=
  match s.phase, e.accept with
  | .poll, some (i, true) => s.pending[i]? == some s.sockPeer
  | _, _ => false

/-- A connection that is accepted finds capturing off. -/
def FlagClear (s : RpiServer) (e : Env) : Prop := accepts s e = true → s.v4l2.capturing = false

instance (s : RpiServer) (e : Env) : Decidable (FlagClear s e) :=
  inferInstanceAs (Decidable (_ → _))

/-! ### The log -/

theorem Asked.concat {log : List Event} {sock : ℕ} (h : Asked log sock) {ev : Event}
    (hev : ev ≠ .called sock (.v4l2SetCapturing false)) : Asked (log ++ [ev]) sock := by
  obtain ⟨before, since, rfl, hsince⟩ := h
  refine ⟨before, since ++ [ev], by simp, ?_⟩
  intro hmem
  rcases List.mem_append.mp hmem with hold | hnew
  · exact hsince hold
  · exact hev (List.mem_singleton.mp hnew).symm

theorem asked_concat (log : List Event) (sock : ℕ) :
    Asked (log ++ [.called sock (.v4l2SetCapturing true)]) sock :=
  ⟨log, [], rfl, List.not_mem_nil⟩

theorem VideoAsked.concat {log : List Event} (h : VideoAsked log) {ev : Event}
    (hev : ∀ sock frame n, ev = .sent sock .jpeg frame n → Asked log sock) :
    VideoAsked (log ++ [ev]) := by
  intro before sock frame n since hsplit
  rcases List.eq_nil_or_concat since with rfl | ⟨since', last, rfl⟩
  · obtain ⟨rfl, hlast⟩ := List.append_inj' hsplit rfl
    exact hev sock frame n (List.singleton_inj.mp hlast)
  · have hcut : log ++ [ev] = (before ++ .sent sock .jpeg frame n :: since') ++ [last] := by
      rw [hsplit, List.concat_eq_append]
      simp
    obtain ⟨hlog, -⟩ := List.append_inj' hcut rfl
    exact h before sock frame n since' hlog

/-! ### The operations -/

/-- If the peer is a connection at all, it is `sock`. -/
def PeerIs (sock : ℕ) (s : RpiServer) : Prop := s.sockPeer ∈ s.opened → sock = s.sockPeer

structure Asking (s : RpiServer) : Prop where
  video : VideoAsked s.log
  flag : s.v4l2.capturing = true → s.sockPeer ∈ s.opened → Asked s.log s.sockPeer
  connected : s.state = .connected → s.sockPeer ∈ s.opened
  peer : s.sockPeer < s.nextSock
  fresh : ∀ sock ∈ s.opened, sock < s.nextSock

variable {s : RpiServer}

/-- Giving the peer up leaves nobody who could get video. -/
theorem asking_waitForConnection (now : ℤ) (hvideo : VideoAsked s.log)
    (hfresh : ∀ sock ∈ s.opened, sock < s.nextSock) : Asking (s.waitForConnection now) where
  video := hvideo
  flag := fun _ hopen => absurd (hfresh _ hopen) (lt_irrefl _)
  connected := fun h => by cases h
  peer := Nat.lt_succ_self _
  fresh := fun sock hsock => Nat.lt_succ_of_lt (hfresh sock hsock)

theorem asking_send (h : Asking s) (kind : Kind) (hkind : kind = .jpeg → Asked s.log s.sockPeer)
    (buf : List UInt8) (e : Env) : Asking (s.send kind buf e).1 := by
  have hvideo (n : ℕ) : VideoAsked (s.log ++ [.sent s.sockPeer kind buf n]) := by
    refine h.video.concat ?_
    intro sock frame n' heq
    obtain ⟨rfl, hk, -, -⟩ := Event.sent.inj heq
    exact hkind hk
  rcases RpiServer.send_cases kind buf e s with ⟨n, -, -, -, hsend⟩ | ⟨-, hsend⟩
  · rw [hsend]
    exact ⟨hvideo n, fun hon hopen => (h.flag hon hopen).concat (fun h => by cases h),
      h.connected, h.peer, h.fresh⟩
  · rw [hsend]
    exact asking_waitForConnection e.later (hvideo 0) h.fresh

/-- A call of a script of the peer, or of a peer that was given up since. -/
theorem asking_call (h : Asking s) {sock : ℕ} (hsock : PeerIs sock s) (c : ScriptCall) (e : Env) :
    Asking (s.call sock c e) := by
  have hvideo : VideoAsked (s.log ++ [.called sock c]) := h.video.concat fun _ _ _ h => by cases h
  have hlog (hc : ∀ enabled, c ≠ .v4l2SetCapturing enabled) :
      Asking { s with log := s.log ++ [.called sock c] } := by
    refine ⟨hvideo, fun hon hopen => (h.flag hon hopen).concat ?_, h.connected, h.peer, h.fresh⟩
    intro heq
    exact hc false (Event.called.inj heq).2
  rcases s.call_cases sock c e with ⟨hreg, hcall⟩ | ⟨-, ⟨rfl, hcall⟩ | ⟨enabled, rfl, hcall⟩ |
    ⟨bank, hc, -, hcall⟩ | ⟨-, hc, -, -, hcall⟩⟩ <;> rw [hcall]
  · have hlog := hlog (by rintro enabled rfl; cases hreg)
    exact ⟨hlog.video, hlog.flag, (fun h => by cases h), hlog.peer, hlog.fresh⟩
  · have hlog := hlog (fun _ h => by cases h)
    exact ⟨hlog.video, hlog.flag, (fun h => by cases h), hlog.peer, hlog.fresh⟩
  · refine ⟨hvideo, ?_, h.connected, h.peer, h.fresh⟩
    intro hon hopen
    obtain rfl : enabled = true := hon
    obtain rfl := hsock hopen
    exact asked_concat s.log s.sockPeer
  · refine asking_send (hlog ?_) .gpio (fun h => by cases h) _ e
    rintro enabled rfl
    rcases hc with ⟨h, -⟩ | ⟨h, -⟩ <;> cases h
  · exact hlog hc

theorem asking_completeAccept (h : Asking s) (i : ℕ) (ok : Bool) (now : ℤ)
    (hclear : ok = true → s.pending[i]? = some s.sockPeer → s.v4l2.capturing = false) :
    Asking (s.completeAccept i ok now) := by
  rcases s.completeAccept_cases i ok now with
    ⟨-, hsame⟩ | ⟨target, htarget, ⟨-, hfailed⟩ | ⟨hok, rfl, haccepted⟩ | ⟨-, -, hcrash⟩⟩
  · rw [hsame]
    exact h
  · rw [hfailed]
    exact asking_waitForConnection (s := { s with pending := _ }) now h.video h.fresh
  · have hoff := hclear hok htarget
    have hvideo : VideoAsked (s.log ++ [.accepted s.sockPeer]) :=
      h.video.concat fun _ _ _ h => by cases h
    rw [haccepted]
    refine ⟨hvideo, ?_, fun _ => List.mem_cons_self, h.peer, ?_⟩
    · intro hon
      exact absurd (hoff.symm.trans hon) (by decide)
    · intro sock hsock
      rcases List.mem_cons.mp hsock with rfl | hold
      · exact h.peer
      · exact h.fresh sock hold
  · rw [hcrash]
    exact ⟨h.video, h.flag, h.connected, h.peer, h.fresh⟩

theorem asking_v4l2Update (h : Asking s) (e : Env) : Asking (s.v4l2Update e) := by
  rcases s.v4l2Update_cases e with ⟨-, hsame | ⟨v, hv, -, hoff⟩ | hcrash⟩ |
    ⟨frame, v, w, -, -, hconn, hon, hv, -, hsend⟩
  · rw [hsame]
    exact h
  · rw [hoff]
    exact ⟨h.video, fun hon => absurd (hv.symm.trans hon) (by decide), h.connected, h.peer, h.fresh⟩
  · rw [hcrash]
    exact ⟨h.video, h.flag, h.connected, h.peer, h.fresh⟩
  · have hasked := h.flag hon (h.connected hconn)
    have hbefore : Asking { s with v4l2 := v } :=
      ⟨h.video, fun _ _ => hasked, h.connected, h.peer, h.fresh⟩
    have hsent := asking_send hbefore .jpeg (fun _ => hasked) frame e
    rw [hsend]
    refine ⟨hsent.video, fun _ hopen => hsent.flag ?_ hopen, hsent.connected, hsent.peer,
      hsent.fresh⟩
    rw [RpiServer.send_v4l2]
    exact hv

/-! ### Runs -/

/-- The flag and the log agree, and a script that is evaluated came from the peer. -/
structure Inv (s : RpiServer) : Prop where
  asking : Asking s
  script : ∀ sock rest, s.phase = .script sock rest → PeerIs sock s

theorem Inv.of_phase (h : Asking s) (hphase : ∀ sock rest, s.phase ≠ .script sock rest) : Inv s :=
  ⟨h, fun sock rest hp => absurd hp (hphase sock rest)⟩

theorem inv_startup (gpioReady : Bool) (d : Device) (now later : ℤ) :
    Inv (RpiServer.startup gpioReady d now later) := by
  refine Inv.of_phase (asking_waitForConnection later ?_ fun _ h => absurd h List.not_mem_nil)
    fun _ _ h => by cases h
  intro before sock frame n since hsplit
  exact absurd hsplit (by simp)

theorem peerIs_send {sock : ℕ} (hsock : PeerIs sock s)
    (hfresh : ∀ sock ∈ s.opened, sock < s.nextSock) (kind : Kind) (buf : List UInt8) (e : Env) :
    PeerIs sock (s.send kind buf e).1 := by
  rcases RpiServer.send_cases kind buf e s with ⟨n, -, -, -, hsend⟩ | ⟨-, hsend⟩
  · rw [hsend]
    exact hsock
  · rw [hsend]
    intro hopen
    exact absurd (hfresh _ hopen) (lt_irrefl _)

theorem peerIs_call {sock : ℕ} (hsock : PeerIs sock s)
    (hfresh : ∀ sock ∈ s.opened, sock < s.nextSock) (c : ScriptCall) (e : Env) :
    PeerIs sock (s.call sock c e) := by
  rcases s.call_cases sock c e with ⟨-, h⟩ | ⟨-, ⟨-, h⟩ | ⟨enabled, -, h⟩ | ⟨bank, -, -, h⟩ |
    ⟨-, -, -, -, h⟩⟩ <;> rw [h]
  · exact hsock
  · exact hsock
  · exact hsock
  · exact peerIs_send (by exact hsock) (by exact hfresh) .gpio _ e
  · exact hsock

/-- **One step**, if an accept that completes finds capturing off. -/
theorem step_inv (s : RpiServer) (e : Env) (h : Inv s) (hclear : FlagClear s e) :
    Inv (s.step e) := by
  obtain ⟨hasking, hscript⟩ := h
  have hphase (p : Phase) : Asking { s with phase := p } :=
    ⟨hasking.video, hasking.flag, hasking.connected, hasking.peer, hasking.fresh⟩
  cases hp : s.phase with
  | poll =>
      simp only [RpiServer.step, hp]
      split
      · rename_i i ok haccept
        refine Inv.of_phase (asking_completeAccept hasking i ok e.now fun hok htarget =>
          hclear ?_) ?_
        · simp [accepts, hp, haccept, hok, htarget]
        · intro sock rest hrest
          rcases s.completeAccept_phase i ok e.now with hsame | hcrash
          · cases (hrest.symm.trans (hsame.trans hp))
          · cases (hrest.symm.trans hcrash)
      · refine Inv.of_phase (hphase _) ?_
        intro sock rest hrest
        dsimp only at hrest
        split at hrest <;> cases hrest
  | receive =>
      simp only [RpiServer.step, hp]
      rcases s.receiveCommands_cases e with ⟨-, hnone⟩ | ⟨-, ⟨-, hfailed⟩ | ⟨bytes, -, hcalls⟩⟩
      · rw [hnone]
        exact Inv.of_phase (hphase _) fun _ _ h => by cases h
      · have hwait := asking_waitForConnection e.now hasking.video hasking.fresh
        rw [hfailed]
        exact Inv.of_phase ⟨hwait.video, hwait.flag, hwait.connected, hwait.peer, hwait.fresh⟩
          fun _ _ h => by cases h
      · rw [hcalls]
        refine ⟨hphase _, ?_⟩
        intro sock rest hrest _
        exact (Phase.script.inj hrest).1.symm
  | script sock rest =>
      have hsock := hscript sock rest hp
      cases rest with
      | nil =>
          simp only [RpiServer.step, hp]
          exact Inv.of_phase (hphase _) fun _ _ h => by cases h
      | cons c rest =>
          simp only [RpiServer.step, hp]
          refine ⟨asking_call (hphase _) (by exact hsock) c e, ?_⟩
          intro sock' rest' hrest
          rcases RpiServer.call_phase sock c e { s with phase := .script sock rest }
            with ⟨-, hsame⟩ | ⟨-, hhung⟩
          · obtain rfl := (Phase.script.inj (hrest.symm.trans hsame)).1
            exact peerIs_call (by exact hsock) (by exact hasking.fresh) c e
          · cases (hrest.symm.trans hhung)
  | keepalive =>
      simp only [RpiServer.step, hp]
      unfold RpiServer.sendKeepalive
      split
      · have hsent := asking_send hasking .keepAlive (fun h => by cases h) keepAliveMessage e
        exact Inv.of_phase ⟨hsent.video, hsent.flag, hsent.connected, hsent.peer, hsent.fresh⟩
          fun _ _ h => by cases h
      · exact Inv.of_phase (hphase _) fun _ _ h => by cases h
  | video =>
      simp only [RpiServer.step, hp]
      refine Inv.of_phase (asking_v4l2Update (hphase _) e) ?_
      intro sock rest hrest
      rcases RpiServer.v4l2Update_phase e { s with phase := .ret } with hsame | hcrash
      · cases (hrest.symm.trans hsame)
      · cases (hrest.symm.trans hcrash)
  | ret =>
      simp only [RpiServer.step, hp]
      refine Inv.of_phase ⟨hasking.video, hasking.flag, hasking.connected, hasking.peer,
        hasking.fresh⟩ ?_
      intro sock rest hrest
      simp only [RpiServer.ret] at hrest
      split at hrest <;> cases hrest
  | stopped | hung | crashed =>
      simp only [RpiServer.step, hp]
      exact ⟨hasking, hscript⟩

/-- **Video goes to clients that asked for it**, in every run in which every accept finds
capturing off. -/
theorem update_video_asked (gpioReady : Bool) (d : Device) (now later : ℤ) (es : List Env)
    (hclear : Meets RpiServer.step FlagClear (RpiServer.startup gpioReady d now later) es) :
    Always RpiServer.step (fun s => VideoAsked s.log) (RpiServer.startup gpioReady d now later)
      es :=
  (always_of_meets step_inv (inv_startup gpioReady d now later) hclear).imp
    fun _ h => h.asking.video

/-- The steps of an update in which a client is accepted, and asks for video. -/
def asks : List Env :=
  [{ Env.idle with accept := some (0, true) }, .idle,
    { Env.idle with inbox := [59], evaluate := fun _ => [.v4l2SetCapturing true] },
    .idle, .idle, .idle]

/-- A capture at `now`, with the result of its send. -/
def captureAt (now : ℤ) (send : Option ℕ) : Env :=
  { Env.idle with now := now, later := now, device := .jpeg, send := send }

/-- A client that asked gets a frame. -/
theorem update_video_asked_one :
    Always RpiServer.step (fun s => VideoAsked s.log) (RpiServer.startup true .camera 0 0)
      (asks ++ [captureAt 200000000 (some 16)]) :=
  update_video_asked true .camera 0 0 _ (by decide)

/-- The send of the first frame fails, which ends the connection but not the capturing.  The next
client is accepted before the next capture, and gets a frame that it did not ask for. -/
theorem update_video_inherited :
    ¬ Always RpiServer.step (fun s => VideoAsked s.log) (RpiServer.startup true .camera 0 0)
      (asks ++ [captureAt 200000000 none, .idle, { Env.idle with accept := some (0, true) }, .idle,
        .idle, .idle, captureAt 400000000 (some 16)]) := by
  intro h
  obtain ⟨before, since, hsplit, -⟩ := h.last
    [.accepted 1, .called 1 (.v4l2SetCapturing true),
      .sent 1 .jpeg [8, 0, 0, 0, 74, 80, 69, 71, 0xFF, 0xD8, 0xFF, 0xE0] 0, .accepted 2]
    2 [8, 0, 0, 0, 74, 80, 69, 71, 0xFF, 0xD8, 0xFF, 0xE0] 12 [] (by decide)
  have hmem : Event.called 2 (.v4l2SetCapturing true) ∈
      before ++ .called 2 (.v4l2SetCapturing true) :: since := by simp
  rw [← hsplit] at hmem
  exact absurd hmem (by decide)

end MKart.Server.Video
