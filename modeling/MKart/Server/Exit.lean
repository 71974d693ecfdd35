import MKart.Lib.Runs
import MKart.Server.RpiServer

/-!
# Exit requests

`RpiServer::exit` stores `state_exit` into the variable that also holds the connection state.
Between that store and the return of the update, the script may go on, the keep-alive may be
due and a capture may be; of these only a send that fails stores another state.  A script that
fails ends in the fatal handler, which stores `state_exit` as well, but the update never returns
from it.

A run keeps its exit requests (`ExitKept`) exactly if none of its steps is one of these two
(`ExitSafe`), and then an update in which `exit()` was called returns false after a number of
steps that is known in advance (`left`).
-/

namespace MKart.Server.Exit

open MKart.Runs

/-- The script fails, and the evaluation ends in the fatal handler. -/
def callsFatal (s : RpiServer) : Bool :=
  match s.phase with
  | .script _ (c :: _) => !c.registered s.gpioReady
  | _ => false

/-- The step sends, and the send fails. -/
def sendFails (s : RpiServer) (e : Env) : Bool :=
  s.sendsUntested e && (decide (s.sockPeer ∉ s.opened) || e.send.isNone)

/-- The step is not the fatal handler's, and not a failing send behind an exit request. -/
def ExitSafe (s : RpiServer) (e : Env) : Prop :=
  callsFatal s = false ∧ (s.exitRequested = true → sendFails s e = false)

instance (s : RpiServer) (e : Env) : Decidable (ExitSafe s e) :=
  inferInstanceAs (Decidable (_ ∧ _))

/-- An exit requested in the current update is still there and the update can return; every
earlier update in which it was requested has returned false. -/
def ExitKept (s : RpiServer) : Prop :=
  (s.exitRequested = true → s.state = .exit ∧ s.phase ≠ .hung) ∧
    ∀ r ∈ s.returns, r.1 = true → r.2 = false

instance (s : RpiServer) : Decidable (ExitKept s) := inferInstanceAs (Decidable (_ ∧ _))

/-- The number of steps from a script until the update has returned. -/
def left : Phase → ℕ
  | .script _ rest => rest.length + 4
  | .keepalive => 3
  | .video => 2
  | .ret => 1
  | _ => 0

/-! ### What leaves the exit request alone -/

/-- The operation neither requests an exit nor returns from the update. -/
def SameExit (s t : RpiServer) : Prop :=
  t.exitRequested = s.exitRequested ∧ t.returns = s.returns

variable {s : RpiServer}

theorem send_sameExit (kind : Kind) (buf : List UInt8) (e : Env) (s : RpiServer) :
    SameExit s (s.send kind buf e).1 := by
  rcases RpiServer.send_cases kind buf e s with ⟨n, -, -, -, hsend⟩ | ⟨-, hsend⟩ <;> rw [hsend]
  · exact ⟨rfl, rfl⟩
  · exact ⟨rfl, rfl⟩

theorem sendKeepalive_sameExit (e : Env) (s : RpiServer) : SameExit s (s.sendKeepalive e) := by
  unfold RpiServer.sendKeepalive
  split
  · exact send_sameExit _ _ e s
  · exact ⟨rfl, rfl⟩

theorem completeAccept_sameExit (i : ℕ) (ok : Bool) (now : ℤ) (s : RpiServer) :
    SameExit s (s.completeAccept i ok now) := by
  rcases s.completeAccept_cases i ok now with
    ⟨-, h⟩ | ⟨target, -, ⟨-, h⟩ | ⟨-, -, h⟩ | ⟨-, -, h⟩⟩ <;> rw [h] <;> exact ⟨rfl, rfl⟩

theorem receiveCommands_sameExit (e : Env) (s : RpiServer) :
    SameExit s (s.receiveCommands e) := by
  rcases s.receiveCommands_cases e with ⟨-, h⟩ | ⟨-, ⟨-, h⟩ | ⟨bytes, -, h⟩⟩ <;> rw [h] <;>
    exact ⟨rfl, rfl⟩

theorem v4l2Update_sameExit (e : Env) (s : RpiServer) : SameExit s (s.v4l2Update e) := by
  rcases s.v4l2Update_cases e with ⟨-, hsame | ⟨v, -, -, hoff⟩ | hcrash⟩ |
    ⟨frame, v, w, -, -, -, -, -, -, hsend⟩
  · rw [hsame]
    exact ⟨rfl, rfl⟩
  · rw [hoff]
    exact ⟨rfl, rfl⟩
  · rw [hcrash]
    exact ⟨rfl, rfl⟩
  · rw [hsend]
    exact send_sameExit .jpeg frame e { s with v4l2 := v }

theorem v4l2Update_exit (e : Env) (h : s.state = .exit) :
    (s.v4l2Update e).state = .exit ∧ (s.v4l2Update e).phase = s.phase := by
  have hnot : s.state ≠ .connected := by simp [h]
  unfold RpiServer.v4l2Update
  rw [RpiServer.capture_not_connected e hnot]
  split
  · exact ⟨h, rfl⟩
  · exact ⟨h, rfl⟩

/-- A send that does not fail changes nothing but the log. -/
theorem send_state {e : Env} (hopen : s.sockPeer ∈ s.opened) (hsend : e.send ≠ none) (kind : Kind)
    (buf : List UInt8) : (s.send kind buf e).1.state = s.state := by
  rcases RpiServer.send_cases kind buf e s with ⟨n, -, -, -, hok⟩ | ⟨hfail, -⟩
  · rw [hok]
  · rcases hfail with hclosed | hnone
    · exact absurd hopen hclosed
    · exact absurd hnone hsend

theorem send_fails_state {e : Env} (h : s.sockPeer ∉ s.opened ∨ e.send = none) (kind : Kind)
    (buf : List UInt8) : (s.send kind buf e).1.state = .disconnected := by
  rcases RpiServer.send_cases kind buf e s with ⟨n, hopen, -, -, hok⟩ | ⟨-, hfail⟩
  · rcases h with hclosed | hnone
    · exact absurd hopen hclosed
    · have hnone' : s.sockSend e buf = none := by simp [RpiServer.sockSend, hnone]
      simp [RpiServer.send, hnone'] at hok
  · rw [hfail]
    rfl

theorem sent_of_not_fails {e : Env} (h : sendFails s e = false)
    (hsends : s.sendsUntested e = true) : s.sockPeer ∈ s.opened ∧ e.send ≠ none := by
  simp only [sendFails, hsends, Bool.true_and, Bool.or_eq_false_iff, decide_eq_false_iff_not,
    not_not] at h
  refine ⟨h.1, ?_⟩
  intro hnone
  rw [hnone] at h
  exact absurd h.2 (by decide)

/-! ### An update in which `exit()` was called -/

structure Exiting (s : RpiServer) : Prop where
  requested : s.exitRequested = true
  state : s.state = .exit
  running : 0 < left s.phase

/-- One more call of the script. -/
theorem exiting_call (sock : ℕ) {c : ScriptCall} {e : Env} (h : Exiting s)
    (hreg : c.registered s.gpioReady = true)
    (hsend : c = .gpioGet_0_31 ∨ c = .gpioGet_32_53 → s.gpioReady = true →
      s.sockPeer ∈ s.opened ∧ e.send ≠ none) :
    Exiting (s.call sock c e) ∧ (s.call sock c e).phase = s.phase ∧
      (s.call sock c e).returns = s.returns := by
  rcases s.call_cases sock c e with ⟨hfails, -⟩ | ⟨-, ⟨-, hcall⟩ | ⟨enabled, -, hcall⟩ |
    ⟨bank, hc, hready, hcall⟩ | ⟨-, -, -, -, hcall⟩⟩
  · exact absurd (hreg.symm.trans hfails) (by decide)
  · rw [hcall]
    exact ⟨⟨rfl, rfl, h.running⟩, rfl, rfl⟩
  · rw [hcall]
    exact ⟨⟨h.requested, h.state, h.running⟩, rfl, rfl⟩
  · obtain ⟨hopen, hok⟩ := hsend (hc.imp And.left And.left) hready
    have hsame := send_sameExit .gpio (gpioMessage bank e.gpioRead) e
      { s with log := s.log ++ [.called sock c] }
    have hphase := RpiServer.send_phase .gpio (gpioMessage bank e.gpioRead) e
      { s with log := s.log ++ [.called sock c] }
    rw [hcall]
    refine ⟨⟨hsame.1.trans h.requested, ?_, ?_⟩, hphase, hsame.2⟩
    · exact (send_state (by exact hopen) hok _ _).trans h.state
    · exact (congrArg left hphase).symm ▸ h.running
  · rw [hcall]
    exact ⟨⟨h.requested, h.state, h.running⟩, rfl, rfl⟩

/-- **One step** of an update in which `exit()` was called returns from it or comes one step
closer to that, and the request stays. -/
theorem exiting_step {e : Env} (h : Exiting s) (hsafe : ExitSafe s e) :
    (s.phase = .ret ∧ s.step e = s.ret) ∨
      (Exiting (s.step e) ∧ left (s.step e).phase + 1 = left s.phase ∧
        (s.step e).returns = s.returns) := by
  obtain ⟨hfatal, hfails⟩ := hsafe
  have hfails := hfails h.requested
  have hrunning := h.running
  cases hp : s.phase with
  | script sock rest =>
      right
      cases rest with
      | nil =>
          simp only [RpiServer.step, hp]
          exact ⟨⟨h.requested, h.state, Nat.succ_pos 2⟩, rfl, trivial⟩
      | cons c rest =>
          simp only [RpiServer.step, hp]
          have hrest : Exiting { s with phase := .script sock rest } :=
            ⟨h.requested, h.state, Nat.succ_pos _⟩
          obtain ⟨hcall, hphase, hreturns⟩ := exiting_call sock (c := c) (e := e) hrest
            (by simpa [callsFatal, hp] using hfatal)
            (by
              intro hc hready
              have hsends : s.sendsUntested e = true := by
                rcases hc with rfl | rfl <;> simpa [RpiServer.sendsUntested, hp] using hready
              have hok := sent_of_not_fails hfails hsends
              exact hok)
          exact ⟨hcall, by rw [hphase]; simp [left], hreturns⟩
  | keepalive =>
      right
      simp only [RpiServer.step, hp]
      have hsame := sendKeepalive_sameExit e s
      refine ⟨⟨hsame.1.trans h.requested, ?_, Nat.succ_pos 1⟩, rfl, hsame.2⟩
      show (s.sendKeepalive e).state = .exit
      unfold RpiServer.sendKeepalive
      split
      · rename_i hdue
        have hok := sent_of_not_fails hfails (by simpa [RpiServer.sendsUntested, hp] using hdue)
        exact (send_state hok.1 hok.2 _ _).trans h.state
      · exact h.state
  | video =>
      right
      simp only [RpiServer.step, hp]
      have hsame := v4l2Update_sameExit e { s with phase := .ret }
      obtain ⟨hstate, hphase⟩ := v4l2Update_exit (s := { s with phase := .ret }) e h.state
      exact ⟨⟨hsame.1.trans h.requested, hstate, by rw [hphase]; exact Nat.one_pos⟩,
        by rw [hphase]; rfl, hsame.2⟩
  | ret => exact Or.inl ⟨rfl, by simp only [RpiServer.step, hp]⟩
  | _ => simp [left, hp] at hrunning

/-- When the main loop has ended nothing more happens. -/
theorem run_stopped (h : s.phase = .stopped) (es : List Env) : run RpiServer.step s es = s := by
  induction es with
  | nil => rfl
  | cons e es ih =>
      have hstep : s.step e = s := by simp only [RpiServer.step, h]
      rw [run_cons, hstep, ih]

theorem exiting_ret (h : Exiting s) :
    s.ret.phase = .stopped ∧ s.ret.returns = s.returns ++ [(true, false)] := by
  simp [RpiServer.ret, h.state, h.requested]

/-! ### Runs -/

structure Inv (s : RpiServer) : Prop where
  exiting : s.exitRequested = true → Exiting s
  returns : ∀ r ∈ s.returns, r.1 = true → r.2 = false

theorem Inv.exitKept (h : Inv s) : ExitKept s := by
  refine ⟨fun hrequested => ⟨(h.exiting hrequested).state, ?_⟩, h.returns⟩
  intro hhung
  have hrunning := (h.exiting hrequested).running
  rw [hhung] at hrunning
  exact lt_irrefl 0 hrunning

theorem inv_startup (gpioReady : Bool) (d : Device) (now later : ℤ) :
    Inv (RpiServer.startup gpioReady d now later) :=
  ⟨(fun h => by cases h), fun _ hr => absurd hr List.not_mem_nil⟩

/-- Without a request, a step that leaves the request alone keeps the invariant. -/
theorem Inv.same {t : RpiServer} (h : Inv s) (hnone : s.exitRequested = false)
    (hsame : SameExit s t) : Inv t := by
  refine ⟨?_, ?_⟩
  · intro hrequested
    rw [hsame.1, hnone] at hrequested
    exact absurd hrequested (by decide)
  · rw [hsame.2]
    exact h.returns

theorem inv_call {sock : ℕ} {c : ScriptCall} {e : Env} (h : Inv s)
    (hnone : s.exitRequested = false) (hrunning : 0 < left s.phase)
    (hreg : c.registered s.gpioReady = true) : Inv (s.call sock c e) := by
  rcases s.call_cases sock c e with ⟨hfails, -⟩ | ⟨-, ⟨-, hcall⟩ | ⟨enabled, -, hcall⟩ |
    ⟨bank, -, -, hcall⟩ | ⟨-, -, -, -, hcall⟩⟩
  · exact absurd (hreg.symm.trans hfails) (by decide)
  · rw [hcall]
    exact ⟨fun _ => ⟨rfl, rfl, hrunning⟩, h.returns⟩
  · rw [hcall]
    exact h.same hnone ⟨rfl, rfl⟩
  · rw [hcall]
    exact h.same hnone (send_sameExit _ _ e { s with log := _ })
  · rw [hcall]
    exact h.same hnone ⟨rfl, rfl⟩

theorem inv_ret (h : Inv s) : Inv s.ret := by
  refine ⟨(fun h => by cases h), ?_⟩
  intro _ hr hrequested
  rcases List.mem_append.mp hr with hold | hnew
  · exact h.returns _ hold hrequested
  · obtain rfl := List.mem_singleton.mp hnew
    show (s.state != .exit) = false
    rw [(h.exiting hrequested).state]
    rfl

theorem step_inv (s : RpiServer) (e : Env) (h : Inv s) (hsafe : ExitSafe s e) :
    Inv (s.step e) := by
  by_cases hrequested : s.exitRequested = true
  · rcases exiting_step (h.exiting hrequested) hsafe with ⟨-, hret⟩ | ⟨hexiting, -, hreturns⟩
    · rw [hret]
      exact inv_ret h
    · exact ⟨fun _ => hexiting, by rw [hreturns]; exact h.returns⟩
  · have hnone : s.exitRequested = false := by simpa using hrequested
    cases hp : s.phase with
    | poll =>
        simp only [RpiServer.step, hp]
        split
        · exact h.same hnone (completeAccept_sameExit _ _ _ s)
        · exact h.same hnone ⟨rfl, rfl⟩
    | receive =>
        simp only [RpiServer.step, hp]
        exact h.same hnone (receiveCommands_sameExit e s)
    | script sock rest =>
        cases rest with
        | nil =>
            simp only [RpiServer.step, hp]
            exact h.same hnone ⟨rfl, rfl⟩
        | cons c rest =>
            simp only [RpiServer.step, hp]
            refine inv_call (s := { s with phase := .script sock rest }) ?_ hnone
              (Nat.succ_pos _) ?_
            · exact h.same hnone ⟨rfl, rfl⟩
            · simpa [callsFatal, hp] using hsafe.1
    | keepalive =>
        simp only [RpiServer.step, hp]
        exact h.same hnone (sendKeepalive_sameExit e s)
    | video =>
        simp only [RpiServer.step, hp]
        exact h.same hnone (v4l2Update_sameExit e { s with phase := .ret })
    | ret =>
        simp only [RpiServer.step, hp]
        exact inv_ret h
    | stopped | hung | crashed =>
        simp only [RpiServer.step, hp]
        exact h

/-- The fatal handler, and a failing send behind an exit request, lose the request. -/
theorem not_exitKept_of_unsafe (s : RpiServer) (e : Env) (_ : Inv s) (hsafe : ¬ ExitSafe s e) :
    ¬ ExitKept (s.step e) := by
  intro hkept
  by_cases hfatal : callsFatal s = true
  · -- the update hangs in `duk_fatal`
    cases hp : s.phase with
    | script sock rest =>
        cases rest with
        | nil => simp [callsFatal, hp] at hfatal
        | cons c rest =>
            have hreg : c.registered s.gpioReady = false := by simpa [callsFatal, hp] using hfatal
            have hstep : s.step e = RpiServer.handleDuktapFatal
                { s with phase := .script sock rest, log := s.log ++ [.called sock c] } := by
              simp only [RpiServer.step, hp]
              exact if_neg (ne_true_of_eq_false hreg)
            rw [hstep] at hkept
            exact (hkept.1 rfl).2 rfl
    | _ => simp [callsFatal, hp] at hfatal
  · -- the failing send stores another state
    have hbad : s.exitRequested = true ∧ sendFails s e = true := by
      by_contra hnot
      refine hsafe ⟨by simpa using hfatal, ?_⟩
      intro hrequested
      by_contra hfails
      exact hnot ⟨hrequested, by simpa using hfails⟩
    obtain ⟨hrequested, hfails⟩ := hbad
    obtain ⟨hsends, hfail⟩ := (Bool.and_eq_true _ _ ▸ hfails : _ ∧ _)
    have hfail : s.sockPeer ∉ s.opened ∨ e.send = none := by
      simpa [Option.isNone_iff_eq_none] using hfail
    obtain ⟨kind, buf, log, p, p', t, -, -, hstep⟩ := RpiServer.step_of_sendsUntested hsends
    have hsame := send_sameExit kind buf e { s with log := log, phase := p }
    have hlost := send_fails_state (s := { s with log := log, phase := p }) hfail kind buf
    rw [hstep] at hkept
    have hexit := (hkept.1 (hsame.1.trans hrequested)).1
    exact absurd (hlost.symm.trans hexit) (by decide)

theorem run_exiting {es : List Env} (h : Exiting s) (hsafe : Meets RpiServer.step ExitSafe s es)
    (hleft : left s.phase ≤ es.length) :
    (run RpiServer.step s es).phase = .stopped ∧
      (run RpiServer.step s es).returns = s.returns ++ [(true, false)] := by
  induction es generalizing s with
  | nil =>
      have hrunning := h.running
      simp only [List.length_nil] at hleft
      omega
  | cons e es ih =>
      rcases exiting_step h hsafe.1 with ⟨-, hret⟩ | ⟨hexiting, hcloser, hreturns⟩
      · obtain ⟨hstopped, hreturned⟩ := exiting_ret h
        rw [run_cons, hret, run_stopped hstopped]
        exact ⟨hstopped, hreturned⟩
      · rw [run_cons, ← hreturns]
        apply ih hexiting hsafe.2
        simp only [List.length_cons] at hleft
        omega

/-- **An exit request is kept** in every state of a run exactly if none of its steps is the fatal
handler's or a failing send behind the request.  If they go on that way, the update in which
`exit()` was called returns false after `left` steps, and the main loop ends. -/
theorem update_keeps_exit (gpioReady : Bool) (d : Device) (now later : ℤ) (es : List Env) :
    let start := RpiServer.startup gpioReady d now later
    (Always RpiServer.step ExitKept start es ↔ Meets RpiServer.step ExitSafe start es) ∧
      ∀ more : List Env, Meets RpiServer.step ExitSafe start (es ++ more) →
        (run RpiServer.step start es).exitRequested = true →
        left (run RpiServer.step start es).phase ≤ more.length →
        (run RpiServer.step start (es ++ more)).phase = .stopped ∧
          (run RpiServer.step start (es ++ more)).returns =
            (run RpiServer.step start es).returns ++ [(true, false)] := by
  intro start
  have hstart := inv_startup gpioReady d now later
  refine ⟨⟨?_, ?_⟩, ?_⟩
  · exact meets_of_always step_inv not_exitKept_of_unsafe hstart
  · intro hsafe
    exact (always_of_meets step_inv hstart hsafe).imp fun s h => h.exitKept
  · intro more hsafe hrequested hleft
    have hinv := (always_of_meets step_inv hstart hsafe.append_left).last
    rw [run_append]
    exact run_exiting (hinv.exiting hrequested) hsafe.append_right hleft

/-- The script calls `exit()` and then reads a bank; the send fails, and the server goes back to
waiting for a connection. -/
theorem update_loses_exit :
    ¬ Always RpiServer.step ExitKept (RpiServer.startup true .absent 0 0)
      [{ Env.idle with accept := some (0, true) }, .idle,
        { Env.idle with inbox := [59], evaluate := fun _ => [.exit, .gpioGet_0_31] },
        .idle, .idle] := by
  decide

end MKart.Server.Exit
