import MKart.Lib.Runs
import MKart.Server.Exit
import MKart.Server.Scripts

/-!
# The server goes on

Whatever clients, scripts and devices do, an update returns after finitely many steps, provided
that what it calls returns: the scripts end, and no send, receive or device call blocks for ever.
Then the server has a client or waits for one: while it is not connected, an accept into the peer
socket is pending, so that the next connection which completes it is served (`goes_on`).  The
exceptions are those in which nothing runs any more (`Ended`): an exit, the fatal handler, and the
two places at which the program has no defined outcome.

The server keeps this although `wait_for_connection` is reached from many places: each time it
stores the state, it also makes the socket and posts the accept (`Attended`).
-/

namespace MKart.Server.Availability

open MKart.Runs
open MKart.Server.Exit (left)

/-- The peer socket is what the state says: waited for, or accepted. -/
def Attended (s : RpiServer) : Prop :=
  (s.state = .disconnected → s.sockPeer ∈ s.pending) ∧
    (s.state = .connected → s.sockPeer ∈ s.opened)

/-- Nothing runs any more. -/
def Ended (p : Phase) : Prop := p = .stopped ∨ p = .hung ∨ p = .crashed

/-! ### The peer socket -/

variable {s : RpiServer}

theorem Attended.same {t : RpiServer} (h : Attended s) (hstate : t.state = s.state)
    (hpeer : t.sockPeer = s.sockPeer) (hpending : t.pending = s.pending)
    (hopened : t.opened = s.opened) : Attended t := by
  rw [Attended, hstate, hpeer, hpending, hopened]
  exact h

theorem attended_waitForConnection (now : ℤ) (s : RpiServer) :
    Attended (s.waitForConnection now) :=
  ⟨fun _ => List.mem_append_right _ (List.mem_singleton_self _), (fun h => by cases h)⟩

theorem attended_send (h : Attended s) (kind : Kind) (buf : List UInt8) (e : Env) :
    Attended (s.send kind buf e).1 := by
  rcases RpiServer.send_cases kind buf e s with ⟨n, -, -, -, hsend⟩ | ⟨-, hsend⟩ <;> rw [hsend]
  · exact h.same rfl rfl rfl rfl
  · exact attended_waitForConnection e.later _

theorem attended_exit (s : RpiServer) (h : s.state = .exit) : Attended s := by
  rw [Attended, h]
  exact ⟨(fun h => by cases h), (fun h => by cases h)⟩

theorem attended_call (h : Attended s) (sock : ℕ) (c : ScriptCall) (e : Env) :
    Attended (s.call sock c e) := by
  rcases s.call_cases sock c e with ⟨-, hcall⟩ | ⟨-, ⟨-, hcall⟩ | ⟨enabled, -, hcall⟩ |
    ⟨bank, -, -, hcall⟩ | ⟨-, -, -, -, hcall⟩⟩ <;> rw [hcall]
  · exact attended_exit _ rfl
  · exact attended_exit _ rfl
  · exact h.same rfl rfl rfl rfl
  · have hlog : Attended { s with log := s.log ++ [.called sock c] } := h.same rfl rfl rfl rfl
    exact attended_send hlog _ _ e
  · exact h.same rfl rfl rfl rfl

/-- An accept into another socket than the peer leaves the peer's pending. -/
theorem attended_completeAccept (h : Attended s) (i : ℕ) (ok : Bool) (now : ℤ) :
    Attended (s.completeAccept i ok now) := by
  rcases s.completeAccept_cases i ok now with
    ⟨-, hsame⟩ | ⟨target, htarget, ⟨-, hfailed⟩ | ⟨-, -, haccepted⟩ | ⟨-, hother, hcrash⟩⟩
  · rw [hsame]
    exact h
  · rw [hfailed]
    exact attended_waitForConnection now _
  · rw [haccepted]
    exact ⟨(fun h => by cases h), fun _ => List.mem_cons_self⟩
  · rw [hcrash]
    refine ⟨fun hstate => ?_, h.2⟩
    obtain ⟨j, hj⟩ := List.mem_iff_getElem?.mp (h.1 hstate)
    refine List.mem_eraseIdx_iff_getElem?.mpr ⟨j, fun hji => hother ?_, hj⟩
    rw [hji] at hj
    exact Option.some.inj (htarget.symm.trans hj)

theorem attended_v4l2Update (h : Attended s) (e : Env) : Attended (s.v4l2Update e) := by
  rcases s.v4l2Update_cases e with ⟨-, hsame | ⟨v, -, -, hoff⟩ | hcrash⟩ |
    ⟨frame, v, w, -, -, -, -, -, -, hsend⟩
  · rw [hsame]
    exact h
  · rw [hoff]
    exact h.same rfl rfl rfl rfl
  · rw [hcrash]
    exact h.same rfl rfl rfl rfl
  · have hv : Attended { s with v4l2 := v } := h.same rfl rfl rfl rfl
    rw [hsend]
    exact (attended_send hv .jpeg frame e).same rfl rfl rfl rfl

theorem attended_receiveCommands (h : Attended s) (e : Env) : Attended (s.receiveCommands e) := by
  rcases s.receiveCommands_cases e with ⟨-, hnone⟩ | ⟨-, ⟨-, hfailed⟩ | ⟨bytes, -, hscript⟩⟩
  · rw [hnone]
    exact h.same rfl rfl rfl rfl
  · rw [hfailed]
    exact (attended_waitForConnection e.now s).same rfl rfl rfl rfl
  · rw [hscript]
    exact h.same rfl rfl rfl rfl

theorem attended_step (h : Attended s) (e : Env) : Attended (s.step e) := by
  cases hp : s.phase with
  | poll =>
      simp only [RpiServer.step, hp]
      split
      · exact attended_completeAccept h _ _ e.now
      · exact h.same rfl rfl rfl rfl
  | receive =>
      simp only [RpiServer.step, hp]
      exact attended_receiveCommands h e
  | script sock rest =>
      cases rest with
      | nil =>
          simp only [RpiServer.step, hp]
          exact h.same rfl rfl rfl rfl
      | cons c rest =>
          have hrest : Attended { s with phase := .script sock rest } := h.same rfl rfl rfl rfl
          simp only [RpiServer.step, hp]
          exact attended_call hrest sock c e
  | keepalive =>
      simp only [RpiServer.step, hp, RpiServer.sendKeepalive]
      split
      · exact (attended_send h .keepAlive keepAliveMessage e).same rfl rfl rfl rfl
      · exact h.same rfl rfl rfl rfl
  | video =>
      have hret : Attended { s with phase := .ret } := h.same rfl rfl rfl rfl
      simp only [RpiServer.step, hp]
      exact attended_v4l2Update hret e
  | ret =>
      simp only [RpiServer.step, hp]
      exact h.same rfl rfl rfl rfl
  | stopped | hung | crashed =>
      simp only [RpiServer.step, hp]
      exact h

/-- After `poll` the server is not about to exit. -/
theorem state_completeAccept (h : s.state ≠ .exit) (i : ℕ) (ok : Bool) (now : ℤ) :
    (s.completeAccept i ok now).state ≠ .exit := by
  rcases s.completeAccept_cases i ok now with
    ⟨-, hsame⟩ | ⟨target, -, ⟨-, hfailed⟩ | ⟨-, -, haccepted⟩ | ⟨-, -, hcrash⟩⟩
  · rw [hsame]
    exact h
  · rw [hfailed]
    exact fun h => by cases h
  · rw [haccepted]
    exact fun h => by cases h
  · rw [hcrash]
    exact h

/-! ### An update returns -/

/-- Between the updates, or at the end of the program. -/
def AtRest (p : Phase) : Prop := p = .poll ∨ Ended p

/-- Behind `receive_commands`, a step brings the end of the update nearer. -/
theorem left_step (s : RpiServer) (e : Env) (hreceive : s.phase ≠ .receive)
    (hrest : ¬ AtRest s.phase) :
    (s.step e).phase ≠ .receive ∧ left (s.step e).phase < left s.phase := by
  cases hp : s.phase with
  | poll => exact absurd (Or.inl hp) hrest
  | receive => exact absurd hp hreceive
  | script sock rest =>
      cases rest with
      | nil =>
          simp only [RpiServer.step, hp]
          exact ⟨(fun h => by cases h), Nat.lt_succ_self 3⟩
      | cons c rest =>
          simp only [RpiServer.step, hp]
          rcases RpiServer.call_phase sock c e { s with phase := .script sock rest }
            with ⟨-, h⟩ | ⟨-, h⟩ <;> rw [h]
          · exact ⟨(fun h => by cases h), Nat.lt_succ_self (rest.length + 4)⟩
          · exact ⟨(fun h => by cases h), Nat.succ_pos _⟩
  | keepalive =>
      simp only [RpiServer.step, hp]
      exact ⟨(fun h => by cases h), Nat.lt_succ_self 2⟩
  | video =>
      simp only [RpiServer.step, hp]
      rcases RpiServer.v4l2Update_phase e { s with phase := .ret } with h | h <;> rw [h]
      · exact ⟨(fun h => by cases h), Nat.lt_succ_self 1⟩
      · exact ⟨(fun h => by cases h), Nat.succ_pos 1⟩
  | ret =>
      simp only [RpiServer.step, hp, RpiServer.ret]
      split
      · exact ⟨(fun h => by cases h), Nat.lt_succ_self 0⟩
      · exact ⟨(fun h => by cases h), Nat.lt_succ_self 0⟩
  | stopped => exact absurd (Or.inr (Or.inl hp)) hrest
  | hung => exact absurd (Or.inr (Or.inr (Or.inl hp))) hrest
  | crashed => exact absurd (Or.inr (Or.inr (Or.inr hp))) hrest

/-- The first `n` steps of an unending run. -/
def after (s : RpiServer) (es : ℕ → Env) (n : ℕ) : RpiServer :=
  run RpiServer.step s ((List.range n).map es)

theorem after_succ (s : RpiServer) (es : ℕ → Env) (n : ℕ) :
    after s es (n + 1) = after (s.step (es 0)) (fun k => es (k + 1)) n := by
  rw [after, List.range_succ_eq_map, List.map_cons, run_cons, List.map_map]
  rfl

/-- Behind `receive_commands`, the update returns. -/
theorem exists_rest (es : ℕ → Env) (hreceive : s.phase ≠ .receive) :
    ∃ n, AtRest (after s es n).phase := by
  induction hleft : left s.phase using Nat.strong_induction_on generalizing s es with
  | _ m ih =>
      by_cases hrest : AtRest s.phase
      · exact ⟨0, hrest⟩
      · obtain ⟨hnot, hlt⟩ := left_step s (es 0) hreceive hrest
        obtain ⟨n, hn⟩ := ih _ (hleft ▸ hlt) (fun k => es (k + 1)) hnot rfl
        refine ⟨n + 1, ?_⟩
        rw [after_succ]
        exact hn

theorem receive_step (hp : s.phase = .receive) (e : Env) : (s.step e).phase ≠ .receive := by
  simp only [RpiServer.step, hp]
  rcases s.receiveCommands_cases e with ⟨-, h⟩ | ⟨-, ⟨-, h⟩ | ⟨bytes, -, h⟩⟩ <;> rw [h] <;>
    exact fun h => by cases h

/-- **From every state the server comes to rest**, if every step returns. -/
theorem comes_to_rest (s : RpiServer) (es : ℕ → Env) : ∃ n, AtRest (after s es n).phase := by
  by_cases hp : s.phase = .receive
  · obtain ⟨n, hn⟩ := exists_rest (fun k => es (k + 1)) (receive_step hp (es 0))
    refine ⟨n + 1, ?_⟩
    rw [after_succ]
    exact hn
  · exact exists_rest es hp

/-! ### Runs -/

/-- The peer is attended to, and an update does not begin after an exit. -/
structure Inv (s : RpiServer) : Prop where
  attended : Attended s
  goes : s.phase = .poll → s.state ≠ .exit

theorem inv_startup (gpioReady : Bool) (d : Device) (now later : ℤ) :
    Inv (RpiServer.startup gpioReady d now later) where
  attended := attended_waitForConnection later _
  goes := fun _ h => by cases h

/-- An update begins behind the end of the last one. -/
theorem poll_of_step {e : Env} (h : (s.step e).phase = .poll) :
    s.phase = .poll ∨ s.phase = .ret := by
  cases hp : s.phase with
  | poll => exact Or.inl rfl
  | ret => exact Or.inr rfl
  | receive =>
      simp only [RpiServer.step, hp] at h
      rcases s.receiveCommands_cases e with ⟨-, h'⟩ | ⟨-, ⟨-, h'⟩ | ⟨bytes, -, h'⟩⟩ <;>
        rw [h'] at h <;> cases h
  | script sock rest =>
      cases rest with
      | nil =>
          simp only [RpiServer.step, hp] at h
          cases h
      | cons c rest =>
          simp only [RpiServer.step, hp] at h
          rcases RpiServer.call_phase sock c e { s with phase := .script sock rest }
            with ⟨-, h'⟩ | ⟨-, h'⟩ <;> rw [h'] at h <;> cases h
  | keepalive =>
      simp only [RpiServer.step, hp] at h
      cases h
  | video =>
      simp only [RpiServer.step, hp] at h
      rcases RpiServer.v4l2Update_phase e { s with phase := .ret } with h' | h' <;>
        rw [h'] at h <;> cases h
  | stopped | hung | crashed =>
      simp only [RpiServer.step, hp] at h
      cases h

theorem step_inv (s : RpiServer) (e : Env) (h : Inv s) : Inv (s.step e) where
  attended := attended_step h.attended e
  goes := by
    intro hpoll
    rcases poll_of_step hpoll with hp | hp
    · simp only [RpiServer.step, hp] at hpoll ⊢
      split at hpoll
      · exact state_completeAccept (h.goes hp) _ _ e.now
      · exact h.goes hp
    · simp only [RpiServer.step, hp, RpiServer.ret] at hpoll ⊢
      intro hexit
      rw [if_pos hexit] at hpoll
      cases hpoll

/-- The server has a client, or an accept into the peer socket is pending, and the next connection
that completes it is the client. -/
def Serves (s : RpiServer) : Prop :=
  (s.state = .connected ∧ s.sockPeer ∈ s.opened) ∨
    (s.state = .disconnected ∧ ∃ i, s.pending[i]? = some s.sockPeer ∧
      ∀ e : Env, e.accept = some (i, true) →
        (s.step e).state = .connected ∧ (s.step e).sockPeer = s.sockPeer ∧
          (s.step e).sockPeer ∈ (s.step e).opened)

theorem Inv.serves (h : Inv s) (hp : s.phase = .poll) : Serves s := by
  cases hstate : s.state with
  | exit => exact absurd hstate (h.goes hp)
  | connected => exact Or.inl ⟨hstate, h.attended.2 hstate⟩
  | disconnected =>
      obtain ⟨i, hi⟩ := List.mem_iff_getElem?.mp (h.attended.1 hstate)
      refine Or.inr ⟨hstate, i, hi, fun e haccept => ?_⟩
      rcases s.completeAccept_cases i true e.now with
        ⟨hnone, -⟩ | ⟨target, htarget, ⟨hfalse, -⟩ | ⟨-, -, haccepted⟩ | ⟨-, hother, -⟩⟩
      · cases hi.symm.trans hnone
      · cases hfalse
      · simp only [RpiServer.step, hp, haccept, haccepted]
        exact ⟨trivial, trivial, List.mem_cons_self⟩
      · exact absurd (Option.some.inj (htarget.symm.trans hi)) hother

/-! ### Calls that do not return -/

/-- What becomes of a step: all that it calls returns, or something never does.  This is a script
that does not end, with calls or without, or a send, a receive or a device call that blocks. -/
inductive Outcome
  | returns (e : Env)
  | blocks

/-- The server, or the server in a call that does not return. -/
inductive Program
  | running (s : RpiServer)
  | blocked

def Program.step : Program → Outcome → Program
  | .running s, .returns e => .running (s.step e)
  | _, _ => .blocked

theorem run_returns (s : RpiServer) (es : List Env) :
    run Program.step (.running s) (es.map .returns) = .running (run RpiServer.step s es) := by
  induction es generalizing s with
  | nil => rfl
  | cons e es ih => exact ih (s.step e)

/-- **The server goes on.**  From every state that a run reaches, whatever the run goes on with, and
provided that scripts end and that the sends, receives and device calls return, the server comes
after at least one and finitely many steps to the beginning of an update, where it has a client or
an accept for the next one, unless the program has come to an end. -/
theorem goes_on (gpioReady : Bool) (d : Device) (now later : ℤ) (past : List Env)
    (future : ℕ → Outcome) (hreturns : ∀ n, future n ≠ .blocks) :
    ∃ n, 0 < n ∧ ∃ t,
      run Program.step
          (.running (run RpiServer.step (RpiServer.startup gpioReady d now later) past))
          ((List.range n).map future) = .running t ∧
        (Ended t.phase ∨ (t.phase = .poll ∧ Serves t)) := by
  generalize hs : run RpiServer.step (RpiServer.startup gpioReady d now later) past = s
  have hinv : Inv s := by
    rw [← hs]
    exact (always_of_step step_inv (inv_startup gpioReady d now later)).last
  have hexists : ∀ n, ∃ e, future n = .returns e := by
    intro n
    cases h : future n with
    | returns e => exact ⟨e, rfl⟩
    | blocks => exact absurd h (hreturns n)
  choose es hes using hexists
  obtain ⟨n, hrest⟩ := comes_to_rest (s.step (es 0)) (fun k => es (k + 1))
  rw [← after_succ] at hrest
  have hlast : Inv (after s es (n + 1)) := (always_of_step step_inv hinv).last
  refine ⟨n + 1, Nat.succ_pos n, after s es (n + 1), ?_, ?_⟩
  · have houtcomes : (List.range (n + 1)).map future =
        ((List.range (n + 1)).map es).map .returns := by
      rw [List.map_map]
      exact List.map_congr_left fun k _ => hes k
    rw [houtcomes, run_returns]
    rfl
  · rcases hrest with hpoll | hended
    · exact Or.inr ⟨hpoll, hlast.serves hpoll⟩
    · exact Or.inl hended

/-- A server to which nobody connects comes round. -/
theorem goes_on_idle :
    ∃ n, 0 < n ∧ ∃ t,
      run Program.step (.running (RpiServer.startup true .absent 0 0))
          ((List.range n).map fun _ => .returns .idle) = .running t ∧
        (Ended t.phase ∨ (t.phase = .poll ∧ Serves t)) :=
  goes_on true .absent 0 0 [] (fun _ => .returns .idle) (fun _ h => by cases h)

end MKart.Server.Availability
