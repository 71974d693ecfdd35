import Mathlib.Data.List.Nodup
import MKart.Server.RpiServer

/-!
# What a step does to the log and to the peer

The steps of the server only append to its log, and what they append is a function of the state
and the environment (`events`): `step_log` is the one place where the operations are opened for
it.  Every statement about what is sent, on which socket and from where goes through `events`.
In the same way `step_peer` says once what a step does to the peer socket: it gives the peer up
for a new one, or keeps it.
-/

namespace MKart.Server.RpiServer

/-- The event of sending `buf` on the peer socket. -/
def sentEvent (kind : Kind) (buf : List UInt8) (e : Env) (s : RpiServer) : Event :=
  .sent s.sockPeer kind buf ((s.sockSend e buf).getD 0)

/-- The events of a call that a script received on `sock` makes. -/
def callEvents (sock : ℕ) (c : ScriptCall) (e : Env) (s : RpiServer) : List Event :=
  .called sock c ::
    match c with
    | .gpioGet_0_31 =>
        if s.gpioReady then [s.sentEvent .gpio (gpioMessage 1 e.gpioRead) e] else []
    | .gpioGet_32_53 =>
        if s.gpioReady then [s.sentEvent .gpio (gpioMessage 2 e.gpioRead) e] else []
    | _ => []

/-- The events of a step. -/
def events (s : RpiServer) (e : Env) : List Event :=
  match s.phase with
  | .poll =>
      match e.accept with
      | some (i, true) => if s.pending[i]? = some s.sockPeer then [.accepted s.sockPeer] else []
      | _ => []
  | .script sock (c :: _) => s.callEvents sock c e
  | .keepalive =>
      if s.keepaliveDue e.now then [s.sentEvent .keepAlive keepAliveMessage e] else []
  | .video => (s.capturedFrame e).toList.map fun frame => s.sentEvent .jpeg frame e
  | _ => []

def isSent (kind : Kind) : Event → Bool
  | .sent _ k _ _ => k == kind
  | _ => false

/-- The step sends a message of the kind. -/
def sends (kind : Kind) (s : RpiServer) (e : Env) : Bool := (s.events e).any (isSent kind)

/-- The messages of a kind of which something went out on `sock`. -/
def transmitted (sock : ℕ) (kind : Kind) (log : List Event) : List (List UInt8) :=
  log.filterMap fun
    | .sent s k frame n => if s = sock ∧ k = kind ∧ 0 < n then some frame else none
    | _ => none

variable {s : RpiServer} {e : Env}

theorem send_log (kind : Kind) (buf : List UInt8) (e : Env) (s : RpiServer) :
    (s.send kind buf e).1.log = s.log ++ [s.sentEvent kind buf e] := by
  unfold send sentEvent
  cases s.sockSend e buf with
  | none => rfl
  | some n => rfl

theorem call_log (sock : ℕ) (c : ScriptCall) (e : Env) (s : RpiServer) :
    (s.call sock c e).log = s.log ++ s.callEvents sock c e := by
  have hsent (buf : List UInt8) :
      (send .gpio buf e { s with log := s.log ++ [.called sock c] }).1.log =
        s.log ++ [.called sock c, s.sentEvent .gpio buf e] :=
    (send_log _ _ _ _).trans (List.append_assoc _ _ _)
  rcases s.call_cases sock c e with ⟨hreg, h⟩ | ⟨-, ⟨rfl, h⟩ | ⟨enabled, rfl, h⟩ |
    ⟨bank, ⟨rfl, rfl⟩ | ⟨rfl, rfl⟩, hready, h⟩ | ⟨-, -, hlow, hhigh, h⟩⟩
  · rw [h]
    cases c with
    | gpioGet_0_31 | gpioGet_32_53 =>
        have hready : s.gpioReady = false := hreg
        simp [handleDuktapFatal, exit, callEvents, hready]
    | _ => rfl
  · rw [h]
    rfl
  · rw [h]
    rfl
  · rw [h, hsent, callEvents, if_pos hready]
  · rw [h, hsent, callEvents, if_pos hready]
  · rw [h]
    cases c with
    | gpioGet_0_31 => exact absurd rfl hlow
    | gpioGet_32_53 => exact absurd rfl hhigh
    | _ => rfl

theorem completeAccept_log (i : ℕ) (ok : Bool) (now : ℤ) (s : RpiServer) :
    (s.completeAccept i ok now).log =
      s.log ++ if ok = true ∧ s.pending[i]? = some s.sockPeer then [.accepted s.sockPeer]
        else [] := by
  rcases s.completeAccept_cases i ok now with
    ⟨hnone, h⟩ | ⟨target, hsome, ⟨hok, h⟩ | ⟨hok, hpeer, h⟩ | ⟨hok, hpeer, h⟩⟩ <;> rw [h]
  · simp [hnone]
  · simp [hok, waitForConnection]
  · simp [hok, hsome, hpeer]
  · simp [hok, hsome, hpeer]

theorem v4l2Update_log (e : Env) (s : RpiServer) :
    (s.v4l2Update e).log =
      s.log ++ (s.capturedFrame e).toList.map fun frame => s.sentEvent .jpeg frame e := by
  rcases s.v4l2Update_cases e with ⟨hnone, hsame | ⟨v, -, -, hoff⟩ | hcrash⟩ |
    ⟨frame, v, w, hsome, -, -, -, -, -, hsend⟩
  · rw [hnone, hsame]
    simp
  · rw [hnone, hoff]
    simp
  · rw [hnone, hcrash]
    simp
  · rw [hsome, hsend]
    exact send_log .jpeg frame e { s with v4l2 := v }

/-- **What a step adds to the log.** -/
theorem step_log (s : RpiServer) (e : Env) : (s.step e).log = s.log ++ s.events e := by
  cases hp : s.phase with
  | poll =>
      simp only [step, events, hp]
      rcases e.accept with _ | ⟨i, ok⟩
      · exact (List.append_nil _).symm
      · cases ok with
        | false =>
            show (s.completeAccept i false e.now).log = _
            rw [completeAccept_log]
            simp
        | true =>
            show (s.completeAccept i true e.now).log = _
            rw [completeAccept_log]
            simp
  | receive =>
      simp only [step, events, hp]
      rcases s.receiveCommands_cases e with ⟨-, h⟩ | ⟨-, ⟨-, h⟩ | ⟨bytes, -, h⟩⟩ <;> rw [h] <;>
        exact (List.append_nil _).symm
  | script sock rest =>
      cases rest with
      | nil =>
          simp only [step, events, hp]
          exact (List.append_nil _).symm
      | cons c rest =>
          simp only [step, events, hp]
          exact call_log sock c e { s with phase := .script sock rest }
  | keepalive =>
      simp only [step, events, hp, sendKeepalive]
      split
      · exact send_log .keepAlive keepAliveMessage e s
      · exact (List.append_nil _).symm
  | video =>
      simp only [step, events, hp]
      exact v4l2Update_log e { s with phase := .ret }
  | ret | stopped | hung | crashed =>
      simp only [step, events, hp]
      exact (List.append_nil _).symm

/-- The events of a call that reads a bank. -/
theorem events_of_reading {sock : ℕ} {c : ScriptCall} {rest : List ScriptCall} {bank : UInt32}
    (hc : c = .gpioGet_0_31 ∧ bank = 1 ∨ c = .gpioGet_32_53 ∧ bank = 2)
    (hp : s.phase = .script sock (c :: rest)) :
    s.events e = .called sock c ::
      if s.gpioReady then [s.sentEvent .gpio (gpioMessage bank e.gpioRead) e] else [] := by
  rcases hc with ⟨rfl, rfl⟩ | ⟨rfl, rfl⟩
  · simp only [events, hp, callEvents]
  · simp only [events, hp, callEvents]

/-- A send in a step is made on the peer socket, and each kind in its own phase. -/
theorem of_sent_mem_events {sock n : ℕ} {kind : Kind} {buf : List UInt8}
    (h : .sent sock kind buf n ∈ s.events e) :
    .sent sock kind buf n = s.sentEvent kind buf e ∧
      match kind with
      | .keepAlive => s.phase = .keepalive ∧ s.keepaliveDue e.now = true ∧ buf = keepAliveMessage
      | .gpio => ∃ k bank rest, buf = gpioMessage bank e.gpioRead ∧ s.gpioReady = true ∧
          (s.phase = .script k (.gpioGet_0_31 :: rest) ∧ bank = 1 ∨
            s.phase = .script k (.gpioGet_32_53 :: rest) ∧ bank = 2)
      | .jpeg => s.phase = .video ∧ s.capturedFrame e = some buf := by
  cases hp : s.phase with
  | poll =>
      simp only [events, hp] at h
      split at h
      · split at h
        · cases List.mem_singleton.mp h
        · exact absurd h List.not_mem_nil
      · exact absurd h List.not_mem_nil
  | script k rest =>
      cases rest with
      | nil =>
          simp only [events, hp] at h
          exact absurd h List.not_mem_nil
      | cons c rest =>
          simp only [events, hp, callEvents] at h
          rcases List.mem_cons.mp h with h | h
          · cases h
          · cases c with
            | gpioGet_0_31 =>
                simp only [] at h
                split at h
                · rename_i hready
                  have hev := List.mem_singleton.mp h
                  obtain ⟨rfl, rfl, rfl, -⟩ := Event.sent.inj hev
                  exact ⟨hev, k, 1, rest, rfl, hready, Or.inl ⟨rfl, rfl⟩⟩
                · exact absurd h List.not_mem_nil
            | gpioGet_32_53 =>
                simp only [] at h
                split at h
                · rename_i hready
                  have hev := List.mem_singleton.mp h
                  obtain ⟨rfl, rfl, rfl, -⟩ := Event.sent.inj hev
                  exact ⟨hev, k, 2, rest, rfl, hready, Or.inr ⟨rfl, rfl⟩⟩
                · exact absurd h List.not_mem_nil
            | _ => exact absurd h List.not_mem_nil
  | keepalive =>
      simp only [events, hp] at h
      split at h
      · rename_i hdue
        have hev := List.mem_singleton.mp h
        obtain ⟨rfl, rfl, rfl, -⟩ := Event.sent.inj hev
        exact ⟨hev, rfl, hdue, rfl⟩
      · exact absurd h List.not_mem_nil
  | video =>
      simp only [events, hp] at h
      obtain ⟨frame, hframe, hev⟩ := List.mem_map.mp h
      obtain ⟨rfl, rfl, rfl, -⟩ := Event.sent.inj hev
      exact ⟨hev.symm, rfl, Option.mem_toList.mp hframe⟩
  | receive | ret | stopped | hung | crashed =>
      simp only [events, hp] at h
      exact absurd h List.not_mem_nil

/-- Nothing is transmitted exactly if the peer is not accepted or the send fails. -/
theorem sockSend_eq_zero (buf : List UInt8) (e : Env) (s : RpiServer) :
    (s.sockSend e buf).getD 0 = 0 ↔ s.sockPeer ∉ s.opened ∨ e.send = none := by
  by_cases hopen : s.sockPeer ∈ s.opened
  · cases hsend : e.send with
    | none => simp [sockSend, hsend]
    | some m => simp [sockSend, hsend, hopen]
  · simp [sockSend, hopen]

theorem bytes_of_sent {sock n : ℕ} {kind : Kind} {buf : List UInt8}
    (h : .sent sock kind buf n ∈ s.events e) :
    n = 0 ↔ s.sockPeer ∉ s.opened ∨ e.send = none := by
  obtain ⟨-, -, -, rfl⟩ := Event.sent.inj (of_sent_mem_events h).1
  exact sockSend_eq_zero buf e s

theorem exists_of_sends {kind : Kind} (h : sends kind s e = true) :
    ∃ sock buf n, .sent sock kind buf n ∈ s.events e := by
  obtain ⟨ev, hev, hsent⟩ := List.any_eq_true.mp h
  cases ev with
  | sent sock k buf n =>
      obtain rfl : k = kind := by simpa [isSent] using hsent
      exact ⟨sock, buf, n, hev⟩
  | _ => cases hsent

theorem phase_of_sends {kind : Kind} (h : sends kind s e = true) :
    match kind with
    | .keepAlive => s.phase = .keepalive ∧ s.keepaliveDue e.now = true
    | .gpio => ∃ k rest, s.phase = .script k rest
    | .jpeg => s.phase = .video ∧ (s.capturedFrame e).isSome = true := by
  obtain ⟨sock, buf, n, hmem⟩ := exists_of_sends h
  have hkind := (of_sent_mem_events hmem).2
  cases kind with
  | keepAlive => exact ⟨hkind.1, hkind.2.1⟩
  | gpio =>
      obtain ⟨k, bank, rest, -, -, ⟨hp, -⟩ | ⟨hp, -⟩⟩ := hkind
      · exact ⟨k, _, hp⟩
      · exact ⟨k, _, hp⟩
  | jpeg => exact ⟨hkind.1, Option.isSome_of_mem hkind.2⟩

theorem transmitted_append (sock : ℕ) (kind : Kind) (log log' : List Event) :
    transmitted sock kind (log ++ log') =
      transmitted sock kind log ++ transmitted sock kind log' := List.filterMap_append

theorem transmitted_of_not_sends {sock : ℕ} {kind : Kind} (h : sends kind s e = false) :
    transmitted sock kind (s.events e) = [] := by
  apply List.filterMap_eq_nil_iff.mpr
  intro ev hev
  have hnot : isSent kind ev = false := by
    by_contra hsent
    have hany : sends kind s e = true := List.any_eq_true.mpr ⟨ev, hev, eq_true_of_ne_false hsent⟩
    exact absurd (hany.symm.trans h) (by decide)
  cases ev with
  | sent k kind' buf n =>
      have hne : kind' ≠ kind := by simpa [isSent] using hnot
      simp [hne]
  | _ => rfl

/-! ### The peer -/

/-- The peer is given up: its place is taken by a new socket, for which an accept is posted. -/
def GivesUp (s t : RpiServer) : Prop :=
  t.nextSock = s.nextSock + 1 ∧ t.sockPeer = s.nextSock ∧ t.opened = s.opened ∧
    t.state = .disconnected ∧ ∃ rest, rest.Sublist s.pending ∧ t.pending = rest ++ [s.nextSock]

/-- In `poll` the accept into the peer socket completes. -/
def Accepts (s t : RpiServer) : Prop :=
  s.phase = .poll ∧ t.opened = s.sockPeer :: s.opened ∧
    ∃ i, s.pending[i]? = some s.sockPeer ∧ t.pending = s.pending.eraseIdx i

/-- The peer stays: only a socket that is not the peer may cease to be pending. -/
def Keeps (s t : RpiServer) : Prop :=
  t.nextSock = s.nextSock ∧ t.sockPeer = s.sockPeer ∧
    ((t.opened = s.opened ∧ t.pending.Sublist s.pending) ∨ Accepts s t)

/-- The peer is given up, and the wait begins at a time just read, or nothing happens to it. -/
def PeerStep (s : RpiServer) (e : Env) (t : RpiServer) : Prop :=
  (GivesUp s t ∧ (t.lastTime = e.now ∨ t.lastTime = e.later)) ∨
    (Keeps s t ∧ t.lastTime = s.lastTime)

theorem Keeps.refl (s : RpiServer) : Keeps s s :=
  ⟨rfl, rfl, Or.inl ⟨rfl, List.Sublist.refl _⟩⟩

theorem givesUp_waitForConnection (now : ℤ) (s : RpiServer) :
    GivesUp s (s.waitForConnection now) :=
  ⟨rfl, rfl, rfl, rfl, s.pending, List.Sublist.refl _, rfl⟩

theorem peerStep_send (kind : Kind) (buf : List UInt8) (e : Env) (s : RpiServer) :
    PeerStep s e (s.send kind buf e).1 := by
  rcases send_cases kind buf e s with ⟨n, -, -, -, hsend⟩ | ⟨-, hsend⟩ <;> rw [hsend]
  · exact Or.inr ⟨Keeps.refl s, rfl⟩
  · exact Or.inl ⟨givesUp_waitForConnection e.later s, Or.inr rfl⟩

theorem peerStep_completeAccept (i : ℕ) (ok : Bool) (hp : s.phase = .poll) :
    PeerStep s e (s.completeAccept i ok e.now) := by
  have hrest : (s.pending.eraseIdx i).Sublist s.pending := List.eraseIdx_sublist _ _
  rcases s.completeAccept_cases i ok e.now with
    ⟨-, h⟩ | ⟨target, hi, ⟨-, h⟩ | ⟨-, rfl, h⟩ | ⟨-, -, h⟩⟩ <;> rw [h]
  · exact Or.inr ⟨Keeps.refl s, rfl⟩
  · exact Or.inl ⟨⟨rfl, rfl, rfl, rfl, _, hrest, rfl⟩, Or.inl rfl⟩
  · exact Or.inr ⟨⟨rfl, rfl, Or.inr ⟨hp, rfl, i, hi, rfl⟩⟩, rfl⟩
  · exact Or.inr ⟨⟨rfl, rfl, Or.inl ⟨rfl, hrest⟩⟩, rfl⟩

theorem peerStep_call (sock : ℕ) (c : ScriptCall) (e : Env) (s : RpiServer) :
    PeerStep s e (s.call sock c e) := by
  rcases s.call_cases sock c e with ⟨-, h⟩ | ⟨-, ⟨-, h⟩ | ⟨enabled, -, h⟩ |
    ⟨bank, -, -, h⟩ | ⟨-, -, -, -, h⟩⟩ <;> rw [h]
  · exact Or.inr ⟨Keeps.refl s, rfl⟩
  · exact Or.inr ⟨Keeps.refl s, rfl⟩
  · exact Or.inr ⟨Keeps.refl s, rfl⟩
  · exact peerStep_send _ _ e { s with log := s.log ++ [.called sock c] }
  · exact Or.inr ⟨Keeps.refl s, rfl⟩

theorem peerStep_v4l2Update (e : Env) (s : RpiServer) : PeerStep s e (s.v4l2Update e) := by
  rcases s.v4l2Update_cases e with ⟨-, hsame | ⟨v, -, -, hoff⟩ | hcrash⟩ |
    ⟨frame, v, w, -, -, -, -, -, -, hsend⟩
  · rw [hsame]
    exact Or.inr ⟨Keeps.refl s, rfl⟩
  · rw [hoff]
    exact Or.inr ⟨Keeps.refl s, rfl⟩
  · rw [hcrash]
    exact Or.inr ⟨Keeps.refl s, rfl⟩
  · rw [hsend]
    exact peerStep_send .jpeg frame e { s with v4l2 := v }

/-- A `PeerStep` from a state that differs in its phase and its log only, but for an accept. -/
theorem PeerStep.of_phase {p : Phase} {t : RpiServer} (hp : p ≠ .poll)
    (h : PeerStep { s with phase := p } e t) : PeerStep s e t := by
  rcases h with ⟨⟨hnext, hpeer, hopened, hpending⟩, htime⟩ |
    ⟨⟨hnext, hpeer, hopened | ⟨hpoll, -⟩⟩, htime⟩
  · exact Or.inl ⟨⟨hnext, hpeer, hopened, hpending⟩, htime⟩
  · exact Or.inr ⟨⟨hnext, hpeer, Or.inl hopened⟩, htime⟩
  · exact absurd hpoll hp

/-- **What a step does to the peer and to `m_last_time`.**  A keep-alive is the one case in which
the time is not that of the wait. -/
theorem step_peer (s : RpiServer) (e : Env) :
    (sends .keepAlive s e = false ∧ PeerStep s e (s.step e)) ∨
      (sends .keepAlive s e = true ∧ (s.step e).lastTime = e.now ∧
        (GivesUp s (s.step e) ∨ Keeps s (s.step e))) := by
  by_cases hsends : sends .keepAlive s e = true
  · obtain ⟨hp, hdue⟩ := phase_of_sends hsends
    refine Or.inr ⟨hsends, ?_⟩
    simp only [step, hp, sendKeepalive, if_pos hdue]
    refine ⟨trivial, ?_⟩
    rcases peerStep_send .keepAlive keepAliveMessage e s with ⟨hgiven, -⟩ | ⟨hkept, -⟩
    · exact Or.inl hgiven
    · exact Or.inr hkept
  · refine Or.inl ⟨eq_false_of_ne_true hsends, ?_⟩
    cases hp : s.phase with
    | poll =>
        simp only [step, hp]
        split
        · exact peerStep_completeAccept _ _ hp
        · exact Or.inr ⟨Keeps.refl s, rfl⟩
    | receive =>
        simp only [step, hp]
        rcases s.receiveCommands_cases e with ⟨-, h⟩ | ⟨-, ⟨-, h⟩ | ⟨bytes, -, h⟩⟩ <;> rw [h]
        · exact Or.inr ⟨Keeps.refl s, rfl⟩
        · exact Or.inl ⟨givesUp_waitForConnection e.now s, Or.inl rfl⟩
        · exact Or.inr ⟨Keeps.refl s, rfl⟩
    | script sock rest =>
        cases rest with
        | nil =>
            simp only [step, hp]
            exact Or.inr ⟨Keeps.refl s, rfl⟩
        | cons c rest =>
            simp only [step, hp]
            exact (peerStep_call sock c e { s with phase := .script sock rest }).of_phase
              (fun h => by cases h)
    | keepalive =>
        have hdue : s.keepaliveDue e.now = false := by
          by_contra hdue
          apply hsends
          simp [sends, events, hp, eq_true_of_ne_false hdue, sentEvent, isSent]
        simp only [step, hp, sendKeepalive, hdue, Bool.false_eq_true, if_false]
        exact Or.inr ⟨Keeps.refl s, rfl⟩
    | video =>
        simp only [step, hp]
        exact (peerStep_v4l2Update e { s with phase := .ret }).of_phase (fun h => by cases h)
    | ret | stopped | hung | crashed =>
        simp only [step, hp]
        exact Or.inr ⟨Keeps.refl s, rfl⟩

theorem peer_cases (s : RpiServer) (e : Env) : GivesUp s (s.step e) ∨ Keeps s (s.step e) := by
  rcases step_peer s e with ⟨-, ⟨hgiven, -⟩ | ⟨hkept, -⟩⟩ | ⟨-, -, hcases⟩
  · exact Or.inl hgiven
  · exact Or.inr hkept
  · exact hcases

theorem sockPeer_of_send_failed (kind : Kind) (buf : List UInt8) (s : RpiServer)
    (hfails : s.sockPeer ∉ s.opened ∨ e.send = none) :
    (s.send kind buf e).1.sockPeer = s.nextSock := by
  rcases send_cases kind buf e s with ⟨n, hopen, hsend, -, -⟩ | ⟨-, h⟩
  · rcases hfails with hclosed | hnone
    · exact absurd hopen hclosed
    · exact absurd hnone hsend
  · rw [h]
    rfl

/-- A send that fails gives the peer up. -/
theorem sockPeer_of_sent_failed {sock : ℕ} {kind : Kind} {buf : List UInt8}
    (h : .sent sock kind buf 0 ∈ s.events e) :
    sock = s.sockPeer ∧ (s.step e).sockPeer = s.nextSock := by
  obtain ⟨hsent, hkind⟩ := of_sent_mem_events h
  have hfails := (bytes_of_sent h).mp rfl
  refine ⟨(Event.sent.inj hsent).1, ?_⟩
  cases kind with
  | keepAlive =>
      obtain ⟨hp, hdue, -⟩ := hkind
      simp only [step, hp, sendKeepalive, if_pos hdue]
      exact sockPeer_of_send_failed _ _ s hfails
  | gpio =>
      obtain ⟨k, bank, rest, -, hready, hcase⟩ := hkind
      obtain ⟨c, hp, hc⟩ : ∃ c, s.phase = .script k (c :: rest) ∧
          (c = .gpioGet_0_31 ∧ bank = 1 ∨ c = .gpioGet_32_53 ∧ bank = 2) := by
        rcases hcase with ⟨hp, hbank⟩ | ⟨hp, hbank⟩
        · exact ⟨_, hp, Or.inl ⟨rfl, hbank⟩⟩
        · exact ⟨_, hp, Or.inr ⟨rfl, hbank⟩⟩
      simp only [step, hp]
      rw [call_of_reading (s := { s with phase := .script k rest }) hc hready]
      exact sockPeer_of_send_failed _ _
        { s with phase := .script k rest, log := s.log ++ [.called k c] } hfails
  | jpeg =>
      obtain ⟨hp, hframe⟩ := hkind
      simp only [step, hp]
      rcases v4l2Update_cases e { s with phase := .ret } with
        ⟨hnone, -⟩ | ⟨frame, v, w, -, -, -, -, -, -, hstep⟩
      · cases (hframe.symm.trans hnone)
      · rw [hstep]
        exact sockPeer_of_send_failed _ _ { s with phase := .ret, v4l2 := v } hfails

/-- Sockets are numbered in the order of their creation, and each is accepted once. -/
structure Numbered (s : RpiServer) : Prop where
  peer : s.sockPeer < s.nextSock
  opened : ∀ sock ∈ s.opened, sock < s.nextSock
  pending : ∀ sock ∈ s.pending, sock < s.nextSock ∧ sock ∉ s.opened
  nodup : s.pending.Nodup

theorem numbered_startup (gpioReady : Bool) (d : Device) (now later : ℤ) :
    Numbered (startup gpioReady d now later) where
  peer := Nat.lt_succ_self 1
  opened := fun _ h => absurd h List.not_mem_nil
  pending := fun sock h => by
    obtain rfl : sock = 1 := List.mem_singleton.mp h
    exact ⟨Nat.lt_succ_self 1, List.not_mem_nil⟩
  nodup := List.pairwise_singleton _ 1

theorem Numbered.givesUp {t : RpiServer} (h : Numbered s) (hgiven : GivesUp s t) : Numbered t := by
  obtain ⟨hnext, hpeer, hopened, -, rest, hrest, hpending⟩ := hgiven
  have hlt : ∀ sock ∈ rest, sock < s.nextSock ∧ sock ∉ s.opened :=
    fun sock hsock => h.pending sock (hrest.subset hsock)
  refine ⟨?_, fun sock hsock => ?_, fun sock hsock => ?_, ?_⟩
  · rw [hnext, hpeer]
    exact Nat.lt_succ_self _
  · rw [hopened] at hsock
    rw [hnext]
    exact Nat.lt_succ_of_lt (h.opened sock hsock)
  · rw [hpending] at hsock
    rw [hnext, hopened]
    rcases List.mem_append.mp hsock with hold | hnew
    · exact ⟨Nat.lt_succ_of_lt (hlt sock hold).1, (hlt sock hold).2⟩
    · obtain rfl := List.mem_singleton.mp hnew
      exact ⟨Nat.lt_succ_self _, fun hmem => lt_irrefl _ (h.opened _ hmem)⟩
  · rw [hpending]
    refine List.nodup_append.mpr ⟨h.nodup.sublist hrest, List.pairwise_singleton _ _, ?_⟩
    intro a ha b hb
    rw [List.mem_singleton.mp hb]
    exact Nat.ne_of_lt (hlt a ha).1

theorem Numbered.keeps {t : RpiServer} (h : Numbered s) (hkept : Keeps s t) : Numbered t := by
  obtain ⟨hnext, hpeer, ⟨hopened, hpending⟩ | ⟨-, hopened, i, hi, hpending⟩⟩ := hkept
  · refine ⟨by rw [hnext, hpeer]; exact h.peer, fun sock hsock => ?_, fun sock hsock => ?_,
      h.nodup.sublist hpending⟩
    · rw [hopened] at hsock
      rw [hnext]
      exact h.opened sock hsock
    · rw [hnext, hopened]
      exact h.pending sock (hpending.subset hsock)
  · refine ⟨by rw [hnext, hpeer]; exact h.peer, fun sock hsock => ?_, fun sock hsock => ?_, ?_⟩
    · rw [hopened] at hsock
      rw [hnext]
      rcases List.mem_cons.mp hsock with rfl | hold
      · exact h.peer
      · exact h.opened sock hold
    · -- the accepted socket is no longer pending
      rw [hpending] at hsock
      rw [hnext, hopened]
      obtain ⟨hlt, hclosed⟩ := h.pending sock (List.mem_of_mem_eraseIdx hsock)
      refine ⟨hlt, fun hmem => ?_⟩
      rcases List.mem_cons.mp hmem with rfl | hold
      · obtain ⟨hi', hget⟩ := List.getElem?_eq_some_iff.mp hi
        obtain ⟨j, hj, hne, hj'⟩ := List.mem_eraseIdx_iff_getElem.mp hsock
        exact hne ((List.Nodup.getElem_inj_iff h.nodup).mp (hj'.trans hget.symm))
      · exact hclosed hold
    · rw [hpending]
      exact h.nodup.sublist (List.eraseIdx_sublist _ _)

theorem numbered_step (h : Numbered s) (e : Env) : Numbered (s.step e) := by
  rcases s.peer_cases e with hgiven | hkept
  · exact h.givesUp hgiven
  · exact h.keeps hkept

/-! ### Accepts and scripts -/

theorem phase_of_accepted {sock : ℕ} (h : .accepted sock ∈ s.events e) : s.phase = .poll := by
  by_contra hp
  unfold events at h
  split at h
  · exact hp ‹_›
  · rcases List.mem_cons.mp h with hev | hreply
    · cases hev
    · split at hreply
      · split at hreply
        · cases List.mem_singleton.mp hreply
        · exact absurd hreply List.not_mem_nil
      · split at hreply
        · cases List.mem_singleton.mp hreply
        · exact absurd hreply List.not_mem_nil
      · exact absurd hreply List.not_mem_nil
  · split at h
    · cases List.mem_singleton.mp h
    · exact absurd h List.not_mem_nil
  · obtain ⟨frame, -, hev⟩ := List.mem_map.mp h
    cases hev
  · exact absurd h List.not_mem_nil

/-- A call is that of the script the server is in. -/
theorem of_called_mem_events {sock : ℕ} {c : ScriptCall} (h : .called sock c ∈ s.events e) :
    ∃ rest, s.phase = .script sock (c :: rest) := by
  cases hp : s.phase with
  | poll =>
      simp only [events, hp] at h
      split at h
      · split at h
        · cases List.mem_singleton.mp h
        · exact absurd h List.not_mem_nil
      · exact absurd h List.not_mem_nil
  | script k rest =>
      cases rest with
      | nil =>
          simp only [events, hp] at h
          exact absurd h List.not_mem_nil
      | cons c' rest =>
          simp only [events, hp, callEvents] at h
          rcases List.mem_cons.mp h with hcall | hreply
          · obtain ⟨rfl, rfl⟩ := Event.called.inj hcall
            exact ⟨rest, rfl⟩
          · split at hreply
            · split at hreply
              · cases List.mem_singleton.mp hreply
              · exact absurd hreply List.not_mem_nil
            · split at hreply
              · cases List.mem_singleton.mp hreply
              · exact absurd hreply List.not_mem_nil
            · exact absurd hreply List.not_mem_nil
  | keepalive =>
      simp only [events, hp] at h
      split at h
      · cases List.mem_singleton.mp h
      · exact absurd h List.not_mem_nil
  | video =>
      simp only [events, hp] at h
      obtain ⟨frame, -, hev⟩ := List.mem_map.mp h
      cases hev
  | receive | ret | stopped | hung | crashed =>
      simp only [events, hp] at h
      exact absurd h List.not_mem_nil

/-- A script goes on from a script, and begins with a receive on an accepted peer. -/
theorem script_of_step {sock : ℕ} {rest : List ScriptCall}
    (h : (s.step e).phase = .script sock rest) :
    (∃ c, s.phase = .script sock (c :: rest)) ∨
      (s.phase = .receive ∧ s.sockPeer = sock ∧ s.sockPeer ∈ s.opened) := by
  cases hp : s.phase with
  | poll =>
      simp only [step, hp] at h
      cases hacc : e.accept with
      | none =>
          simp only [hacc] at h
          split at h <;> cases h
      | some a =>
          simp only [hacc] at h
          rcases s.completeAccept_phase a.1 a.2 e.now with hsame | hcrash
          · cases ((hp.symm.trans hsame.symm).trans h)
          · cases (hcrash.symm.trans h)
  | receive =>
      simp only [step, hp] at h
      rcases s.receiveCommands_cases e with ⟨-, hr⟩ | ⟨havail, ⟨-, hr⟩ | ⟨bytes, -, hr⟩⟩ <;>
        rw [hr] at h
      · cases h
      · cases h
      · refine Or.inr ⟨rfl, (Phase.script.inj h).1, ?_⟩
        by_contra hclosed
        exact havail (by rw [available, if_neg hclosed, List.length_nil])
  | script k rest' =>
      cases rest' with
      | nil =>
          simp only [step, hp] at h
          cases h
      | cons c rest' =>
          simp only [step, hp] at h
          rcases call_phase k c e { s with phase := .script k rest' } with ⟨-, hsame⟩ | ⟨-, hhung⟩
          · obtain ⟨rfl, rfl⟩ := Phase.script.inj (hsame.symm.trans h)
            exact Or.inl ⟨c, rfl⟩
          · cases (hhung.symm.trans h)
  | keepalive =>
      simp only [step, hp] at h
      cases h
  | video =>
      simp only [step, hp] at h
      rcases v4l2Update_phase e { s with phase := .ret } with hsame | hcrash
      · cases (hsame.symm.trans h)
      · cases (hcrash.symm.trans h)
  | ret =>
      simp only [step, hp, ret] at h
      split at h <;> cases h
  | stopped | hung | crashed =>
      simp only [step, hp] at h
      cases h

end MKart.Server.RpiServer
