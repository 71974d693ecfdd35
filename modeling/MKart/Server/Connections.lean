import MKart.Lib.Runs
import MKart.Server.RpiServer

/-!
# One connection at a time

`wait_for_connection` deletes the peer socket and posts an accept from wherever an error is
noticed.  What keeps this in order is that a failed send or receive happens on an accepted
socket, when no accept is pending.  Two places send without looking: the GPIO functions of a
script, and the keep-alive.  If one of them sends while an accept is pending, the send fails on
the unopened socket and a second accept is posted while the first still targets a deleted
socket.  Every other step keeps the server in one of two situations (`Waiting`, `Open`).
-/

namespace MKart.Server.Connections

open MKart.Runs

/-- The connection state and the sockets agree. -/
structure PeerConsistent (s : RpiServer) : Prop where
  one : s.pending.length ≤ 1
  target : ∀ sock ∈ s.pending, sock = s.sockPeer
  connected : s.state = .connected → s.sockPeer ∈ s.opened ∧ s.pending = []

instance (s : RpiServer) : Decidable (PeerConsistent s) :=
  decidable_of_iff (s.pending.length ≤ 1 ∧ (∀ sock ∈ s.pending, sock = s.sockPeer) ∧
      (s.state = .connected → s.sockPeer ∈ s.opened ∧ s.pending = []))
    ⟨fun h => ⟨h.1, h.2.1, h.2.2⟩, fun h => ⟨h.one, h.target, h.connected⟩⟩

/-- No accept is pending when a step sends. -/
def PeerReady (s : RpiServer) (e : Env) : Prop := s.sendsUntested e = true → s.pending = []

instance (s : RpiServer) (e : Env) : Decidable (PeerReady s e) :=
  inferInstanceAs (Decidable (_ → _))

/-! ### The two situations -/

def Waiting (s : RpiServer) : Prop :=
  s.pending = [s.sockPeer] ∧ s.sockPeer ∉ s.opened ∧ s.state ≠ .connected

def Open (s : RpiServer) : Prop := s.pending = [] ∧ s.sockPeer ∈ s.opened

structure Linked (s : RpiServer) : Prop where
  link : Waiting s ∨ Open s
  peer : s.sockPeer < s.nextSock
  fresh : ∀ sock ∈ s.opened, sock < s.nextSock

theorem Linked.peerConsistent {s : RpiServer} (h : Linked s) : PeerConsistent s := by
  rcases h.link with ⟨hpending, -, hstate⟩ | ⟨hpending, hopen⟩
  · refine ⟨by simp [hpending], ?_, fun hconn => absurd hconn hstate⟩
    intro sock hsock
    rw [hpending] at hsock
    exact List.mem_singleton.mp hsock
  · refine ⟨by simp [hpending], ?_, fun _ => ⟨hopen, hpending⟩⟩
    intro sock hsock
    rw [hpending] at hsock
    exact absurd hsock List.not_mem_nil

theorem Linked.open_of_connected {s : RpiServer} (h : Linked s) (hconn : s.state = .connected) :
    Open s := by
  rcases h.link with ⟨-, -, hstate⟩ | hopen
  · exact absurd hconn hstate
  · exact hopen

/-! ### The operations -/

variable {s : RpiServer}

/-- With no accept pending, giving the peer up leaves exactly the new accept. -/
theorem linked_waitForConnection (now : ℤ) (hpending : s.pending = [])
    (hfresh : ∀ sock ∈ s.opened, sock < s.nextSock) : Linked (s.waitForConnection now) := by
  refine ⟨Or.inl ⟨?_, ?_, (fun h => by cases h)⟩, Nat.lt_succ_self _, ?_⟩
  · show s.pending ++ [s.nextSock] = [s.nextSock]
    rw [hpending, List.nil_append]
  · intro hmem
    exact lt_irrefl _ (hfresh s.nextSock hmem)
  · intro sock hsock
    exact Nat.lt_succ_of_lt (hfresh sock hsock)

theorem linked_send (h : Linked s) (hpending : s.pending = []) (kind : Kind) (buf : List UInt8)
    (e : Env) : Linked (s.send kind buf e).1 := by
  rcases RpiServer.send_cases kind buf e s with ⟨n, -, -, -, hsend⟩ | ⟨-, hsend⟩
  · rw [hsend]
    exact ⟨h.link, h.peer, h.fresh⟩
  · rw [hsend]
    exact linked_waitForConnection e.later hpending h.fresh

theorem linked_exit (h : Linked s) : Linked s.exit := by
  refine ⟨?_, h.peer, h.fresh⟩
  rcases h.link with ⟨hpending, hpeer, -⟩ | hopen
  · exact Or.inl ⟨hpending, hpeer, (fun h => by cases h)⟩
  · exact Or.inr hopen

theorem linked_call (h : Linked s) (sock : ℕ) (c : ScriptCall) (e : Env)
    (hready : c = .gpioGet_0_31 ∨ c = .gpioGet_32_53 → s.gpioReady = true → s.pending = []) :
    Linked (s.call sock c e) := by
  have hlog : Linked { s with log := s.log ++ [.called sock c] } := ⟨h.link, h.peer, h.fresh⟩
  rcases s.call_cases sock c e with ⟨-, hcall⟩ | ⟨-, ⟨-, hcall⟩ | ⟨enabled, -, hcall⟩ |
    ⟨bank, hc, hgpio, hcall⟩ | ⟨-, -, -, -, hcall⟩⟩ <;> rw [hcall]
  · have hexit := linked_exit hlog
    exact ⟨hexit.link, hexit.peer, hexit.fresh⟩
  · exact linked_exit hlog
  · exact ⟨h.link, h.peer, h.fresh⟩
  · have hpending := hready (hc.imp And.left And.left) hgpio
    exact linked_send hlog hpending _ _ e
  · exact hlog

theorem linked_completeAccept (h : Linked s) (i : ℕ) (ok : Bool) (now : ℤ) :
    Linked (s.completeAccept i ok now) := by
  rcases s.completeAccept_cases i ok now with ⟨-, hsame⟩ | ⟨target, htarget, hcases⟩
  · rw [hsame]
    exact h
  · rcases h.link with ⟨hpending, hpeer, hstate⟩ | ⟨hpending, hopen⟩
    · -- the only pending accept is the one into the peer socket
      obtain ⟨rfl, rfl⟩ : i = 0 ∧ s.sockPeer = target := by
        rw [hpending] at htarget
        cases i with
        | zero => exact ⟨rfl, by simpa using htarget⟩
        | succ i => simp at htarget
      have hnone : s.pending.eraseIdx 0 = [] := by rw [hpending]; rfl
      rcases hcases with ⟨-, hfailed⟩ | ⟨-, -, haccepted⟩ | ⟨-, hother, -⟩
      · rw [hfailed]
        exact linked_waitForConnection now hnone h.fresh
      · rw [haccepted]
        refine ⟨Or.inr ⟨hnone, List.mem_cons_self⟩, h.peer, ?_⟩
        intro sock hsock
        rcases List.mem_cons.mp hsock with rfl | hold
        · exact h.peer
        · exact h.fresh sock hold
      · exact absurd rfl hother
    · rw [hpending] at htarget
      simp at htarget

theorem linked_v4l2Update (h : Linked s) (e : Env) : Linked (s.v4l2Update e) := by
  rcases s.v4l2Update_cases e with ⟨-, hsame | ⟨v, -, -, hoff⟩ | hcrash⟩ |
    ⟨frame, v, w, -, -, hconn, -, -, -, hsend⟩
  · rw [hsame]
    exact h
  · rw [hoff]
    exact ⟨h.link, h.peer, h.fresh⟩
  · rw [hcrash]
    exact ⟨h.link, h.peer, h.fresh⟩
  · have hlinked : Linked { s with v4l2 := v } := ⟨h.link, h.peer, h.fresh⟩
    have hsent := linked_send hlinked (h.open_of_connected hconn).1 .jpeg frame e
    rw [hsend]
    exact ⟨hsent.link, hsent.peer, hsent.fresh⟩

theorem linked_sendKeepalive (h : Linked s) (e : Env)
    (hready : s.keepaliveDue e.now = true → s.pending = []) : Linked (s.sendKeepalive e) := by
  unfold RpiServer.sendKeepalive
  split
  · have hsent := linked_send h (hready ‹_›) .keepAlive keepAliveMessage e
    exact ⟨hsent.link, hsent.peer, hsent.fresh⟩
  · exact h

theorem linked_receiveCommands (h : Linked s) (hconn : s.state = .connected) (e : Env) :
    Linked (s.receiveCommands e) := by
  rcases s.receiveCommands_cases e with ⟨-, hnone⟩ | ⟨-, ⟨-, hfailed⟩ | ⟨bytes, -, hscript⟩⟩
  · rw [hnone]
    exact ⟨h.link, h.peer, h.fresh⟩
  · have hwait := linked_waitForConnection e.now (h.open_of_connected hconn).1 h.fresh
    rw [hfailed]
    exact ⟨hwait.link, hwait.peer, hwait.fresh⟩
  · rw [hscript]
    exact ⟨h.link, h.peer, h.fresh⟩

/-! ### Runs -/

/-- The situation of the sockets, and that `receive_commands` runs on a connected peer. -/
structure Inv (s : RpiServer) : Prop where
  linked : Linked s
  receive : s.phase = .receive → s.state = .connected

theorem inv_startup (gpioReady : Bool) (d : Device) (now later : ℤ) :
    Inv (RpiServer.startup gpioReady d now later) := by
  refine ⟨?_, (fun h => by cases h)⟩
  apply linked_waitForConnection
  · rfl
  · intro sock hsock
    exact absurd hsock List.not_mem_nil

/-- **One step** with no accept pending when it sends untested. -/
theorem step_inv (s : RpiServer) (e : Env) (h : Inv s) (hready : PeerReady s e) :
    Inv (s.step e) := by
  obtain ⟨hlinked, hreceive⟩ := h
  have hphase {t : RpiServer} (ht : Linked t) (p : Phase) : Linked { t with phase := p } :=
    ⟨ht.link, ht.peer, ht.fresh⟩
  cases hp : s.phase with
  | poll =>
      simp only [RpiServer.step, hp]
      cases e.accept with
      | none => exact ⟨hphase hlinked _, fun hrecv => by by_contra hstate; simp [hstate] at hrecv⟩
      | some completion =>
          obtain ⟨i, ok⟩ := completion
          refine ⟨linked_completeAccept hlinked i ok e.now, ?_⟩
          intro hrecv
          rcases s.completeAccept_phase i ok e.now with hsame | hcrash
          · exact absurd (hsame.symm.trans hrecv) (by simp [hp])
          · cases (hcrash.symm.trans hrecv)
  | receive =>
      simp only [RpiServer.step, hp]
      refine ⟨linked_receiveCommands hlinked (hreceive hp) e, ?_⟩
      intro hrecv
      rcases s.receiveCommands_cases e with ⟨-, h⟩ | ⟨-, ⟨-, h⟩ | ⟨bytes, -, h⟩⟩ <;>
        rw [h] at hrecv <;> cases hrecv
  | script sock rest =>
      cases rest with
      | nil =>
          simp only [RpiServer.step, hp]
          exact ⟨hphase hlinked _, (fun h => by cases h)⟩
      | cons c rest =>
          simp only [RpiServer.step, hp]
          refine ⟨linked_call (hphase hlinked _) sock c e fun hc hgpio => hready ?_,
            ?_⟩
          · rcases hc with rfl | rfl <;> simpa [RpiServer.sendsUntested, hp] using hgpio
          · intro hrecv
            rcases RpiServer.call_phase sock c e { s with phase := .script sock rest }
              with ⟨-, hsame⟩ | ⟨-, hhung⟩
            · cases (hsame.symm.trans hrecv)
            · cases (hhung.symm.trans hrecv)
  | keepalive =>
      simp only [RpiServer.step, hp]
      refine ⟨hphase (linked_sendKeepalive hlinked e fun hdue => hready ?_) _, fun h => by cases h⟩
      simpa [RpiServer.sendsUntested, hp] using hdue
  | video =>
      simp only [RpiServer.step, hp]
      refine ⟨linked_v4l2Update (hphase hlinked .ret) e, ?_⟩
      intro hrecv
      rcases RpiServer.v4l2Update_phase e { s with phase := .ret } with hsame | hcrash
      · cases (hsame.symm.trans hrecv)
      · cases (hcrash.symm.trans hrecv)
  | ret =>
      simp only [RpiServer.step, hp]
      refine ⟨⟨hlinked.link, hlinked.peer, hlinked.fresh⟩, fun hrecv => absurd hrecv ?_⟩
      unfold RpiServer.ret
      dsimp only
      split <;> exact fun h => by cases h
  | stopped | hung | crashed =>
      simp only [RpiServer.step, hp]
      exact ⟨hlinked, hreceive⟩

/-! ### The condition is exact -/

/-- A send while waiting fails, and leaves a second accept pending. -/
theorem not_one_of_waiting (h : Waiting s) (kind : Kind) (buf : List UInt8) (e : Env) :
    ¬ (s.send kind buf e).1.pending.length ≤ 1 := by
  rcases RpiServer.send_cases kind buf e s with ⟨n, hopen, -⟩ | ⟨-, hsend⟩
  · exact absurd hopen h.2.1
  · rw [hsend]
    show ¬ (s.pending ++ [s.nextSock]).length ≤ 1
    rw [h.1]
    simp

theorem not_peerConsistent_of_unready (s : RpiServer) (e : Env) (h : Inv s)
    (hready : ¬ PeerReady s e) : ¬ PeerConsistent (s.step e) := by
  obtain ⟨hsends, hpending⟩ := Classical.not_imp.mp hready
  have hwait : Waiting s := by
    rcases h.linked.link with hwait | hopen
    · exact hwait
    · exact absurd hopen.1 hpending
  obtain ⟨kind, buf, log, p, p', t, -, -, hstep⟩ := RpiServer.step_of_sendsUntested hsends
  intro hconsistent
  have hone := hconsistent.one
  rw [hstep] at hone
  exact not_one_of_waiting (s := { s with log := log, phase := p }) hwait kind buf e hone

/-- **One connection at a time.**  The state, the peer socket and the pending accepts agree in
every state of a run exactly if no step of it sends untested while an accept is pending. -/
theorem update_peerConsistent (gpioReady : Bool) (d : Device) (now later : ℤ) (es : List Env) :
    Always RpiServer.step PeerConsistent (RpiServer.startup gpioReady d now later) es ↔
      Meets RpiServer.step PeerReady (RpiServer.startup gpioReady d now later) es := by
  have hstart := inv_startup gpioReady d now later
  constructor
  · exact meets_of_always step_inv not_peerConsistent_of_unready hstart
  · intro hready
    exact (always_of_meets step_inv hstart hready).imp fun s h => h.linked.peerConsistent

/-- A client is accepted and sends a script that reads both banks; the first send fails, and
the second posts another accept while the first still targets the deleted socket. -/
theorem update_two_accepts :
    ¬ Always RpiServer.step PeerConsistent (RpiServer.startup true .absent 0 0)
      [{ Env.idle with accept := some (0, true) }, .idle,
        { Env.idle with inbox := [59], evaluate := fun _ => [.gpioGet_0_31, .gpioGet_32_53] },
        .idle, .idle] := by
  decide

end MKart.Server.Connections
