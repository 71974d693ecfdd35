import MKart.Lib.Logs
import MKart.Server.Events

/-!
# Connections take turns

There is one peer socket, and it is given up for a new one whenever a send or a receive fails.
What holds of every run, the runs with stray accepts included: no socket is accepted that is
older than one accepted before, and from when a socket is accepted until the next one is, all
that is called was received on it and all that is transmitted goes to it, up to the first send
that fails (`turns`).

The sockets in `opened` are those of the log, newest first, and none is newer than the peer
(`Inv`): what can be sent on the peer at all is sent on the socket accepted last.
-/

namespace MKart.Server.Turns

open MKart.Runs MKart.Logs RpiServer

/-- The sockets that have been accepted, in this order. -/
def acceptedSocks (log : List Event) : List ℕ :=
  log.filterMap fun
    | .accepted sock => some sock
    | _ => none

/-- A socket is accepted after older ones only, and everything else happens on the socket accepted
last, with nothing transmitted any more once a send on it has failed. -/
def InTurn (before : List Event) : Event → Prop
  | .accepted sock => ∀ earlier ∈ acceptedSocks before, earlier < sock
  | .called sock _ => (acceptedSocks before).getLast? = some sock
  | .sent sock _ _ n => 0 < n →
      (acceptedSocks before).getLast? = some sock ∧ ∀ kind frame, .sent sock kind frame 0 ∉ before

structure Inv (s : RpiServer) : Prop where
  numbered : Numbered s
  accepted : acceptedSocks s.log = s.opened.reverse
  newest : s.opened.Pairwise (· > ·)
  peer : ∀ sock ∈ s.opened, sock ≤ s.sockPeer
  failed : ∀ sock kind frame, .sent sock kind frame 0 ∈ s.log → sock < s.sockPeer
  script : ∀ sock rest, s.phase = .script sock rest → s.opened.head? = some sock

variable {s : RpiServer} {e : Env}

theorem acceptedSocks_append (log new : List Event) :
    acceptedSocks (log ++ new) = acceptedSocks log ++ acceptedSocks new := List.filterMap_append

/-- A step accepts nothing, or it accepts the peer and does nothing else. -/
theorem accepted_cases (s : RpiServer) (e : Env) :
    (acceptedSocks (s.events e) = [] ∧ (s.step e).opened = s.opened) ∨
      (s.events e = [.accepted s.sockPeer] ∧ s.sockPeer ∈ s.pending ∧
        (s.step e).phase = s.phase ∧ (s.step e).sockPeer = s.sockPeer ∧
        (s.step e).opened = s.sockPeer :: s.opened) := by
  by_cases hp : s.phase = .poll
  · cases hacc : e.accept with
    | none => exact Or.inl ⟨by simp [events, hp, hacc, acceptedSocks], by simp [step, hp, hacc]⟩
    | some completion =>
        obtain ⟨i, ok⟩ := completion
        have hstep : s.step e = s.completeAccept i ok e.now := by simp only [step, hp, hacc]
        rw [hstep]
        rcases s.completeAccept_cases i ok e.now with
          ⟨hnone, h⟩ | ⟨target, hi, ⟨rfl, h⟩ | ⟨rfl, rfl, h⟩ | ⟨rfl, hother, h⟩⟩ <;> rw [h]
        · cases ok with
          | false => exact Or.inl ⟨by simp [events, hp, hacc, acceptedSocks], rfl⟩
          | true => exact Or.inl ⟨by simp [events, hp, hacc, hnone, acceptedSocks], rfl⟩
        · exact Or.inl ⟨by simp [events, hp, hacc, acceptedSocks], rfl⟩
        · exact Or.inr ⟨by simp [events, hp, hacc, hi], List.mem_of_getElem? hi, rfl, rfl, rfl⟩
        · exact Or.inl ⟨by simp [events, hp, hacc, hi, hother, acceptedSocks], rfl⟩
  · left
    constructor
    · apply List.filterMap_eq_nil_iff.mpr
      intro ev hev
      cases ev with
      | accepted sock => exact absurd (phase_of_accepted hev) hp
      | _ => rfl
    · rcases s.peer_cases e with ⟨-, -, hopened, -⟩ | ⟨-, -, ⟨hopened, -⟩ | ⟨hpoll, -⟩⟩
      · exact hopened
      · exact hopened
      · exact absurd hpoll hp

/-- The socket on which something can be sent is the one accepted last. -/
theorem Inv.last_of_open (h : Inv s) (hopen : s.sockPeer ∈ s.opened) :
    s.opened.head? = some s.sockPeer := by
  cases hlist : s.opened with
  | nil => exact absurd (hlist ▸ hopen) List.not_mem_nil
  | cons newest older =>
      have hnewest := h.newest
      rw [hlist] at hopen hnewest
      rcases List.mem_cons.mp hopen with heq | holder
      · rw [heq, List.head?_cons]
      · have hlt : newest > s.sockPeer := (List.pairwise_cons.mp hnewest).1 _ holder
        exact absurd (h.peer newest (hlist ▸ List.mem_cons_self)) (Nat.not_le_of_gt hlt)

/-- A peer that has failed is older than the peer. -/
theorem Inv.failed_step (h : Inv s) (e : Env) (sock : ℕ) (kind : Kind) (frame : List UInt8)
    (hsent : .sent sock kind frame 0 ∈ (s.step e).log) : sock < (s.step e).sockPeer := by
  rw [step_log] at hsent
  rcases List.mem_append.mp hsent with hold | hnew
  · have hlt := h.failed sock kind frame hold
    rcases s.peer_cases e with ⟨-, hgiven, -⟩ | ⟨-, hkept, -⟩
    · rw [hgiven]
      exact lt_trans hlt h.numbered.peer
    · rw [hkept]
      exact hlt
  · obtain ⟨rfl, hgiven⟩ := sockPeer_of_sent_failed hnew
    rw [hgiven]
    exact h.numbered.peer

theorem inv_startup (gpioReady : Bool) (d : Device) (now later : ℤ) :
    Inv (startup gpioReady d now later) where
  numbered := numbered_startup gpioReady d now later
  accepted := rfl
  newest := List.Pairwise.nil
  peer := fun _ h => absurd h List.not_mem_nil
  failed := fun _ _ _ h => absurd h List.not_mem_nil
  script := fun _ _ h => by cases h

theorem step_inv (h : Inv s) (e : Env) : Inv (s.step e) := by
  have hnumbered := numbered_step h.numbered e
  rcases accepted_cases s e with ⟨hnone, hopened⟩ | ⟨hev, hpending, hphase, hpeer, hopened⟩
  · refine ⟨hnumbered, ?_, ?_, ?_, ?_, ?_⟩
    · rw [step_log, acceptedSocks_append, hnone, List.append_nil, hopened]
      exact h.accepted
    · rw [hopened]
      exact h.newest
    · rw [hopened]
      intro sock hsock
      rcases s.peer_cases e with ⟨-, hgiven, -⟩ | ⟨-, hkept, -⟩
      · rw [hgiven]
        exact Nat.le_of_lt (h.numbered.opened sock hsock)
      · rw [hkept]
        exact h.peer sock hsock
    · exact h.failed_step e
    · intro sock rest hscript
      rw [hopened]
      rcases script_of_step hscript with ⟨c, hp⟩ | ⟨-, rfl, hopen⟩
      · exact h.script sock _ hp
      · exact h.last_of_open hopen
  · have hclosed : s.sockPeer ∉ s.opened := (h.numbered.pending _ hpending).2
    have hlt : ∀ sock ∈ s.opened, sock < s.sockPeer := by
      intro sock hsock
      exact lt_of_le_of_ne (h.peer sock hsock) fun heq => hclosed (heq ▸ hsock)
    refine ⟨hnumbered, ?_, ?_, ?_, ?_, ?_⟩
    · rw [step_log, acceptedSocks_append, hev, hopened, List.reverse_cons, ← h.accepted]
      rfl
    · rw [hopened]
      exact List.pairwise_cons.mpr ⟨hlt, h.newest⟩
    · rw [hopened, hpeer]
      intro sock hsock
      rcases List.mem_cons.mp hsock with rfl | hold
      · exact le_refl _
      · exact h.peer sock hold
    · exact h.failed_step e
    · intro sock rest hscript
      rw [hphase] at hscript
      have hpoll := phase_of_accepted (s := s) (e := e) (hev ▸ List.mem_singleton_self _)
      cases (hpoll.symm.trans hscript)

/-- What a step adds to the log is in turn. -/
theorem inTurn_events (h : Inv s) (e : Env) :
    Each (fun before => InTurn (s.log ++ before)) (s.events e) := by
  intro before ev after hevents
  have hmem : ev ∈ s.events e := by
    rw [hevents]
    exact List.mem_append_right _ List.mem_cons_self
  have hlast (sock : ℕ) (hhead : s.opened.head? = some sock) (hnone : acceptedSocks before = []) :
      (acceptedSocks (s.log ++ before)).getLast? = some sock := by
    rw [acceptedSocks_append, hnone, List.append_nil, h.accepted, List.getLast?_reverse]
    exact hhead
  rcases accepted_cases s e with ⟨hnone, -⟩ | ⟨hev, hpending, -⟩
  · have hparts : acceptedSocks before = [] ∧ acceptedSocks (ev :: after) = [] := by
      rw [hevents, acceptedSocks_append] at hnone
      exact List.append_eq_nil_iff.mp hnone
    cases ev with
    | accepted sock => exact absurd hparts.2 (List.cons_ne_nil _ _)
    | called sock c =>
        obtain ⟨rest, hp⟩ := of_called_mem_events hmem
        exact hlast sock (h.script sock _ hp) hparts.1
    | sent sock kind buf n =>
        intro hn
        obtain rfl : sock = s.sockPeer := (Event.sent.inj (of_sent_mem_events hmem).1).1
        have hsends := mt (bytes_of_sent hmem).mpr (Nat.ne_of_gt hn)
        -- something was transmitted, so the peer is accepted
        have hopen : s.sockPeer ∈ s.opened := not_not.mp fun hclosed => hsends (Or.inl hclosed)
        refine ⟨hlast s.sockPeer (h.last_of_open hopen) hparts.1, ?_⟩
        intro kind' frame hfailed
        rcases List.mem_append.mp hfailed with hold | hnew
        · exact lt_irrefl _ (h.failed _ kind' frame hold)
        · have hnew' : .sent s.sockPeer kind' frame 0 ∈ s.events e := by
            rw [hevents]
            exact List.mem_append_left _ hnew
          exact hsends ((bytes_of_sent hnew').mp rfl)
  · rw [hev] at hevents
    cases before with
    | nil =>
        obtain ⟨rfl, -⟩ := List.cons_eq_cons.mp hevents
        intro earlier hearlier
        rw [List.append_nil, h.accepted, List.mem_reverse] at hearlier
        exact lt_of_le_of_ne (h.peer earlier hearlier) fun heq =>
          (h.numbered.pending _ hpending).2 (heq ▸ hearlier)
    | cons ev' before => exact absurd (List.cons_eq_cons.mp hevents).2 (by simp)

/-- **Connections take turns**, in every run: sockets are accepted in the order of their creation,
whatever is called or transmitted in between is called or transmitted on the socket accepted last,
and nothing is transmitted on it after a send that failed. -/
theorem turns (gpioReady : Bool) (d : Device) (now later : ℤ) (es : List Env) :
    Always RpiServer.step (fun s => Each InTurn s.log) (startup gpioReady d now later) es :=
  always_each (fun _ e h => step_inv h e) step_log (fun _ e h => inTurn_events h e)
    (inv_startup gpioReady d now later) (each_nil _)

end MKart.Server.Turns
