import MKart.Lib.Logs
import MKart.Server.Events
import MKart.Server.Scripts

/-!
# Replies to readings

`gpio_get_0_31` and `gpio_get_32_53` answer a script with a message to the peer, whoever that is
by then: a send that fails inside a script puts a new socket in the place of the one the script
was received on.  As nothing can be sent on the new socket before it is accepted, and nothing is
accepted inside a script, a reading that goes out goes to the connection that asked for it, in
every run (`replies_to_asker`).  It goes out exactly where the send can be made, and so the
replies on each connection are those to its requests, one each and in their order, in exactly the
runs in which every reading can be sent (`replies_complete_iff`).
-/

namespace MKart.Server.Replies

open MKart.Runs MKart.Logs MKart.LittleEndian RpiServer Scripts

/-- The bank that a call reads. -/
def bank : ScriptCall → Option UInt32
  | .gpioGet_0_31 => some 1
  | .gpioGet_32_53 => some 2
  | _ => none

/-- The bank that a reply names. -/
def replyBank (frame : List UInt8) : UInt32 := UInt32.ofNat (leValue ((frame.drop 8).take 4))

/-- The banks that scripts received on `sock` have asked for. -/
def asked (sock : ℕ) (log : List Event) : List UInt32 := (called sock log).filterMap bank

/-- The banks of the replies that have gone out on `sock`. -/
def replied (sock : ℕ) (log : List Event) : List UInt32 :=
  (transmitted sock .gpio log).map replyBank

/-- A reply of which something has gone out stands directly behind the call that asked for it, and
on the same connection. -/
def RepliesToAsker (log : List Event) : Prop :=
  ∀ before sock frame n after, log = before ++ .sent sock .gpio frame n :: after → 0 < n →
    ∃ front c b values, before = front ++ [.called sock c] ∧ bank c = some b ∧
      frame = gpioMessage b values

/-- Every request has had its reply, in the order of the requests. -/
def RepliesComplete (s : RpiServer) : Prop := ∀ sock, replied sock s.log = asked sock s.log

/-- The call that a step makes. -/
def nextCall (s : RpiServer) : Option ScriptCall :=
  match s.phase with
  | .script _ (c :: _) => some c
  | _ => none

/-- A step that reads a bank can send what it has read. -/
def CanReply (s : RpiServer) (e : Env) : Prop :=
  ((nextCall s).bind bank).isSome = true →
    s.gpioReady = true ∧ s.sockPeer ∈ s.opened ∧ e.send ≠ none

instance (s : RpiServer) (e : Env) : Decidable (CanReply s e) :=
  inferInstanceAs (Decidable (_ → _ ∧ _ ∧ _))

/-- The peer in a script is the connection it was received on, or nothing can be sent to it. -/
structure Inv (s : RpiServer) : Prop where
  numbered : Numbered s
  asker : ∀ sock rest, s.phase = .script sock rest → s.sockPeer = sock ∨ s.sockPeer ∉ s.opened

variable {s : RpiServer} {e : Env}

/-! ### The asker -/

theorem inv_startup (gpioReady : Bool) (d : Device) (now later : ℤ) :
    Inv (startup gpioReady d now later) where
  numbered := numbered_startup gpioReady d now later
  asker := fun _ _ h => by cases h

theorem step_inv (h : Inv s) (e : Env) : Inv (s.step e) := by
  refine ⟨numbered_step h.numbered e, fun sock rest hscript => ?_⟩
  have hnotPoll : s.phase ≠ .poll := by
    intro hpoll
    rcases script_of_step hscript with ⟨c, hp⟩ | ⟨hp, -⟩ <;> cases (hpoll.symm.trans hp)
  rcases s.peer_cases e with ⟨-, hpeer, hopened, -⟩ | ⟨-, hpeer, ⟨hopened, -⟩ | ⟨hpoll, -⟩⟩
  · -- the new socket has not been accepted
    right
    rw [hpeer, hopened]
    intro hmem
    exact lt_irrefl _ (h.numbered.opened _ hmem)
  · rw [hpeer, hopened]
    rcases script_of_step hscript with ⟨c, hp⟩ | ⟨-, hsock, -⟩
    · exact h.asker sock _ hp
    · exact Or.inl hsock
  · exact absurd hpoll hnotPoll

theorem reading_of_bank {c : ScriptCall} {b : UInt32} (hb : bank c = some b) :
    c = .gpioGet_0_31 ∧ b = 1 ∨ c = .gpioGet_32_53 ∧ b = 2 := by
  cases c with
  | gpioGet_0_31 => exact Or.inl ⟨rfl, (Option.some.inj hb).symm⟩
  | gpioGet_32_53 => exact Or.inr ⟨rfl, (Option.some.inj hb).symm⟩
  | _ => cases hb

/-- A reading that a step sends stands behind the call, and what is transmitted goes to the
asker. -/
theorem asker_of_sent (h : Inv s) {before after : List Event} {sock n : ℕ} {frame : List UInt8}
    (hevents : s.events e = before ++ .sent sock .gpio frame n :: after) (hn : 0 < n) :
    ∃ front c b values, before = front ++ [.called sock c] ∧ bank c = some b ∧
      frame = gpioMessage b values := by
  have hmem : .sent sock .gpio frame n ∈ s.events e := by
    rw [hevents]
    exact List.mem_append_right _ List.mem_cons_self
  obtain ⟨hsent, k, b, rest, rfl, hready, hcall⟩ := of_sent_mem_events hmem
  have hphase : ∃ c, s.phase = .script k (c :: rest) ∧ bank c = some b := by
    rcases hcall with ⟨hp, rfl⟩ | ⟨hp, rfl⟩
    · exact ⟨_, hp, rfl⟩
    · exact ⟨_, hp, rfl⟩
  obtain ⟨c, hp, hb⟩ := hphase
  have hsock : sock = s.sockPeer := (Event.sent.inj hsent).1
  -- something was transmitted, so the peer is accepted, and is the asker
  have hopen : s.sockPeer ∈ s.opened := not_not.mp fun hclosed =>
    Nat.ne_of_gt hn ((bytes_of_sent hmem).mpr (Or.inl hclosed))
  have hasker : sock = k := hsock.trans ((h.asker k _ hp).resolve_right (not_not.mpr hopen))
  have hlist := (events_of_reading (e := e) (reading_of_bank hb) hp).symm.trans hevents
  rw [if_pos hready] at hlist
  cases before with
  | nil => cases (List.cons_eq_cons.mp hlist).1
  | cons ev before =>
      obtain ⟨hev, htail⟩ := List.cons_eq_cons.mp hlist
      have hnil : before = [] := by
        cases before with
        | nil => rfl
        | cons ev' before => exact absurd (List.cons_eq_cons.mp htail).2.symm (by simp)
      refine ⟨[], c, b, e.gpioRead, ?_, hb, rfl⟩
      rw [hnil, ← hev, hasker]
      rfl

/-- An entry of which something has gone out as a reply stands behind the call that asked for it. -/
def Answering (before : List Event) (ev : Event) : Prop :=
  ∀ sock frame n, ev = .sent sock .gpio frame n → 0 < n →
    ∃ front c b values, before = front ++ [.called sock c] ∧ bank c = some b ∧
      frame = gpioMessage b values

theorem answering_of_events (h : Inv s) (e : Env) :
    Each (fun before => Answering (s.log ++ before)) (s.events e) := by
  rintro before - after hevents sock frame n rfl hn
  obtain ⟨front, c, b, values, rfl, hc⟩ := asker_of_sent h hevents hn
  exact ⟨s.log ++ front, c, b, values, (List.append_assoc _ _ _).symm, hc⟩

/-- **Readings go to the connection that asked for them**, in every run: whatever fails inside a
script, a reply that goes out stands directly behind the call it answers, on the connection of
the script that made the call. -/
theorem replies_to_asker (gpioReady : Bool) (d : Device) (now later : ℤ) (es : List Env) :
    Always RpiServer.step (fun s => RepliesToAsker s.log) (startup gpioReady d now later) es := by
  have hall : Always RpiServer.step (fun s => Each Answering s.log)
      (startup gpioReady d now later) es :=
    always_each (fun s e h => step_inv h e) step_log (fun s e h => answering_of_events h e)
      (inv_startup gpioReady d now later) (each_nil _)
  refine hall.imp fun s h => ?_
  intro before sock frame n after hlog hn
  exact h before _ after hlog sock frame n rfl hn

/-! ### Every request has its reply -/

theorem replyBank_gpioMessage (b values : UInt32) : replyBank (gpioMessage b values) = b := by
  have hbank : leValue (leBytes 4 b.toNat) = b.toNat := leValue_leBytes_of_lt b.toNat_lt
  have htake : ((gpioMessage b values).drop 8).take 4 = leBytes 4 b.toNat := rfl
  rw [replyBank, htake, hbank, UInt32.ofNat_toNat]

theorem asked_step (sock : ℕ) (s : RpiServer) (e : Env) :
    asked sock (s.step e).log = asked sock s.log ++ (calledIn sock s.phase).filterMap bank := by
  rw [asked, called_step, List.filterMap_append]
  rfl

theorem replied_step (sock : ℕ) (s : RpiServer) (e : Env) :
    replied sock (s.step e).log =
      replied sock s.log ++ (transmitted sock .gpio (s.events e)).map replyBank := by
  rw [replied, step_log, transmitted_append, List.map_append]
  rfl

theorem script_of_reading {b : UInt32} (h : (nextCall s).bind bank = some b) :
    ∃ k c rest, s.phase = .script k (c :: rest) ∧ bank c = some b := by
  obtain ⟨c, hcall, hb⟩ := Option.bind_eq_some_iff.mp h
  unfold nextCall at hcall
  split at hcall
  · rename_i k c' rest hp
    obtain rfl := Option.some.inj hcall
    exact ⟨k, c', rest, hp, hb⟩
  · cases hcall

/-- A step that reads no bank neither asks nor replies. -/
theorem quiet_of_not_reading (h : (nextCall s).bind bank = none) (sock : ℕ) :
    (calledIn sock s.phase).filterMap bank = [] ∧ transmitted sock .gpio (s.events e) = [] := by
  constructor
  · cases hp : s.phase with
    | script k rest =>
        cases rest with
        | nil => rfl
        | cons c rest =>
            have hb : bank c = none := by simpa [nextCall, hp] using h
            simp only [calledIn]
            split
            · rw [List.filterMap_cons_none hb]
              rfl
            · rfl
    | _ => rfl
  · apply transmitted_of_not_sends
    by_contra hsends
    obtain ⟨k, buf, n, hmem⟩ := exists_of_sends (eq_true_of_ne_false hsends)
    obtain ⟨-, k', b, rest, -, -, ⟨hp, -⟩ | ⟨hp, -⟩⟩ := of_sent_mem_events hmem
    · simp [nextCall, hp, bank] at h
    · simp [nextCall, hp, bank] at h

/-- A step that reads a bank asks for it, and replies on the peer if it can. -/
theorem reading_step {k : ℕ} {c : ScriptCall} {rest : List ScriptCall} {b : UInt32}
    (hp : s.phase = .script k (c :: rest)) (hb : bank c = some b) (sock : ℕ) :
    (calledIn sock s.phase).filterMap bank = (if k = sock then [b] else []) ∧
      (transmitted sock .gpio (s.events e)).map replyBank =
        if s.gpioReady = true ∧ s.sockPeer ∈ s.opened ∧ e.send ≠ none then
          if s.sockPeer = sock then [b] else []
        else [] := by
  constructor
  · rw [hp, calledIn]
    by_cases hk : k = sock
    · rw [if_pos hk, if_pos hk, List.filterMap_cons_some hb]
      rfl
    · rw [if_neg hk, if_neg hk]
      rfl
  · rw [events_of_reading (reading_of_bank hb) hp]
    cases hready : s.gpioReady with
    | false => simp [transmitted]
    | true =>
        by_cases hopen : s.sockPeer ∈ s.opened
        · cases hsend : e.send with
          | none =>
              have hnone : s.sockSend e (gpioMessage b e.gpioRead) = none := by
                simp [sockSend, hsend]
              simp [transmitted, sentEvent, hnone]
          | some n =>
              have hsome : s.sockSend e (gpioMessage b e.gpioRead) =
                  some (max 1 (min n (gpioMessage b e.gpioRead).length)) := by
                simp [sockSend, hopen, hsend]
              have hpos : 0 < max 1 (min n (gpioMessage b e.gpioRead).length) :=
                lt_of_lt_of_le Nat.one_pos (le_max_left _ _)
              by_cases hsock : s.sockPeer = sock
              · subst hsock
                simp [transmitted, sentEvent, hsome, hopen, replyBank_gpioMessage]
              · simp [transmitted, sentEvent, hsock]
        · have hnone : s.sockSend e (gpioMessage b e.gpioRead) = none := if_neg hopen
          simp [transmitted, sentEvent, hnone, hopen]

theorem step_complete (h : Inv s) (hcomplete : RepliesComplete s) (hC : CanReply s e) :
    RepliesComplete (s.step e) := by
  intro sock
  rw [replied_step, asked_step, hcomplete sock]
  congr 1
  cases hread : (nextCall s).bind bank with
  | none =>
      obtain ⟨hasked, hreplied⟩ := quiet_of_not_reading (e := e) hread sock
      rw [hasked, hreplied]
      rfl
  | some b =>
      obtain ⟨k, c, rest, hp, hb⟩ := script_of_reading hread
      obtain ⟨hready, hopen, hsend⟩ := hC (by rw [hread]; rfl)
      have hasker : s.sockPeer = k := (h.asker k _ hp).resolve_right (not_not.mpr hopen)
      obtain ⟨hasked, hreplied⟩ := reading_step (e := e) hp hb sock
      rw [hasked, hreplied, if_pos ⟨hready, hopen, hsend⟩, hasker]

theorem not_complete_of_cannot (hcomplete : RepliesComplete s) (hC : ¬ CanReply s e) :
    ¬ RepliesComplete (s.step e) := by
  intro hafter
  obtain ⟨hread, hcannot⟩ := Classical.not_imp.mp hC
  obtain ⟨b, hb⟩ := Option.isSome_iff_exists.mp hread
  obtain ⟨k, c, rest, hp, hb⟩ := script_of_reading hb
  obtain ⟨hasked, hreplied⟩ := reading_step (e := e) hp hb k
  have hlists := hafter k
  rw [replied_step, asked_step, hasked, hreplied, if_neg hcannot, if_pos rfl, hcomplete k,
    List.append_nil] at hlists
  exact absurd (List.append_right_eq_self.mp hlists.symm) (List.cons_ne_nil _ _)

/-- **Every request has its reply**, in its order and on its connection, throughout a run exactly if
every step of the run that reads a bank can send what it has read. -/
theorem replies_complete_iff (gpioReady : Bool) (d : Device) (now later : ℤ) (es : List Env) :
    Always RpiServer.step RepliesComplete (startup gpioReady d now later) es ↔
      Meets RpiServer.step CanReply (startup gpioReady d now later) es := by
  have hstart : Inv (startup gpioReady d now later) ∧
      RepliesComplete (startup gpioReady d now later) :=
    ⟨inv_startup gpioReady d now later, fun _ => rfl⟩
  have hstep : ∀ (s : RpiServer) (e : Env), Inv s ∧ RepliesComplete s → CanReply s e →
      Inv (s.step e) ∧ RepliesComplete (s.step e) :=
    fun s e h hC => ⟨step_inv h.1 e, step_complete h.1 h.2 hC⟩
  constructor
  · exact meets_of_always hstep (fun s e h hC => not_complete_of_cannot h.2 hC) hstart
  · intro hmeets
    exact (always_of_meets hstep hstart hmeets).imp fun _ h => h.2

end MKart.Server.Replies
