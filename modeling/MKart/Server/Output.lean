import MKart.Lib.PartialSends
import MKart.Lib.Runs
import MKart.Server.Events

/-!
# The output of the server

Three places send, each one frame a call, and each looks only at the error code of the call.
A call that succeeds may have transmitted a part of the frame; the next frame then starts in
the middle of this one.  The output of every connection stays framed exactly as long as no step
transmits on a connection whose last frame is not whole (`WholeBefore`).
-/

namespace MKart.Server.Output

open MKart.Runs MKart.Framing MKart.PartialSends

/-- The sends on a connection, in the order of the calls. -/
def transmissions (sock : ℕ) (log : List Event) : List Transmission :=
  log.filterMap fun
    | .sent s _ frame n => if s = sock then some ⟨frame, n⟩ else none
    | _ => none

/-- On every connection the calls were given frames, a frame starts only when the one before it
is whole, and what was put on the connection is a prefix of the frames. -/
def OutputFramed (s : RpiServer) : Prop :=
  ∀ sock, (∀ t ∈ transmissions sock s.log, IsFrame 4 t.string) ∧
    InOrder (transmissions sock s.log) ∧
    sentBytes (transmissions sock s.log) <+:
      (transmissions sock s.log).flatMap Transmission.string

/-- The step calls `RpiServer::send` or sends a keep-alive. -/
def sends (s : RpiServer) (e : Env) : Bool :=
  s.sendsUntested e || (decide (s.phase = .video) && (s.capturedFrame e).isSome)

/-- The step sends on an accepted socket, and without an error. -/
def Transmits (s : RpiServer) (e : Env) : Prop :=
  sends s e = true ∧ s.sockPeer ∈ s.opened ∧ e.send ≠ none

instance (s : RpiServer) (e : Env) : Decidable (Transmits s e) :=
  inferInstanceAs (Decidable (_ ∧ _ ∧ _))

/-- What the step transmits does not come behind a frame that is not whole. -/
def WholeBefore (s : RpiServer) (e : Env) : Prop :=
  Transmits s e → ∀ t ∈ transmissions s.sockPeer s.log, t.Whole

instance (s : RpiServer) (e : Env) : Decidable (WholeBefore s e) :=
  inferInstanceAs (Decidable (_ → _))

/-! ### What a step sends -/

variable {s : RpiServer} {e : Env}

theorem transmissions_append (sock : ℕ) (log log' : List Event) :
    transmissions sock (log ++ log') = transmissions sock log ++ transmissions sock log' :=
  List.filterMap_append

/-- The log grew by one send of a frame on the peer socket, which transmitted something exactly
if it could. -/
def Sent (s : RpiServer) (e : Env) (log : List Event) : Prop :=
  ∃ t : Transmission, IsFrame 4 t.string ∧
    (0 < t.bytes ↔ s.sockPeer ∈ s.opened ∧ e.send ≠ none) ∧
    ∀ sock, transmissions sock log =
      transmissions sock s.log ++ if s.sockPeer = sock then [t] else []

/-- The log grew by no send. -/
def Silent (s : RpiServer) (log : List Event) : Prop :=
  ∀ sock, transmissions sock log = transmissions sock s.log

theorem silent_step (hevents : ∀ sock, transmissions sock (s.events e) = []) :
    Silent s (s.step e).log := by
  intro sock
  rw [RpiServer.step_log, transmissions_append, hevents, List.append_nil]

/-- The send that ends the events of a step. -/
theorem sent_step {front : List Event} {kind : Kind} {buf : List UInt8} (hbuf : IsFrame 4 buf)
    (hevents : s.events e = front ++ [s.sentEvent kind buf e])
    (hfront : ∀ sock, transmissions sock front = []) : Sent s e (s.step e).log := by
  refine ⟨⟨buf, (s.sockSend e buf).getD 0⟩, hbuf, ?_, fun sock => ?_⟩
  · rw [Nat.pos_iff_ne_zero, ne_eq, RpiServer.sockSend_eq_zero, not_or, not_not]
  · have hlast : transmissions sock [s.sentEvent kind buf e] =
        if s.sockPeer = sock then [⟨buf, (s.sockSend e buf).getD 0⟩] else [] := by
      by_cases hpeer : s.sockPeer = sock <;> simp [transmissions, RpiServer.sentEvent, hpeer]
    rw [RpiServer.step_log, transmissions_append, hevents, transmissions_append, hfront,
      List.nil_append, hlast]

/-- **What one step puts on the connections**: one frame on the peer, or nothing. -/
theorem step_sends (s : RpiServer) (e : Env) :
    (sends s e = true ∧ Sent s e (s.step e).log) ∨
      (sends s e = false ∧ Silent s (s.step e).log) := by
  have hreading {k : ℕ} {c : ScriptCall} {rest : List ScriptCall} {bank : UInt32}
      (hc : c = .gpioGet_0_31 ∧ bank = 1 ∨ c = .gpioGet_32_53 ∧ bank = 2)
      (hp : s.phase = .script k (c :: rest)) (huntested : s.sendsUntested e = s.gpioReady) :
      (sends s e = true ∧ Sent s e (s.step e).log) ∨
        (sends s e = false ∧ Silent s (s.step e).log) := by
    have hevents := RpiServer.events_of_reading (e := e) hc hp
    cases hready : s.gpioReady with
    | true =>
        have hlast : s.events e =
            [.called k c] ++ [s.sentEvent .gpio (gpioMessage bank e.gpioRead) e] := by
          rw [hevents, if_pos hready]
          rfl
        refine Or.inl ⟨by simp [sends, huntested, hready], ?_⟩
        exact sent_step (gpioMessage_isFrame bank e.gpioRead) hlast fun sock => rfl
    | false =>
        rw [if_neg (ne_true_of_eq_false hready)] at hevents
        refine Or.inr ⟨by simp [sends, huntested, hready, hp], silent_step fun sock => ?_⟩
        rw [hevents]
        rfl
  cases hp : s.phase with
  | script k rest =>
      cases rest with
      | nil =>
          refine Or.inr ⟨by simp [sends, RpiServer.sendsUntested, hp], silent_step fun sock => ?_⟩
          simp only [RpiServer.events, hp]
          rfl
      | cons c rest =>
          cases c with
          | gpioGet_0_31 =>
              exact hreading (Or.inl ⟨rfl, rfl⟩) hp (by simp [RpiServer.sendsUntested, hp])
          | gpioGet_32_53 =>
              exact hreading (Or.inr ⟨rfl, rfl⟩) hp (by simp [RpiServer.sendsUntested, hp])
          | _ =>
              refine Or.inr ⟨by simp [sends, RpiServer.sendsUntested, hp],
                silent_step fun sock => ?_⟩
              simp only [RpiServer.events, hp]
              rfl
  | keepalive =>
      cases hdue : s.keepaliveDue e.now with
      | true =>
          refine Or.inl ⟨by simp [sends, RpiServer.sendsUntested, hp, hdue], ?_⟩
          have hevents : s.events e = [] ++ [s.sentEvent .keepAlive keepAliveMessage e] := by
            simp [RpiServer.events, hp, hdue]
          exact sent_step keepAliveMessage_isFrame hevents fun sock => rfl
      | false =>
          refine Or.inr ⟨by simp [sends, RpiServer.sendsUntested, hp, hdue],
            silent_step fun sock => ?_⟩
          simp [RpiServer.events, hp, hdue, transmissions]
  | video =>
      cases hframe : s.capturedFrame e with
      | some frame =>
          refine Or.inl ⟨by simp [sends, hp, hframe], ?_⟩
          have hevents : s.events e = [] ++ [s.sentEvent .jpeg frame e] := by
            simp [RpiServer.events, hp, hframe]
          exact sent_step (RpiServer.capturedFrame_isFrame hframe) hevents fun sock => rfl
      | none =>
          refine Or.inr ⟨by simp [sends, RpiServer.sendsUntested, hp, hframe],
            silent_step fun sock => ?_⟩
          simp [RpiServer.events, hp, hframe, transmissions]
  | poll =>
      refine Or.inr ⟨by simp [sends, RpiServer.sendsUntested, hp], silent_step fun sock => ?_⟩
      simp only [RpiServer.events, hp]
      split
      · split <;> rfl
      · rfl
  | receive | ret | stopped | hung | crashed =>
      refine Or.inr ⟨by simp [sends, RpiServer.sendsUntested, hp], silent_step fun sock => ?_⟩
      simp only [RpiServer.events, hp]
      rfl

/-! ### Runs -/

/-- The output but for the prefix, which follows (`sentBytes_prefix`). -/
def Inv (s : RpiServer) : Prop :=
  ∀ sock, (∀ t ∈ transmissions sock s.log, IsFrame 4 t.string) ∧ InOrder (transmissions sock s.log)

theorem Inv.outputFramed (h : Inv s) : OutputFramed s := fun sock =>
  ⟨(h sock).1, (h sock).2, sentBytes_prefix (h sock).2⟩

theorem inv_startup (gpioReady : Bool) (d : Device) (now later : ℤ) :
    Inv (RpiServer.startup gpioReady d now later) := fun _ =>
  ⟨fun _ ht => absurd ht List.not_mem_nil, List.Pairwise.nil⟩

theorem step_inv (s : RpiServer) (e : Env) (h : Inv s) (hwhole : WholeBefore s e) :
    Inv (s.step e) := by
  intro sock
  rcases step_sends s e with ⟨hsends, t, hframe, hbytes, hlog⟩ | ⟨-, hsilent⟩
  · rw [hlog sock]
    split
    · rename_i hpeer
      constructor
      · intro u hu
        rcases List.mem_append.mp hu with hold | hnew
        · exact (h sock).1 u hold
        · rw [List.mem_singleton.mp hnew]
          exact hframe
      · refine inOrder_concat.mpr ⟨(h sock).2, ?_⟩
        intro hpos
        rw [← hpeer]
        exact hwhole ⟨hsends, hbytes.mp hpos⟩
    · rw [List.append_nil]
      exact h sock
  · rw [hsilent sock]
    exact h sock

/-- A frame that starts behind one that is not whole breaks the framing of its connection. -/
theorem not_outputFramed_of_short (s : RpiServer) (e : Env) (_ : Inv s)
    (hwhole : ¬ WholeBefore s e) : ¬ OutputFramed (s.step e) := by
  obtain ⟨⟨hsends, hcan⟩, hshort⟩ := Classical.not_imp.mp hwhole
  intro hframed
  rcases step_sends s e with ⟨-, t, -, hbytes, hlog⟩ | ⟨hnone, -⟩
  · have horder := (hframed s.sockPeer).2.1
    rw [hlog s.sockPeer, if_pos rfl] at horder
    exact hshort ((inOrder_concat.mp horder).2 (hbytes.mpr hcan))
  · exact absurd (hsends.symm.trans hnone) (by decide)

/-- **The output stays framed** in every state of a run exactly if no step of it transmits on a
connection whose last frame is not whole. -/
theorem update_output_framed (gpioReady : Bool) (d : Device) (now later : ℤ) (es : List Env) :
    Always RpiServer.step OutputFramed (RpiServer.startup gpioReady d now later) es ↔
      Meets RpiServer.step WholeBefore (RpiServer.startup gpioReady d now later) es := by
  have hstart := inv_startup gpioReady d now later
  constructor
  · exact meets_of_always step_inv not_outputFramed_of_short hstart
  · intro hwhole
    exact (always_of_meets step_inv hstart hwhole).imp fun s h => h.outputFramed

/-- A script reads both banks; the first message goes out with three of its sixteen bytes, and
the second follows it. -/
theorem update_short_send :
    ¬ Always RpiServer.step OutputFramed (RpiServer.startup true .absent 0 0)
      [{ Env.idle with accept := some (0, true) }, .idle,
        { Env.idle with inbox := [59], evaluate := fun _ => [.gpioGet_0_31, .gpioGet_32_53] },
        { Env.idle with send := some 3 }, { Env.idle with send := some 16 }] := by
  intro h
  exact absurd (h.last 1).2.1 (by decide)

end MKart.Server.Output
