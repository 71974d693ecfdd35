import MKart.Lib.Runs
import MKart.Server.Events

/-!
# What becomes of received texts

Along any run, the calls logged for a socket are those that the interpreter makes of the texts
received on it, text by text and in order (`called_run`).  A text whose evaluation fails leads to
the calls in front of the failure (`tried`): there the machine stops (`hung_of_failed`).
-/

namespace MKart.Server.Scripts

open MKart.Runs RpiServer

/-- The calls made by scripts that were received on `sock`. -/
def called (sock : ℕ) (log : List Event) : List ScriptCall :=
  log.filterMap fun
    | .called k c => if k = sock then some c else none
    | _ => none

/-- The calls that a script received on `sock` has still to make. -/
def toCall (sock : ℕ) : Phase → List ScriptCall
  | .script k rest => if k = sock then rest else []
  | _ => []

/-- The call that a step in a script received on `sock` makes. -/
def calledIn (sock : ℕ) : Phase → List ScriptCall
  | .script k (c :: _) => if k = sock then [c] else []
  | _ => []

/-- Of the calls of a text, those that come about: one that fails is the last. -/
def tried (gpioReady : Bool) : List ScriptCall → List ScriptCall
  | [] => []
  | c :: cs => c :: if c.registered gpioReady then tried gpioReady cs else []

/-- The bytes that a step receives on `sock` and hands to the interpreter. -/
def received (sock : ℕ) (s : RpiServer) (e : Env) : Option (List UInt8) :=
  if s.phase = .receive ∧ s.sockPeer = sock ∧ (s.available e).length ≠ 0 then
    receiveAll (readSizes (s.available e).length) e.receives (s.available e)
  else none

/-- What `receive_commands` receives on `sock` in the steps of a run, call by call. -/
def receipts (sock : ℕ) : RpiServer → List Env → List (Env × List UInt8)
  | _, [] => []
  | s, e :: es => ((received sock s e).map (e, ·)).toList ++ receipts sock (s.step e) es

/-- What the interpreter makes of a receipt. -/
def evaluated (r : Env × List UInt8) : List ScriptCall := r.1.evaluate (scriptText r.2)

variable {sock : ℕ} {s : RpiServer} {e : Env}

theorem called_append (log new : List Event) :
    called sock (log ++ new) = called sock log ++ called sock new := List.filterMap_append

/-- A receive yields nothing, and may give the peer up, or it yields a script. -/
theorem step_receive (hp : s.phase = .receive) (e : Env) :
    (received s.sockPeer s e = none ∧
      (s.step e = { s with phase := .keepalive } ∨
        s.step e = { s.waitForConnection e.now with phase := .keepalive })) ∨
    ∃ bytes, received s.sockPeer s e = some bytes ∧
      s.step e = { s with phase := .script s.sockPeer (e.evaluate (scriptText bytes)) } := by
  have hstep : s.step e = s.receiveCommands e := by simp only [RpiServer.step, hp]
  rw [hstep]
  rcases s.receiveCommands_cases e with ⟨havail, h⟩ | ⟨havail, ⟨hall, h⟩ | ⟨bytes, hall, h⟩⟩
  · exact Or.inl ⟨by simp [received, havail], Or.inl h⟩
  · exact Or.inl ⟨by simp [received, hall], Or.inr h⟩
  · exact Or.inr ⟨bytes, by simp [received, hp, havail, hall], h⟩

/-- A step makes the next call of the script it is in. -/
theorem called_events (sock : ℕ) (s : RpiServer) (e : Env) :
    called sock (s.events e) = calledIn sock s.phase := by
  cases hp : s.phase with
  | poll =>
      simp only [events, hp, calledIn]
      split
      · split <;> rfl
      · rfl
  | script k rest =>
      cases rest with
      | nil => simp only [events, hp, calledIn]; rfl
      | cons c rest =>
          have hcall : called sock [.called k c] = calledIn sock (.script k (c :: rest)) := by
            by_cases hk : k = sock <;> simp [called, calledIn, hk]
          simp only [events, hp, callEvents]
          rw [← List.singleton_append, called_append, hcall]
          split
          · split <;> simp [called, sentEvent]
          · split <;> simp [called, sentEvent]
          · exact List.append_nil _
  | keepalive =>
      simp only [events, hp, calledIn]
      split <;> rfl
  | video =>
      simp only [events, hp, calledIn]
      cases s.capturedFrame e <;> rfl
  | receive | ret | stopped | hung | crashed => simp only [events, hp, calledIn]; rfl

theorem called_step (sock : ℕ) (s : RpiServer) (e : Env) :
    called sock (s.step e).log = called sock s.log ++ calledIn sock s.phase := by
  rw [step_log, called_append, called_events]

/-- A step adds to what is to be called what the interpreter makes of a received text. -/
theorem toCall_step (sock : ℕ) (s : RpiServer) (e : Env) (gpioReady : Bool)
    (hready : s.gpioReady = gpioReady) :
    calledIn sock s.phase ++ tried gpioReady (toCall sock (s.step e).phase) =
      tried gpioReady (toCall sock s.phase) ++
        ((received sock s e).map (e, ·)).toList.flatMap fun r => tried gpioReady (evaluated r) := by
  subst hready
  cases hp : s.phase with
  | receive =>
      by_cases hsock : s.sockPeer = sock
      · subst hsock
        rcases step_receive hp e with ⟨hnone, h | h⟩ | ⟨bytes, hbytes, h⟩
        · rw [h, hnone]
          rfl
        · rw [h, hnone]
          rfl
        · rw [h, hbytes]
          simp [calledIn, toCall, tried, evaluated]
      · have hnone : received sock s e = none := by simp [received, hsock]
        rw [hnone]
        rcases step_receive hp e with ⟨-, h | h⟩ | ⟨bytes, -, h⟩ <;> rw [h] <;>
          simp [calledIn, toCall, tried, hsock]
  | poll =>
      have hreceived : received sock s e = none := by simp [received, hp]
      simp only [RpiServer.step, hp, hreceived, calledIn]
      cases e.accept with
      | none => cases hstate : s.state <;> simp [toCall, tried]
      | some a =>
          rcases completeAccept_phase a.1 a.2 e.now s with h | h <;> simp [h, hp, toCall, tried]
  | script k rest =>
      have hreceived : received sock s e = none := by simp [received, hp]
      cases rest with
      | nil => simp [RpiServer.step, hp, hreceived, calledIn, toCall, tried]
      | cons c rest =>
          simp only [RpiServer.step, hp, hreceived, calledIn]
          rcases call_phase k c e { s with phase := .script k rest } with ⟨hreg, h⟩ | ⟨hreg, h⟩
          · rw [h]
            by_cases hk : k = sock
            · simp [toCall, tried, hk, hreg]
            · simp [toCall, tried, hk]
          · rw [h]
            by_cases hk : k = sock
            · simp [toCall, tried, hk, hreg]
            · simp [toCall, tried, hk]
  | keepalive =>
      have hreceived : received sock s e = none := by simp [received, hp]
      simp only [RpiServer.step, hp, hreceived, calledIn]
      simp [toCall, tried]
  | video =>
      have hreceived : received sock s e = none := by simp [received, hp]
      simp only [RpiServer.step, hp, hreceived, calledIn]
      rcases v4l2Update_phase e { s with phase := .ret } with h | h <;> simp [h, toCall, tried]
  | ret =>
      have hreceived : received sock s e = none := by simp [received, hp]
      simp only [RpiServer.step, hp, hreceived, RpiServer.ret, calledIn]
      split <;> simp [toCall, tried]
  | stopped | hung | crashed => simp [RpiServer.step, hp, received, calledIn]

theorem tried_of_registered {gpioReady : Bool} {cs : List ScriptCall}
    (h : ∀ c ∈ cs, c.registered gpioReady = true) : tried gpioReady cs = cs := by
  induction cs with
  | nil => rfl
  | cons c cs ih =>
      rw [tried, if_pos (h c List.mem_cons_self), ih fun d hd => h d (List.mem_cons_of_mem _ hd)]

/-- Of the calls that come about, those of registered functions are those in front of a failure. -/
theorem filter_tried (gpioReady : Bool) (cs : List ScriptCall) :
    (tried gpioReady cs).filter (·.registered gpioReady) =
      cs.takeWhile (·.registered gpioReady) := by
  induction cs with
  | nil => rfl
  | cons c cs ih => cases hreg : c.registered gpioReady <;> simp [tried, hreg, ih]

/-- **Along a run the calls made and to be made are those of the received texts.** -/
theorem called_run (sock : ℕ) (s : RpiServer) (es : List Env) :
    called sock (run RpiServer.step s es).log ++
        tried s.gpioReady (toCall sock (run RpiServer.step s es).phase) =
      called sock s.log ++ tried s.gpioReady (toCall sock s.phase) ++
        (receipts sock s es).flatMap fun r => tried s.gpioReady (evaluated r) := by
  induction es generalizing s with
  | nil => simp [receipts]
  | cons e es ih =>
      have hrun := ih (s.step e)
      rw [step_gpioReady] at hrun
      rw [run_cons, hrun, called_step, List.append_assoc (called sock s.log),
        toCall_step sock s e s.gpioReady rfl, receipts, List.flatMap_append]
      simp only [List.append_assoc]

/-- Behind a call that has failed nothing happens. -/
theorem hung_of_failed {s : RpiServer} (es : List Env) (hlog : s.log = []) {sock : ℕ}
    {c : ScriptCall} (hcalled : .called sock c ∈ (run RpiServer.step s es).log)
    (hfailed : c.registered s.gpioReady = false) : (run RpiServer.step s es).phase = .hung := by
  have hstep : ∀ (t : RpiServer) (e : Env),
      (t.gpioReady = s.gpioReady ∧ (.called sock c ∈ t.log → t.phase = .hung)) →
        (t.step e).gpioReady = s.gpioReady ∧
          (.called sock c ∈ (t.step e).log → (t.step e).phase = .hung) := by
    rintro t e ⟨hready, hhung⟩
    refine ⟨(step_gpioReady t e).trans hready, fun hmem => ?_⟩
    rw [step_log] at hmem
    rcases List.mem_append.mp hmem with hold | hnew
    · simp only [RpiServer.step, hhung hold]
    · obtain ⟨rest, hp⟩ := of_called_mem_events hnew
      rcases call_phase sock c e { t with phase := .script sock rest } with ⟨hreg, -⟩ | ⟨-, h⟩
      · rw [← hready] at hfailed
        exact absurd (hreg.symm.trans hfailed) (by decide)
      · simp only [RpiServer.step, hp, h]
  have hrun : Always RpiServer.step _ s es := always_of_step hstep ⟨rfl, by simp [hlog]⟩
  exact hrun.last.2 hcalled

/-! ### What one receive yields -/

theorem receiveAll_nil (ns : List ℕ) (inbox : List UInt8) :
    receiveAll ns [] inbox = some (inbox.take ns.sum) := by
  induction ns generalizing inbox with
  | nil => simp [receiveAll]
  | cons n ns ih => simp [receiveAll, ih, List.take_add]

theorem readSizes_sum (avail : ℕ) : (readSizes avail).sum = avail := by
  simp only [readSizes, List.sum_append, List.sum_replicate_nat, List.sum_singleton]
  omega

/-- If no call yields less than it asks for, what is received without an error is all there is. -/
theorem eq_of_receiveAll {ks : List (Option ℕ)} {inbox bytes : List UInt8}
    (hks : ∀ k ∈ ks, k = none)
    (h : receiveAll (readSizes inbox.length) ks inbox = some bytes) : bytes = inbox := by
  cases ks with
  | nil =>
      rw [receiveAll_nil, readSizes_sum, List.take_length] at h
      exact (Option.some.inj h).symm
  | cons k ks =>
      rw [hks k List.mem_cons_self] at h
      cases hns : readSizes inbox.length with
      | nil => exact absurd hns (by simp [readSizes])
      | cons n ns =>
          rw [hns] at h
          cases h

end MKart.Server.Scripts
