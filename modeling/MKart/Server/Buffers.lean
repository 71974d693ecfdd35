import MKart.Lib.Fifo
import MKart.Lib.Runs
import MKart.Server.V4L2

/-!
# The buffers of the capture device

`V4L2::capture` with the driver's queue of buffers, which `V4L2::grab` leaves out.  A `QBUF` of a
buffer that is queued fails, a `DQBUF` returns the oldest queued one, and a call that fails leaves
the queue as it is.

`capture` never asks which buffer `DQBUF` returned, and leaves a buffer in the queue when `QBUF`
works and `DQBUF` does not.  From then on the queue and `m_dev_buf_idx` are out of step: the next
capture reads a buffer it has just queued, or the one after it zeroes a queued one.  What is safe is
exactly a run in which at most one capture follows, and that one fails (`Harmless`).
-/

namespace MKart.Server

open MKart.Runs

/-- What one call of `capture` finds outside. -/
structure Attempt where
  /-- `RpiServer::is_connected`. -/
  connected : Bool
  /-- Whether `VIDIOC_QBUF` works on a buffer that is not queued. -/
  qbuf : Bool
  /-- The `bytesused` that `VIDIOC_DQBUF` reports of the buffer it returns, if it works. -/
  dqbuf : Option UInt32
  /-- What the buffers hold after that. -/
  memory : Fin 2 → ℕ → UInt8

/-- An access to the memory of a buffer, with the buffers that are queued at that time. -/
inductive Access
  | zero (buf : Fin 2) (queued : List (Fin 2))
  /-- A read, with the buffer that `VIDIOC_DQBUF` has returned. -/
  | read (buf returned : Fin 2) (queued : List (Fin 2))
  deriving DecidableEq, Repr

def Access.Safe : Access → Prop
  | .zero buf queued => buf ∉ queued
  | .read buf returned queued => buf = returned ∧ buf ∉ queued

instance : (a : Access) → Decidable a.Safe
  | .zero buf queued => inferInstanceAs (Decidable (buf ∉ queued))
  | .read buf returned queued => inferInstanceAs (Decidable (buf = returned ∧ buf ∉ queued))

/-- The object and the driver's queue. -/
structure Camera where
  v4l2 : V4L2
  driver : Fifo (Fin 2)

/-- What a call of `capture` leaves and does; it returns true if it has sent a frame. -/
structure Captured where
  camera : Camera
  accesses : List Access
  /-- The `bytesused` of the frame that is sent. -/
  sent : Option UInt32

inductive Call
  | capture (a : Attempt)
  | setCapturing (enabled : Bool)

namespace Camera

def qbuf (works : Bool) (i : Fin 2) (driver : Fifo (Fin 2)) : Option (Fifo (Fin 2)) :=
  if works then driver.enqueue i else none

def dqbuf (report : Option UInt32) (driver : Fifo (Fin 2)) :
    Option (UInt32 × Fin 2 × Fifo (Fin 2)) :=
  match report, driver.dequeue with
  | some bytesused, some (i, driver) => some (bytesused, i, driver)
  | _, _ => none

/-- `V4L2::capture`.  The data is read by `is_jpeg`, and once more to send it. -/
def capture (a : Attempt) (c : Camera) : Captured :=
  if !a.connected then ⟨c, [], none⟩
  else
    let idx := c.v4l2.nextIdx
    let v4l2 := { c.v4l2 with devBufIdx := idx }
    let zeroed := .zero idx c.driver.items
    match qbuf a.qbuf idx c.driver with
    | none => ⟨⟨v4l2, c.driver⟩, [zeroed], none⟩
    | some driver =>
        match dqbuf a.dqbuf driver with
        | none => ⟨⟨v4l2, driver⟩, [zeroed], none⟩
        | some (bytesused, returned, driver) =>
            let read := .read idx returned driver.items
            if V4L2.isJpeg (a.memory idx) then
              ⟨⟨v4l2, driver⟩, [zeroed, read, read], some bytesused⟩
            else ⟨⟨v4l2, driver⟩, [zeroed, read], none⟩

/-- `V4L2::startup` queues no buffer. -/
def start (d : Device) (now : ℤ) : Camera := ⟨(V4L2.construct.startup d now).1, Fifo.empty⟩

def step (c : Camera) : Call → Camera
  | .capture a => (c.capture a).camera
  | .setCapturing enabled => { c with v4l2 := c.v4l2.setCapturing enabled }

def accesses (c : Camera) : Call → List Access
  | .capture a => (c.capture a).accesses
  | .setCapturing _ => []

/-- The accesses of a call are safe. -/
def Safe (c : Camera) (call : Call) : Prop := ∀ x ∈ c.accesses call, x.Safe

instance (c : Camera) (call : Call) : Decidable (Safe c call) :=
  inferInstanceAs (Decidable (∀ x ∈ c.accesses call, x.Safe))

end Camera

/-- The attempt of a call that gets as far as the device. -/
def Call.attempt : Call → Option Attempt
  | .capture a => if a.connected then some a else none
  | .setCapturing _ => none

/-- The attempt, made on an empty queue, leaves its buffer there. -/
def Attempt.Strands (a : Attempt) : Prop := a.qbuf = true ∧ a.dqbuf = none

/-- Both calls work. -/
def Attempt.Works (a : Attempt) : Prop := a.qbuf = true ∧ a.dqbuf ≠ none

/-- At most one attempt follows the first that strands a buffer, and it does not work. -/
def Harmless : List Attempt → Prop
  | [] => True
  | a :: rest =>
      (a.Strands → rest.length ≤ 1 ∧ ∀ b ∈ rest, ¬ b.Works) ∧ (¬ a.Strands → Harmless rest)

namespace Camera

/-- The outcomes of an attempt, as `V4L2::grab` takes them. -/
def grabbed (a : Attempt) (c : Camera) : Grab where
  qbuf := (qbuf a.qbuf c.v4l2.nextIdx c.driver).isSome
  dqbuf := ((qbuf a.qbuf c.v4l2.nextIdx c.driver).bind (dqbuf a.dqbuf)).map Prod.fst
  memory := a.memory c.v4l2.nextIdx

/-- Without the queue, an attempt is a `grab`. -/
theorem grab_grabbed {a : Attempt} (c : Camera) (h : a.connected = true) :
    c.v4l2.grab (grabbed a c) = ((c.capture a).camera.v4l2, (c.capture a).sent) := by
  have hnext : c.v4l2.devBufIdx + 1 = c.v4l2.nextIdx := rfl
  cases hqbuf : qbuf a.qbuf c.v4l2.nextIdx c.driver with
  | none => simp [capture, grabbed, h, hqbuf, V4L2.grab, hnext]
  | some driver =>
      cases hdqbuf : dqbuf a.dqbuf driver with
      | none => simp [capture, grabbed, h, hqbuf, hdqbuf, V4L2.grab, hnext]
      | some r =>
          by_cases hjpeg : V4L2.isJpeg (a.memory c.v4l2.nextIdx) = true
          · simp [capture, grabbed, h, hqbuf, hdqbuf, hjpeg, V4L2.grab, hnext]
          · simp [capture, grabbed, h, hqbuf, hdqbuf, hjpeg, V4L2.grab, hnext]

/-! ### One call -/

variable {a : Attempt} {c : Camera} {call : Call}

theorem dqbuf_some {driver driver' : Fifo (Fin 2)} {i : Fin 2} (bytesused : UInt32)
    (h : driver.dequeue = some (i, driver')) :
    dqbuf (some bytesused) driver = some (bytesused, i, driver') := by
  simp [dqbuf, h]

theorem attempt_eq_some (h : call.attempt = some a) : call = .capture a ∧ a.connected = true := by
  cases call with
  | capture b =>
      by_cases hb : b.connected = true
      · rw [Call.attempt, if_pos hb] at h
        obtain rfl := Option.some.inj h
        exact ⟨rfl, hb⟩
      · rw [Call.attempt, if_neg hb] at h
        cases h
  | setCapturing enabled => cases h

/-- A call that does not get as far as the device touches neither the queue nor the index. -/
theorem step_of_attempt_none (h : call.attempt = none) :
    c.accesses call = [] ∧ (c.step call).driver = c.driver ∧
      (c.step call).v4l2.devBufIdx = c.v4l2.devBufIdx := by
  cases call with
  | capture a =>
      have hidle : a.connected = false := by
        by_contra hc
        rw [Call.attempt, if_pos (by simpa using hc)] at h
        cases h
      simp [accesses, step, capture, hidle]
  | setCapturing enabled => exact ⟨rfl, rfl, rfl⟩

/-- An attempt whose `QBUF` fails. -/
theorem capture_qbuf_none (h : a.connected = true)
    (hqbuf : qbuf a.qbuf c.v4l2.nextIdx c.driver = none) :
    (c.capture a).accesses = [.zero c.v4l2.nextIdx c.driver.items] ∧
      (c.capture a).camera.driver = c.driver ∧
      (c.capture a).camera.v4l2.devBufIdx = c.v4l2.nextIdx := by
  simp [capture, h, hqbuf]

/-- An attempt whose `DQBUF` fails. -/
theorem capture_dqbuf_none {driver : Fifo (Fin 2)} (h : a.connected = true)
    (hqbuf : qbuf a.qbuf c.v4l2.nextIdx c.driver = some driver)
    (hdqbuf : dqbuf a.dqbuf driver = none) :
    (c.capture a).accesses = [.zero c.v4l2.nextIdx c.driver.items] ∧
      (c.capture a).camera.driver = driver ∧
      (c.capture a).camera.v4l2.devBufIdx = c.v4l2.nextIdx := by
  simp [capture, h, hqbuf, hdqbuf]

/-- An attempt in which both calls work: every access behind the first is the same read. -/
theorem capture_dqbuf_some {driver driver' : Fifo (Fin 2)} {bytesused : UInt32} {returned : Fin 2}
    (h : a.connected = true)
    (hqbuf : qbuf a.qbuf c.v4l2.nextIdx c.driver = some driver)
    (hdqbuf : dqbuf a.dqbuf driver = some (bytesused, returned, driver')) :
    (∀ x, x ∈ (c.capture a).accesses ↔ x = .zero c.v4l2.nextIdx c.driver.items ∨
        x = .read c.v4l2.nextIdx returned driver'.items) ∧
      (c.capture a).camera.driver = driver' ∧
      (c.capture a).camera.v4l2.devBufIdx = c.v4l2.nextIdx := by
  by_cases hjpeg : V4L2.isJpeg (a.memory c.v4l2.nextIdx) = true
  · simp [capture, h, hqbuf, hdqbuf, hjpeg]
  · simp [capture, h, hqbuf, hdqbuf, hjpeg]

/-- Whatever the device does, an attempt zeroes the next buffer. -/
theorem capture_zeroes (h : a.connected = true) :
    .zero c.v4l2.nextIdx c.driver.items ∈ (c.capture a).accesses := by
  cases hqbuf : qbuf a.qbuf c.v4l2.nextIdx c.driver with
  | none =>
      rw [(capture_qbuf_none h hqbuf).1]
      exact List.mem_singleton_self _
  | some driver =>
      cases hdqbuf : dqbuf a.dqbuf driver with
      | none =>
          rw [(capture_dqbuf_none h hqbuf hdqbuf).1]
          exact List.mem_singleton_self _
      | some r => exact ((capture_dqbuf_some h hqbuf hdqbuf).1 _).mpr (Or.inl rfl)

theorem safe_of_accesses {x : Access} (haccesses : (c.capture a).accesses = [x]) (hx : x.Safe) :
    Safe c (.capture a) := by
  show ∀ y ∈ (c.capture a).accesses, y.Safe
  rw [haccesses]
  exact List.forall_mem_singleton.mpr hx

/-- The outcomes of an attempt whose buffer is not queued: `QBUF` fails, the buffer is stranded, or
the oldest buffer is returned. -/
theorem capture_cases (h : a.connected = true) (hnot : c.v4l2.nextIdx ∉ c.driver.items) :
    (c.capture a).camera.v4l2.devBufIdx = c.v4l2.nextIdx ∧
    ((a.qbuf = false ∧ Safe c (.capture a) ∧
        (c.capture a).camera.driver.items = c.driver.items) ∨
      (a.Strands ∧ Safe c (.capture a) ∧
        (c.capture a).camera.driver.items = c.driver.items ++ [c.v4l2.nextIdx]) ∨
      (a.Works ∧ ∃ returned, c.driver.items ++ [c.v4l2.nextIdx] =
          returned :: (c.capture a).camera.driver.items ∧
        (Safe c (.capture a) ↔ c.v4l2.nextIdx = returned ∧
          c.v4l2.nextIdx ∉ (c.capture a).camera.driver.items))) := by
  have hzero : Access.Safe (.zero c.v4l2.nextIdx c.driver.items) := hnot
  cases hworks : a.qbuf with
  | false =>
      have hqbuf : qbuf a.qbuf c.v4l2.nextIdx c.driver = none := by
        rw [hworks]
        rfl
      obtain ⟨haccesses, hdriver, hidx⟩ := capture_qbuf_none h hqbuf
      exact ⟨hidx, Or.inl ⟨rfl, safe_of_accesses haccesses hzero, by rw [hdriver]⟩⟩
  | true =>
      obtain ⟨driver, returned, driver', henqueue, hitems, hdequeue, holdest⟩ :=
        Fifo.enqueue_dequeue hnot
      have hqbuf : qbuf a.qbuf c.v4l2.nextIdx c.driver = some driver := by
        rw [hworks, ← henqueue]
        rfl
      cases hreport : a.dqbuf with
      | none =>
          have hdqbuf : dqbuf a.dqbuf driver = none := by
            rw [hreport]
            rfl
          obtain ⟨haccesses, hdriver, hidx⟩ := capture_dqbuf_none h hqbuf hdqbuf
          exact ⟨hidx, Or.inr (Or.inl ⟨⟨hworks, hreport⟩, safe_of_accesses haccesses hzero,
            by rw [hdriver, hitems]⟩)⟩
      | some bytesused =>
          have hdqbuf : dqbuf a.dqbuf driver = some (bytesused, returned, driver') := by
            rw [hreport]
            exact dqbuf_some bytesused hdequeue
          obtain ⟨haccesses, hdriver, hidx⟩ := capture_dqbuf_some h hqbuf hdqbuf
          have hfound : a.dqbuf ≠ none := by
            rw [hreport]
            exact Option.some_ne_none bytesused
          refine ⟨hidx, Or.inr (Or.inr ⟨⟨hworks, hfound⟩, returned, hdriver ▸ holdest, ?_⟩)⟩
          rw [hdriver]
          constructor
          · exact fun hsafe => hsafe _ ((haccesses _).mpr (Or.inr rfl))
          · intro hread x hx
            rcases (haccesses x).mp hx with rfl | rfl
            · exact hzero
            · exact hread

/-! ### The states between calls -/

/-- The queue is empty. -/
def Idle (c : Camera) : Prop := c.driver.items = []

/-- The queue holds the buffer of the last attempt. -/
def Stranded (c : Camera) : Prop := c.driver.items = [c.v4l2.devBufIdx]

/-- The queue holds the buffer of the next attempt. -/
def Blocked (c : Camera) : Prop := c.v4l2.nextIdx ∈ c.driver.items

theorem not_works_of_strands (h : a.Strands) : ¬ a.Works := fun hw => hw.2 h.2

theorem not_strands_of_qbuf (h : a.qbuf = false) : ¬ a.Strands ∧ ¬ a.Works := by
  constructor
  · exact fun hs => Bool.false_ne_true (h.symm.trans hs.1)
  · exact fun hw => Bool.false_ne_true (h.symm.trans hw.1)

/-- On an empty queue every attempt is safe, and empties the queue unless its `DQBUF` fails. -/
theorem idle_attempt (hc : Idle c) (h : a.connected = true) :
    Safe c (.capture a) ∧ (a.Strands → Stranded (c.capture a).camera) ∧
      (¬ a.Strands → Idle (c.capture a).camera) := by
  have hnot : c.v4l2.nextIdx ∉ c.driver.items := by
    rw [hc]
    exact List.not_mem_nil
  obtain ⟨hidx, ⟨hqbuf, hsafe, hitems⟩ | ⟨hstrands, hsafe, hitems⟩ |
    ⟨hworks, returned, hitems, hsafe⟩⟩ := capture_cases h hnot
  · exact ⟨hsafe, fun hs => absurd hs (not_strands_of_qbuf hqbuf).1, fun _ => hitems.trans hc⟩
  · refine ⟨hsafe, fun _ => ?_, fun hs => absurd hstrands hs⟩
    rw [Stranded, hitems, hidx, hc, List.nil_append]
  · rw [hc, List.nil_append] at hitems
    obtain ⟨hreturned, hempty⟩ := List.cons.inj hitems
    refine ⟨hsafe.mpr ⟨hreturned, ?_⟩, fun hs => absurd hworks (not_works_of_strands hs),
      fun _ => hempty.symm⟩
    rw [← hempty]
    exact List.not_mem_nil

/-- Behind a stranded buffer an attempt that works reads the wrong buffer; one that fails is safe,
and has the next buffer queued. -/
theorem stranded_attempt (hc : Stranded c) (h : a.connected = true) :
    (a.Works → ¬ Safe c (.capture a)) ∧
      (¬ a.Works → Safe c (.capture a) ∧ Blocked (c.capture a).camera) := by
  have hnot : c.v4l2.nextIdx ∉ c.driver.items := by
    rw [hc, List.mem_singleton]
    exact c.v4l2.nextIdx_ne
  obtain ⟨hidx, ⟨hqbuf, hsafe, hitems⟩ | ⟨hstrands, hsafe, hitems⟩ |
    ⟨hworks, returned, hitems, hsafe⟩⟩ := capture_cases h hnot
  · refine ⟨fun hw => absurd hw (not_strands_of_qbuf hqbuf).2, fun _ => ⟨hsafe, ?_⟩⟩
    rw [Blocked, V4L2.nextIdx_next hidx, hitems, hc]
    exact List.mem_singleton_self _
  · refine ⟨fun hw => absurd hw (not_works_of_strands hstrands), fun _ => ⟨hsafe, ?_⟩⟩
    rw [Blocked, V4L2.nextIdx_next hidx, hitems, hc]
    exact List.mem_cons_self
  · rw [hc, List.singleton_append] at hitems
    have hreturned : c.v4l2.devBufIdx = returned := (List.cons.inj hitems).1
    refine ⟨fun _ hs => ?_, fun hw => absurd hworks hw⟩
    exact c.v4l2.nextIdx_ne ((hsafe.mp hs).1.trans hreturned.symm)

/-- Before a queued buffer every attempt zeroes it. -/
theorem blocked_attempt (hc : Blocked c) (h : a.connected = true) : ¬ Safe c (.capture a) :=
  fun hsafe => hsafe _ (capture_zeroes h) hc

/-! ### Runs -/

/-- A call that does not get as far as the device is safe. -/
theorem meets_of_attempt_none {calls : List Call} (h : call.attempt = none) :
    Meets step Safe c (call :: calls) ↔ Meets step Safe (c.step call) calls := by
  refine and_iff_right ?_
  rw [Safe, (step_of_attempt_none h).1]
  exact fun x hx => absurd hx List.not_mem_nil

theorem meets_blocked {calls : List Call} (hc : Blocked c) :
    Meets step Safe c calls ↔ calls.filterMap Call.attempt = [] := by
  induction calls generalizing c with
  | nil => exact ⟨fun _ => rfl, fun _ => trivial⟩
  | cons call calls ih =>
      cases hattempt : call.attempt with
      | none =>
          obtain ⟨-, hdriver, hidx⟩ := step_of_attempt_none (c := c) hattempt
          have hnext : Blocked (c.step call) := by
            rw [Blocked, V4L2.nextIdx, hdriver, hidx]
            exact hc
          rw [List.filterMap_cons_none hattempt, meets_of_attempt_none hattempt, ih hnext]
      | some a =>
          obtain ⟨rfl, hconn⟩ := attempt_eq_some hattempt
          rw [List.filterMap_cons_some hattempt]
          exact ⟨fun h => absurd h.1 (blocked_attempt hc hconn), fun h => by cases h⟩

theorem meets_stranded {calls : List Call} (hc : Stranded c) :
    Meets step Safe c calls ↔ (calls.filterMap Call.attempt).length ≤ 1 ∧
      ∀ b ∈ calls.filterMap Call.attempt, ¬ b.Works := by
  induction calls generalizing c with
  | nil =>
      exact ⟨fun _ => ⟨Nat.zero_le 1, fun b hb => absurd hb List.not_mem_nil⟩, fun _ => trivial⟩
  | cons call calls ih =>
      cases hattempt : call.attempt with
      | none =>
          obtain ⟨-, hdriver, hidx⟩ := step_of_attempt_none (c := c) hattempt
          have hnext : Stranded (c.step call) := by
            rw [Stranded, hdriver, hidx]
            exact hc
          rw [List.filterMap_cons_none hattempt, meets_of_attempt_none hattempt, ih hnext]
      | some a =>
          obtain ⟨rfl, hconn⟩ := attempt_eq_some hattempt
          obtain ⟨hwrong, hfails⟩ := stranded_attempt hc hconn
          rw [List.filterMap_cons_some hattempt, List.forall_mem_cons, List.length_cons]
          constructor
          · intro h
            have hworks : ¬ a.Works := fun hw => hwrong hw h.1
            rw [(meets_blocked (hfails hworks).2).mp h.2]
            exact ⟨le_rfl, hworks, fun b hb => absurd hb List.not_mem_nil⟩
          · intro h
            obtain ⟨hsafe, hblocked⟩ := hfails h.2.1
            exact ⟨hsafe, (meets_blocked hblocked).mpr (List.length_eq_zero_iff.mp (by omega))⟩

theorem meets_idle {calls : List Call} (hc : Idle c) :
    Meets step Safe c calls ↔ Harmless (calls.filterMap Call.attempt) := by
  induction calls generalizing c with
  | nil => exact Iff.rfl
  | cons call calls ih =>
      cases hattempt : call.attempt with
      | none =>
          obtain ⟨-, hdriver, -⟩ := step_of_attempt_none (c := c) hattempt
          have hnext : Idle (c.step call) := by
            rw [Idle, hdriver]
            exact hc
          rw [List.filterMap_cons_none hattempt, meets_of_attempt_none hattempt, ih hnext]
      | some a =>
          obtain ⟨rfl, hconn⟩ := attempt_eq_some hattempt
          obtain ⟨hsafe, hstranded, hidle⟩ := idle_attempt hc hconn
          rw [List.filterMap_cons_some hattempt]
          by_cases hstrands : a.Strands
          · rw [Harmless, ← meets_stranded (hstranded hstrands)]
            exact ⟨fun h => ⟨fun _ => h.2, fun hn => absurd hstrands hn⟩,
              fun h => ⟨hsafe, h.1 hstrands⟩⟩
          · rw [Harmless, ← ih (hidle hstrands)]
            exact ⟨fun h => ⟨fun hs => absurd hs hstrands, fun _ => h.2⟩,
              fun h => ⟨hsafe, h.2 hstrands⟩⟩

/-- **A run touches no buffer that the driver holds, and reads what `DQBUF` returned, exactly if at
most one attempt follows the first that strands its buffer, and that one does not work.** -/
theorem safe_iff_harmless (d : Device) (now : ℤ) (calls : List Call) :
    Meets step Safe (start d now) calls ↔ Harmless (calls.filterMap Call.attempt) :=
  meets_idle rfl

/-- A `DQBUF` that fails, and then a capture that works: it reads buffer 0 while `DQBUF` has
returned buffer 1. -/
theorem dqbuf_failure_unsafe :
    ¬ Meets step Safe (start Device.camera 0)
      [.capture ⟨true, true, none, fun _ _ => 0⟩, .setCapturing false, .setCapturing true,
        .capture ⟨true, true, some 4, fun _ => Grab.jpeg.memory⟩] := by
  decide

end Camera

end MKart.Server
