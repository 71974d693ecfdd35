import MKart.Lib.Runs
import MKart.Server.Resources
import MKart.Server.RpiServer

/-!
# The memory that a capture touches

`V4L2::capture` zeroes its buffer, reads the header of what the device put there, and copies it out,
without a test that `startup` got as far as mapping the buffer.  It touches mapped memory only,
because a buffer that is not mapped has length 0, and the device puts nothing anywhere before
`startup` has mapped both buffers (`touches_mapped`).
-/

namespace MKart.Server

open MKart.Runs

/-- An access of `capture` to the memory at an address. -/
inductive Touch
  | memset (ptr : ℕ) (sz : UInt32)
  | header (ptr : ℕ)
  | copy (ptr : ℕ) (len : UInt32)
  deriving DecidableEq, Repr

/-- The address is one of the mapped ones, and what is zeroed is the whole mapping, or nothing. -/
def Touch.Mapped (maps : List HWBuffer) : Touch → Prop
  | .memset ptr sz => sz ≠ 0 → ⟨ptr, sz⟩ ∈ maps
  | .header ptr => ptr ∈ maps.map HWBuffer.ptr
  | .copy ptr _ => ptr ∈ maps.map HWBuffer.ptr

/-- What one call of `V4L2::update` finds. -/
structure Refresh where
  now : ℤ
  later : ℤ
  connected : Bool
  grab : Grab

/-- The calls on the object after its `startup`. -/
inductive Turn
  | setCapturing (enabled : Bool)
  | update (r : Refresh)

namespace V4L2

/-- `V4L2::capture`. -/
def capture (r : Refresh) (v : V4L2) : V4L2 × Bool :=
  if !r.connected then (v, false) else ((v.grab r.grab).1, (v.grab r.grab).2.isSome)

/-- `V4L2::update`. -/
def update (r : Refresh) (v : V4L2) : V4L2 :=
  if v.due r.now then
    let captured := v.capture r
    let v := if captured.2 then captured.1 else captured.1.setCapturing false
    { v with lastTime := r.later }
  else v

def turn (v : V4L2) : Turn → V4L2
  | .setCapturing enabled => v.setCapturing enabled
  | .update r => v.update r

/-- The accesses of `V4L2::capture` behind its test for a connection. -/
def captureTouches (g : Grab) (v : V4L2) : List Touch :=
  let curBuf := v.devBuf v.nextIdx
  let received :=
    match g.qbuf, g.dqbuf with
    | true, some bytesused =>
        .header curBuf.ptr :: if isJpeg g.memory then [.copy curBuf.ptr bytesused] else []
    | _, _ => []
  .memset curBuf.ptr curBuf.sz :: received

def touches (v : V4L2) : Turn → List Touch
  | .setCapturing _ => []
  | .update r => if v.due r.now && r.connected then v.captureTouches r.grab else []

end V4L2

/-- `VIDIOC_DQBUF` succeeds, where it is called. -/
def Grab.Dequeues (g : Grab) : Prop := g.qbuf = true ∧ g.dqbuf ≠ none

namespace V4L2

variable {v : V4L2} {maps : List HWBuffer} {streams : Bool} {d : Device} {t : Traced}

/-! ### The buffers stay where they are -/

theorem grab_devBuf (g : Grab) (v : V4L2) : (v.grab g).1.devBuf = v.devBuf := by
  rw [grab_fst]

theorem turn_devBuf (v : V4L2) (t : Turn) : (v.turn t).devBuf = v.devBuf := by
  cases t with
  | setCapturing enabled => rfl
  | update r =>
      rw [turn, update, capture]
      split
      · split
        · rfl
        · dsimp only
          split
          · exact grab_devBuf r.grab v
          · exact grab_devBuf r.grab v
      · rfl

/-! ### What a capture touches -/

/-- A buffer is a mapped one, or empty. -/
theorem devBuf_mem (h : Traced.Filled v.devBuf maps) {i : Fin 2} (hsz : (v.devBuf i).sz ≠ 0) :
    v.devBuf i ∈ maps := by
  rw [h.holds i] at hsz ⊢
  rcases Nat.lt_or_ge i maps.length with hlt | hge
  · rw [List.getD_eq_getElem _ _ hlt]
    exact List.getElem_mem hlt
  · rw [List.getD_eq_default _ _ hge] at hsz
    exact absurd rfl hsz

/-- With both buffers mapped, each is a mapped one. -/
theorem devBuf_mem_of_length (h : Traced.Filled v.devBuf maps) (hboth : maps.length = 2)
    (i : Fin 2) : v.devBuf i ∈ maps := by
  have hlt : (i : ℕ) < maps.length := by
    rw [hboth]
    exact i.isLt
  rw [h.holds i, List.getD_eq_getElem _ _ hlt]
  exact List.getElem_mem hlt

/-- **A capture touches mapped memory**, provided that the device fills a buffer only if both are
mapped. -/
theorem captureTouches_mapped (h : Traced.Filled v.devBuf maps) {g : Grab}
    (hdqbuf : g.Dequeues → maps.length = 2) : ∀ x ∈ v.captureTouches g, x.Mapped maps := by
  intro x hx
  rw [captureTouches, List.mem_cons] at hx
  rcases hx with rfl | hx
  · exact fun hsz => devBuf_mem h hsz
  · split at hx
    · rename_i bytesused hqbuf hsome
      have hboth := hdqbuf ⟨hqbuf, by rw [hsome]; exact Option.some_ne_none bytesused⟩
      have hptr : (v.devBuf v.nextIdx).ptr ∈ maps.map HWBuffer.ptr :=
        List.mem_map_of_mem (devBuf_mem_of_length h hboth v.nextIdx)
      rcases List.mem_cons.mp hx with rfl | hx
      · exact hptr
      · split at hx
        · obtain rfl := List.mem_singleton.mp hx
          exact hptr
        · exact absurd hx List.not_mem_nil
    · exact absurd hx List.not_mem_nil

/-- In this turn the device is asked for a buffer, and dequeues one. -/
def Dequeues (v : V4L2) : Turn → Prop
  | .setCapturing _ => False
  | .update r => (v.due r.now && r.connected) = true ∧ r.grab.Dequeues

theorem touches_of_filled (h : Traced.Filled v.devBuf maps) {u : Turn}
    (hdqbuf : v.Dequeues u → maps.length = 2) : ∀ x ∈ v.touches u, x.Mapped maps := by
  cases u with
  | setCapturing enabled => exact fun x hx => absurd hx List.not_mem_nil
  | update r =>
      rw [touches]
      split
      · rename_i hcapture
        exact captureTouches_mapped h fun hgrab => hdqbuf ⟨hcapture, hgrab⟩
      · exact fun x hx => absurd hx List.not_mem_nil

/-- The buffers that `startup` has mapped. -/
def mappedBy (d : Device) (now : ℤ) : List HWBuffer :=
  (Traced.start d now).calls.filterMap DeviceCall.mapped

/-- `startup` has turned the stream on. -/
def Streams (d : Device) (now : ℤ) : Prop := .streamOn ∈ (Traced.start d now).calls

/-- What `startup` leaves: the buffers that are mapped, and both of them before the stream. -/
theorem startup_filled (d : Device) (now : ℤ) :
    Traced.Filled (construct.startup d now).1.devBuf (mappedBy d now) ∧
      (Streams d now → (mappedBy d now).length = 2) := by
  obtain ⟨maps, streams, h⟩ := Traced.start_started d now
  have hv4l2 := congrArg Prod.fst (Traced.startup_v4l2 d now ⟨construct, []⟩)
  rw [mappedBy, h.mapped_eq]
  refine ⟨?_, fun hon => h.streams ?_⟩
  · rw [← hv4l2]
    exact h.filled
  · rw [Streams, h.calls] at hon
    cases streams with
    | true => rfl
    | false =>
        split at hon <;> simp at hon

/-- **After every `startup`, captures touch mapped memory only**, on a device that dequeues
buffers only if `STREAMON` succeeded. -/
theorem touches_mapped (d : Device) (now : ℤ) (turns : List Turn)
    (hdqbuf : Meets turn (fun v u => v.Dequeues u → Streams d now)
      (construct.startup d now).1 turns) :
    Meets turn (fun v u => ∀ x ∈ v.touches u, x.Mapped (mappedBy d now))
      (construct.startup d now).1 turns := by
  obtain ⟨hfilled, hboth⟩ := startup_filled d now
  have hkeep : ∀ (v : V4L2) (u : Turn), Traced.Filled v.devBuf (mappedBy d now) →
      Traced.Filled (v.turn u).devBuf (mappedBy d now) := by
    intro v u hv
    rw [turn_devBuf]
    exact hv
  apply Meets.imp hkeep _ hfilled hdqbuf
  intro v u hv hstream
  exact touches_of_filled hv fun hdequeues => hboth (hstream hdequeues)

/-- A capture from the camera. -/
theorem touches_mapped_camera :
    Meets turn (fun v u => ∀ x ∈ v.touches u, x.Mapped (mappedBy .camera 0))
      (construct.startup .camera 0).1
      [.setCapturing true, .update ⟨200000000, 200000000, true, .jpeg⟩] := by
  have hstreams : Streams .camera 0 := by
    unfold Streams
    decide
  exact touches_mapped .camera 0 _ ⟨fun _ => hstreams, fun _ => hstreams, trivial⟩

end V4L2

namespace RpiServer

variable {s : RpiServer} {e : Env}

/-! ### The server -/

/-- What the call of `V4L2::update` in this step finds. -/
def refresh (s : RpiServer) (e : Env) : Refresh := ⟨e.now, e.later, s.isConnected, e.device⟩

theorem capture_v4l2 {r : RpiServer × Bool} (h : s.capture e = some r) :
    (r.1.v4l2, r.2) = s.v4l2.capture (s.refresh e) := by
  rw [V4L2.capture, refresh]
  cases hconn : s.isConnected with
  | false =>
      rw [capture, hconn] at h
      obtain rfl := Option.some.inj h
      rfl
  | true =>
      have hstate : s.state = .connected := by simpa [isConnected] using hconn
      rw [capture_connected e hstate] at h
      cases hgrab : (s.v4l2.grab e.device).2 with
      | none =>
          rw [hgrab] at h
          obtain rfl := Option.some.inj h
          rfl
      | some bytesused =>
          rw [hgrab] at h
          obtain ⟨sentBuf, -, rfl⟩ := Option.map_eq_some_iff.mp h
          rw [send_v4l2]
          rfl

/-- The object is updated as on its own, unless the server crashes. -/
theorem v4l2Update_v4l2 (s : RpiServer) (e : Env) :
    (s.v4l2Update e).v4l2 = s.v4l2 ∨ (s.v4l2Update e).v4l2 = s.v4l2.update (s.refresh e) := by
  rw [v4l2Update]
  split
  · rename_i hdue
    cases hcapture : s.capture e with
    | none => exact Or.inl rfl
    | some r =>
        have hr := capture_v4l2 hcapture
        rw [V4L2.update, refresh, if_pos hdue]
        refine Or.inr ?_
        dsimp only
        rw [← refresh, ← hr]
  · exact Or.inl rfl

theorem completeAccept_v4l2 (i : ℕ) (ok : Bool) (now : ℤ) (s : RpiServer) :
    (s.completeAccept i ok now).v4l2 = s.v4l2 := by
  rcases s.completeAccept_cases i ok now with
    ⟨-, h⟩ | ⟨target, -, ⟨-, h⟩ | ⟨-, -, h⟩ | ⟨-, -, h⟩⟩ <;> rw [h]
  rfl

theorem receiveCommands_v4l2 (e : Env) (s : RpiServer) :
    (s.receiveCommands e).v4l2 = s.v4l2 := by
  rcases s.receiveCommands_cases e with ⟨-, h⟩ | ⟨-, ⟨-, h⟩ | ⟨bytes, -, h⟩⟩ <;> rw [h]
  rfl

/-- Of the calls of a script, one sets the flag. -/
theorem call_v4l2 (sock : ℕ) (c : ScriptCall) (e : Env) (s : RpiServer) :
    (s.call sock c e).v4l2 = s.v4l2 ∨
      ∃ enabled, (s.call sock c e).v4l2 = s.v4l2.turn (.setCapturing enabled) := by
  rcases s.call_cases sock c e with ⟨-, h⟩ | ⟨-, ⟨-, h⟩ | ⟨enabled, -, h⟩ | ⟨bank, -, -, h⟩ |
    ⟨-, -, -, -, h⟩⟩ <;> rw [h]
  · exact Or.inl rfl
  · exact Or.inl rfl
  · exact Or.inr ⟨enabled, rfl⟩
  · exact Or.inl (send_v4l2 _ _ _ _)
  · exact Or.inl rfl

theorem sendKeepalive_v4l2 (e : Env) (s : RpiServer) : (s.sendKeepalive e).v4l2 = s.v4l2 := by
  rw [sendKeepalive]
  split
  · exact send_v4l2 .keepAlive keepAliveMessage e s
  · rfl

/-- The server makes no other calls on the object. -/
theorem step_v4l2 (s : RpiServer) (e : Env) :
    (s.step e).v4l2 = s.v4l2 ∨ ∃ u, (s.step e).v4l2 = s.v4l2.turn u := by
  rw [step]
  split
  · split
    · exact Or.inl (completeAccept_v4l2 _ _ _ _)
    · exact Or.inl rfl
  · exact Or.inl (receiveCommands_v4l2 e s)
  · exact Or.inl rfl
  · rename_i sock c rest _
    rcases call_v4l2 sock c e { s with phase := .script sock rest } with h | ⟨enabled, h⟩
    · exact Or.inl h
    · exact Or.inr ⟨_, h⟩
  · exact Or.inl (sendKeepalive_v4l2 e s)
  · rcases v4l2Update_v4l2 { s with phase := .ret } e with h | h
    · exact Or.inl h
    · exact Or.inr ⟨.update (s.refresh e), h⟩
  · exact Or.inl rfl
  · exact Or.inl rfl
  · exact Or.inl rfl
  · exact Or.inl rfl

/-- In this step the device is asked for a buffer, and dequeues one. -/
def Dequeues (s : RpiServer) (e : Env) : Prop :=
  s.phase = .video ∧ s.v4l2.Dequeues (.update (s.refresh e))

/-- **A server whose startup of the camera failed touches mapped memory only.** -/
theorem touches_mapped_server (gpioReady : Bool) (d : Device) (now later : ℤ) (es : List Env)
    (hdqbuf : Meets step (fun s e => s.Dequeues e → V4L2.Streams d now)
      (startup gpioReady d now later) es) :
    Meets step (fun s e => s.phase = .video →
        ∀ x ∈ s.v4l2.touches (.update (s.refresh e)), x.Mapped (V4L2.mappedBy d now))
      (startup gpioReady d now later) es := by
  obtain ⟨hfilled, hboth⟩ := V4L2.startup_filled d now
  have hkeep : ∀ (s : RpiServer) (e : Env), Traced.Filled s.v4l2.devBuf (V4L2.mappedBy d now) →
      Traced.Filled (s.step e).v4l2.devBuf (V4L2.mappedBy d now) := by
    intro s e hs
    rcases s.step_v4l2 e with h | ⟨u, h⟩
    · rw [h]
      exact hs
    · rw [h, V4L2.turn_devBuf]
      exact hs
  apply Meets.imp hkeep _ hfilled hdqbuf
  intro s e hs hstream hphase
  exact V4L2.touches_of_filled hs fun hdequeues => hboth (hstream ⟨hphase, hdequeues⟩)

end RpiServer

end MKart.Server
