import MKart.Server.V4L2

/-!
# The server as a step machine

`server/src/rpi_server.cpp` with the functions it registers for scripts (`gpio.cpp`, `v4l2.cpp`).
One `update()` is cut into steps: each completion of an accept inside `poll()`, the receiving,
each call a script makes, the keep-alive, the capture and the return.  Everything the server
cannot know is the `Env` of a step: the network, the clock, the devices, and what the
interpreter makes of a text.

Sockets are numbered in the order of their creation, so that an accept into a socket that has
been deleted can be told from one into `*m_sock_peer`.  After `startup` the pointer is never
null.  Completing an accept into a deleted socket, and building a frame whose size does not fit
32 bits, have no defined outcome; the machine stops there (`Phase.crashed`).  It also stops where
`duk_fatal` loops for ever after its handler has returned (`Phase.hung`).  This is where every
script ends that fails: `duk_peval_string_noresult` leaves no result on the stack, so that the
`duk_safe_to_string` of the error report finds none and raises, outside of any protected call.

`log` and `exitRequested` record what has happened and are read by no step.
-/

namespace MKart.Server

open MKart.Framing

/-- `RpiServer::State`. -/
inductive State
  | disconnected
  | connected
  | exit
  deriving DecidableEq, Repr

/-- The calls a script can make.  `fatal` is not one of them: it is a failure of the evaluation
that is not such a call, be it of the parser or of the interpreter. -/
inductive ScriptCall
  | exit
  | print (msg : List UInt8)
  | v4l2SetCapturing (enabled : Bool)
  | gpioPinModeIn (gpio : ℤ)
  | gpioPinModeOut (gpio : ℤ)
  | gpioPinModeClock (gpio : UInt8) (freq : UInt32)
  | gpioGet_0_31
  | gpioSet_0_31_Low (bitmask : UInt32)
  | gpioSet_0_31_High (bitmask : UInt32)
  | gpioGet_32_53
  | gpioSet_32_53_Low (bitmask : UInt32)
  | gpioSet_32_53_High (bitmask : UInt32)
  | fatal
  deriving DecidableEq, Repr

/-- The function is one that the scripts find: those of `gpio.cpp` are registered if
`GPIO::startup` succeeds. -/
def ScriptCall.registered (gpioReady : Bool) : ScriptCall → Bool
  | .exit | .print _ | .v4l2SetCapturing _ => true
  | .fatal => false
  | _ => gpioReady

/-- The three places that send. -/
inductive Kind
  | keepAlive
  | gpio
  | jpeg
  deriving DecidableEq, Repr

/-- What has happened on a connection. -/
inductive Event
  | accepted (sock : ℕ)
  /-- A script received on `sock` called a function. -/
  | called (sock : ℕ) (call : ScriptCall)
  /-- A send of `frame` on `sock`, of which the first `bytes` bytes were transmitted. -/
  | sent (sock : ℕ) (kind : Kind) (frame : List UInt8) (bytes : ℕ)
  deriving DecidableEq, Repr

/-- Where inside `update()` the server is. -/
inductive Phase
  | poll
  | receive
  /-- In the evaluation of a script received on `sock`, before the calls in `rest`. -/
  | script (sock : ℕ) (rest : List ScriptCall)
  | keepalive
  | video
  | ret
  /-- `update()` has returned false, and the main loop has ended. -/
  | stopped
  | hung
  | crashed
  deriving DecidableEq, Repr

/-- What a step finds outside the server. -/
structure Env where
  /-- In `poll()`: the pending accept that completes, and whether without error; `none` if no
  handler is ready. -/
  accept : Option (ℕ × Bool)
  /-- The bytes available on the peer socket. -/
  inbox : List UInt8
  /-- The results of the `receive` calls: a number of bytes, or an error. -/
  receives : List (Option ℕ)
  /-- The calls that the evaluation of a text makes, with `fatal` at the end if it fails. -/
  evaluate : List UInt8 → List ScriptCall
  /-- The result of a `send`: a number of bytes, or an error. -/
  send : Option ℕ
  /-- Two readings of the clock. -/
  now : ℤ
  later : ℤ
  gpioRead : UInt32
  device : Grab

/-- Nothing arrives, nothing is due and every call fails. -/
def Env.idle : Env where
  accept := none
  inbox := []
  receives := []
  evaluate := fun _ => []
  send := none
  now := 0
  later := 0
  gpioRead := 0
  device := ⟨false, none, fun _ => 0⟩

/-- The fields of the class that the steps read.  `pending` are the targets of the accepts that
have not completed, `opened` the sockets that were accepted. -/
structure RpiServer where
  sockPeer : ℕ
  nextSock : ℕ
  pending : List ℕ
  opened : List ℕ
  state : State
  lastTime : ℤ
  v4l2 : V4L2
  /-- Whether `GPIO::startup` got as far as registering its functions. -/
  gpioReady : Bool
  phase : Phase
  log : List Event
  exitRequested : Bool
  /-- The results of the `update()` calls so far, each with whether `exit()` was called in it. -/
  returns : List (Bool × Bool)

namespace RpiServer

/-! ### Connections -/

/-- `RpiServer::wait_for_connection`. -/
def waitForConnection (now : ℤ) (s : RpiServer) : RpiServer :=
  { s with
    state := .disconnected
    sockPeer := s.nextSock
    nextSock := s.nextSock + 1
    pending := s.pending ++ [s.nextSock]
    lastTime := now }

def handleError (now : ℤ) (s : RpiServer) : RpiServer := s.waitForConnection now

/-- `RpiServer::handle_accept`, called without (`ok`) or with an error. -/
def handleAccept (ok : Bool) (now : ℤ) (s : RpiServer) : RpiServer :=
  if ok then { s with state := .connected } else s.handleError now

/-- The completion of the `i`-th pending accept. -/
def completeAccept (i : ℕ) (ok : Bool) (now : ℤ) (s : RpiServer) : RpiServer :=
  match s.pending[i]? with
  | none => s
  | some target =>
      let s := { s with pending := s.pending.eraseIdx i }
      if ok then
        if target = s.sockPeer then
          handleAccept true now
            { s with opened := target :: s.opened, log := s.log ++ [.accepted target] }
        else { s with phase := .crashed }
      else s.handleAccept false now

/-! ### Sending -/

/-- `m_sock_peer->send`: the number of bytes transmitted, `none` for an error.  A socket that was
not accepted cannot send. -/
def sockSend (e : Env) (buf : List UInt8) (s : RpiServer) : Option ℕ :=
  if s.sockPeer ∈ s.opened then e.send.map fun n => max 1 (min n buf.length) else none

/-- `RpiServer::send`. -/
def send (kind : Kind) (buf : List UInt8) (e : Env) (s : RpiServer) : RpiServer × Bool :=
  match s.sockSend e buf with
  | some n => ({ s with log := s.log ++ [.sent s.sockPeer kind buf n] }, true)
  | none => (handleError e.later { s with log := s.log ++ [.sent s.sockPeer kind buf 0] }, false)

/-- Whether `send_keepalive` sends. -/
def keepaliveDue (now : ℤ) (s : RpiServer) : Bool :=
  decide (5000 < V4L2.milliseconds (now - s.lastTime))

/-- `RpiServer::send_keepalive`.  It sends and handles an error as `send` does. -/
def sendKeepalive (e : Env) (s : RpiServer) : RpiServer :=
  if s.keepaliveDue e.now then
    { (s.send .keepAlive keepAliveMessage e).1 with lastTime := e.now }
  else s

/-! ### Receiving -/

/-- The sizes that `receive_commands` passes to `receive`: its 8-byte buffer as long as more is
available, then the rest. -/
def readSizes (avail : ℕ) : List ℕ :=
  List.replicate ((avail - 1) / 8) 8 ++ [avail - (avail - 1) / 8 * 8]

/-- The bytes that the `receive` calls yield, `none` if one fails.  Results that are not given
are those of calls that yield all they ask for. -/
def receiveAll : List ℕ → List (Option ℕ) → List UInt8 → Option (List UInt8)
  | [], _, _ => some []
  | n :: ns, [], inbox => (receiveAll ns [] (inbox.drop n)).map (inbox.take n ++ ·)
  | _ :: _, none :: _, _ => none
  | n :: ns, some k :: ks, inbox =>
      let recv := max 1 (min k n)
      (receiveAll ns ks (inbox.drop recv)).map (inbox.take recv ++ ·)

/-- What the interpreter is given: a C string, ended by the byte written behind the received
ones or by an earlier zero. -/
def scriptText (bytes : List UInt8) : List UInt8 := (bytes ++ [0]).takeWhile (· ≠ 0)

def available (e : Env) (s : RpiServer) : List UInt8 :=
  if s.sockPeer ∈ s.opened then e.inbox else []

/-- `RpiServer::receive_commands`, up to the first call of the script. -/
def receiveCommands (e : Env) (s : RpiServer) : RpiServer :=
  let avail := (s.available e).length
  if avail = 0 then { s with phase := .keepalive }
  else
    match receiveAll (readSizes avail) e.receives (s.available e) with
    | none => { s.handleError e.now with phase := .keepalive }
    | some bytes => { s with phase := .script s.sockPeer (e.evaluate (scriptText bytes)) }

/-! ### The registered functions -/

/-- `RpiServer::exit`. -/
def exit (s : RpiServer) : RpiServer := { s with state := .exit, exitRequested := true }

/-- `Cmds::send_gpio_value`. -/
def sendGpioValue (bank values : UInt32) (e : Env) (s : RpiServer) : RpiServer :=
  (s.send .gpio (gpioMessage bank values) e).1

/-- `RpiServer::handle_duktap_fatal`, and the loop of `duk_fatal` behind it. -/
def handleDuktapFatal (s : RpiServer) : RpiServer := { s.exit with phase := .hung }

/-- A registered function.  Those that only drive pins leave the server as it is. -/
def perform (c : ScriptCall) (e : Env) (s : RpiServer) : RpiServer :=
  match c with
  | .exit => s.exit
  | .v4l2SetCapturing enabled => { s with v4l2 := s.v4l2.setCapturing enabled }
  | .gpioGet_0_31 => s.sendGpioValue 1 e.gpioRead e
  | .gpioGet_32_53 => s.sendGpioValue 2 e.gpioRead e
  | _ => s

/-- One call of a script received on `sock`.  Calling a function that is not registered is an error
of the script, and the report of an error ends in the fatal handler. -/
def call (sock : ℕ) (c : ScriptCall) (e : Env) (s : RpiServer) : RpiServer :=
  let s : RpiServer := { s with log := s.log ++ [.called sock c] }
  if c.registered s.gpioReady then s.perform c e else s.handleDuktapFatal

/-! ### Video -/

def isConnected (s : RpiServer) : Bool := s.state == .connected

/-- `V4L2::capture`, `none` where it has no defined outcome. -/
def capture (e : Env) (s : RpiServer) : Option (RpiServer × Bool) :=
  if !s.isConnected then some (s, false)
  else
    let grabbed := s.v4l2.grab e.device
    let s := { s with v4l2 := grabbed.1 }
    match grabbed.2 with
    | none => some (s, false)
    | some bytesused =>
        (jpegMessage bytesused e.device.memory).map fun sentBuf =>
          ((s.send .jpeg sentBuf e).1, true)

/-- `V4L2::update`. -/
def v4l2Update (e : Env) (s : RpiServer) : RpiServer :=
  if s.v4l2.due e.now then
    match s.capture e with
    | none => { s with phase := .crashed }
    | some (s, captured) =>
        let v := if captured then s.v4l2 else s.v4l2.setCapturing false
        { s with v4l2 := { v with lastTime := e.later } }
  else s

/-! ### The machine -/

/-- The state that `RpiServer::startup` leaves, which ignores the result of `V4L2::startup`. -/
def startup (gpioReady : Bool) (d : Device) (now later : ℤ) : RpiServer :=
  waitForConnection later
    { sockPeer := 0
      nextSock := 1
      pending := []
      opened := []
      state := .disconnected
      lastTime := 0
      v4l2 := (V4L2.construct.startup d now).1
      gpioReady := gpioReady
      phase := .poll
      log := []
      exitRequested := false
      returns := [] }

/-- The end of `update()`: its result is returned to the main loop. -/
def ret (s : RpiServer) : RpiServer :=
  { s with
    returns := s.returns ++ [(s.exitRequested, s.state != .exit)]
    exitRequested := false
    phase := if s.state = .exit then .stopped else .poll }

/-- One step of `RpiServer::update` in the main loop. -/
def step (s : RpiServer) (e : Env) : RpiServer :=
  match s.phase with
  | .poll =>
      match e.accept with
      | some (i, ok) => s.completeAccept i ok e.now
      | none => { s with phase := if s.state = .connected then .receive else .video }
  | .receive => s.receiveCommands e
  | .script _ [] => { s with phase := .keepalive }
  | .script sock (c :: rest) => call sock c e { s with phase := .script sock rest }
  | .keepalive => { s.sendKeepalive e with phase := .video }
  | .video => v4l2Update e { s with phase := .ret }
  | .ret => s.ret
  | .stopped | .hung | .crashed => s

/-- The step sends on the peer socket without having tested that it is connected. -/
def sendsUntested (s : RpiServer) (e : Env) : Bool :=
  match s.phase with
  | .script _ (.gpioGet_0_31 :: _) | .script _ (.gpioGet_32_53 :: _) => s.gpioReady
  | .keepalive => s.keepaliveDue e.now
  | _ => false

/-! ### What the operations do -/

variable {s : RpiServer} {e : Env}

/-- A send either transmits on an accepted socket, or fails and gives the socket up. -/
theorem send_cases (kind : Kind) (buf : List UInt8) (e : Env) (s : RpiServer) :
    (∃ n, s.sockPeer ∈ s.opened ∧ e.send ≠ none ∧ 0 < n ∧
      s.send kind buf e = ({ s with log := s.log ++ [.sent s.sockPeer kind buf n] }, true)) ∨
    ((s.sockPeer ∉ s.opened ∨ e.send = none) ∧
      s.send kind buf e =
        (handleError e.later { s with log := s.log ++ [.sent s.sockPeer kind buf 0] }, false)) := by
  unfold send sockSend
  by_cases hopen : s.sockPeer ∈ s.opened
  · cases hsend : e.send with
    | none => exact Or.inr ⟨Or.inr rfl, by simp [hopen]⟩
    | some n =>
        exact Or.inl ⟨max 1 (min n buf.length), hopen, (fun h => by cases h),
          lt_of_lt_of_le Nat.one_pos (le_max_left _ _), by simp [hopen]⟩
  · exact Or.inr ⟨Or.inl hopen, by simp [hopen]⟩

theorem call_of_reading {c : ScriptCall} {bank : UInt32}
    (hc : c = .gpioGet_0_31 ∧ bank = 1 ∨ c = .gpioGet_32_53 ∧ bank = 2)
    (hready : s.gpioReady = true) (sock : ℕ) (e : Env) :
    s.call sock c e =
      (send .gpio (gpioMessage bank e.gpioRead) e
        { s with log := s.log ++ [.called sock c] }).1 := by
  rcases hc with ⟨rfl, rfl⟩ | ⟨rfl, rfl⟩
  · exact if_pos hready
  · exact if_pos hready

/-- A step that sends untested does so with the peer socket as it is. -/
theorem step_of_sendsUntested (h : s.sendsUntested e = true) :
    ∃ (kind : Kind) (buf : List UInt8) (log : List Event) (p p' : Phase) (t : ℤ),
      IsFrame 4 buf ∧ (log = s.log ∨ ∃ sock c, log = s.log ++ [.called sock c]) ∧
      s.step e = { (send kind buf e { s with log := log, phase := p }).1 with
        phase := p', lastTime := t } := by
  cases hp : s.phase with
  | script sock rest =>
      cases rest with
      | nil => simp [sendsUntested, hp] at h
      | cons c rest =>
          cases c with
          | gpioGet_0_31 =>
              have hready : s.gpioReady = true := by simpa [sendsUntested, hp] using h
              have hcall := call_of_reading (s := { s with phase := .script sock rest })
                (Or.inl ⟨rfl, rfl⟩) hready sock e
              rw [step, hp]
              dsimp only
              rw [hcall]
              exact ⟨_, _, _, _, _, _, gpioMessage_isFrame _ _, Or.inr ⟨_, _, rfl⟩, rfl⟩
          | gpioGet_32_53 =>
              have hready : s.gpioReady = true := by simpa [sendsUntested, hp] using h
              have hcall := call_of_reading (s := { s with phase := .script sock rest })
                (Or.inr ⟨rfl, rfl⟩) hready sock e
              rw [step, hp]
              dsimp only
              rw [hcall]
              exact ⟨_, _, _, _, _, _, gpioMessage_isFrame _ _, Or.inr ⟨_, _, rfl⟩, rfl⟩
          | _ => simp [sendsUntested, hp] at h
  | keepalive =>
      have hdue : s.keepaliveDue e.now = true := by simpa [sendsUntested, hp] using h
      rw [step, hp]
      dsimp only [sendKeepalive]
      rw [if_pos hdue]
      exact ⟨_, _, s.log, s.phase, _, _, keepAliveMessage_isFrame, Or.inl rfl, rfl⟩
  | _ => simp [sendsUntested, hp] at h

@[simp] theorem send_v4l2 (kind : Kind) (buf : List UInt8) (e : Env) (s : RpiServer) :
    (s.send kind buf e).1.v4l2 = s.v4l2 := by
  rcases send_cases kind buf e s with ⟨n, -, -, -, hsend⟩ | ⟨-, hsend⟩ <;> rw [hsend]
  rfl

@[simp] theorem send_phase (kind : Kind) (buf : List UInt8) (e : Env) (s : RpiServer) :
    (s.send kind buf e).1.phase = s.phase := by
  rcases send_cases kind buf e s with ⟨n, -, -, -, hsend⟩ | ⟨-, hsend⟩ <;> rw [hsend]
  rfl

/-- The outcomes of a completed accept: there is none, it failed, it accepted the peer, or it went
into a deleted socket. -/
theorem completeAccept_cases (i : ℕ) (ok : Bool) (now : ℤ) (s : RpiServer) :
    (s.pending[i]? = none ∧ s.completeAccept i ok now = s) ∨
    ∃ target, s.pending[i]? = some target ∧
      ((ok = false ∧ s.completeAccept i ok now =
          waitForConnection now { s with pending := s.pending.eraseIdx i }) ∨
        (ok = true ∧ target = s.sockPeer ∧ s.completeAccept i ok now =
          { s with
            state := .connected
            pending := s.pending.eraseIdx i
            opened := s.sockPeer :: s.opened
            log := s.log ++ [.accepted s.sockPeer] }) ∨
        (ok = true ∧ target ≠ s.sockPeer ∧ s.completeAccept i ok now =
          { s with pending := s.pending.eraseIdx i, phase := .crashed })) := by
  unfold completeAccept
  cases hi : s.pending[i]? with
  | none => exact Or.inl ⟨rfl, rfl⟩
  | some target =>
      refine Or.inr ⟨target, rfl, ?_⟩
      cases ok with
      | false => exact Or.inl ⟨rfl, rfl⟩
      | true =>
          by_cases hpeer : target = s.sockPeer
          · subst hpeer
            exact Or.inr (Or.inl ⟨rfl, rfl, by simp [handleAccept]⟩)
          · exact Or.inr (Or.inr ⟨rfl, hpeer, by simp [hpeer]⟩)

theorem completeAccept_phase (i : ℕ) (ok : Bool) (now : ℤ) (s : RpiServer) :
    (s.completeAccept i ok now).phase = s.phase ∨ (s.completeAccept i ok now).phase = .crashed := by
  rcases s.completeAccept_cases i ok now with
    ⟨-, h⟩ | ⟨target, -, ⟨-, h⟩ | ⟨-, -, h⟩ | ⟨-, -, h⟩⟩ <;> rw [h]
  · exact Or.inl rfl
  · exact Or.inl rfl
  · exact Or.inl rfl
  · exact Or.inr rfl

/-- The outcomes of `receive_commands`: there was nothing, it failed, or there is a script. -/
theorem receiveCommands_cases (e : Env) (s : RpiServer) :
    ((s.available e).length = 0 ∧ s.receiveCommands e = { s with phase := .keepalive }) ∨
    ((s.available e).length ≠ 0 ∧
      ((receiveAll (readSizes (s.available e).length) e.receives (s.available e) = none ∧
          s.receiveCommands e = { s.waitForConnection e.now with phase := .keepalive }) ∨
        ∃ bytes,
          receiveAll (readSizes (s.available e).length) e.receives (s.available e) = some bytes ∧
          s.receiveCommands e =
            { s with phase := .script s.sockPeer (e.evaluate (scriptText bytes)) })) := by
  unfold receiveCommands
  by_cases havail : (s.available e).length = 0
  · exact Or.inl ⟨havail, if_pos havail⟩
  · refine Or.inr ⟨havail, ?_⟩
    simp only [if_neg havail]
    cases receiveAll (readSizes (s.available e).length) e.receives (s.available e) with
    | none => exact Or.inl ⟨rfl, rfl⟩
    | some bytes => exact Or.inr ⟨bytes, rfl, rfl⟩

/-- The outcomes of a call: the script fails, or the function requests an exit, switches
capturing, sends what it has read, or leaves the server as it is. -/
theorem call_cases (sock : ℕ) (c : ScriptCall) (e : Env) (s : RpiServer) :
    (c.registered s.gpioReady = false ∧
      s.call sock c e = handleDuktapFatal { s with log := s.log ++ [.called sock c] }) ∨
    (c.registered s.gpioReady = true ∧
      ((c = .exit ∧ s.call sock c e = exit { s with log := s.log ++ [.called sock c] }) ∨
        (∃ enabled, c = .v4l2SetCapturing enabled ∧
          s.call sock c e =
            { s with log := s.log ++ [.called sock c], v4l2 := s.v4l2.setCapturing enabled }) ∨
        (∃ bank, (c = .gpioGet_0_31 ∧ bank = 1 ∨ c = .gpioGet_32_53 ∧ bank = 2) ∧
          s.gpioReady = true ∧
          s.call sock c e = (send .gpio (gpioMessage bank e.gpioRead) e
            { s with log := s.log ++ [.called sock c] }).1) ∨
        (c ≠ .exit ∧ (∀ enabled, c ≠ .v4l2SetCapturing enabled) ∧ c ≠ .gpioGet_0_31 ∧
          c ≠ .gpioGet_32_53 ∧
          s.call sock c e = { s with log := s.log ++ [.called sock c] }))) := by
  cases hreg : c.registered s.gpioReady with
  | false => exact Or.inl ⟨rfl, if_neg (ne_true_of_eq_false hreg)⟩
  | true =>
      have hcall : s.call sock c e = perform c e { s with log := s.log ++ [.called sock c] } :=
        if_pos hreg
      refine Or.inr ⟨rfl, ?_⟩
      rw [hcall]
      cases c with
      | exit => exact Or.inl ⟨rfl, rfl⟩
      | v4l2SetCapturing enabled => exact Or.inr (Or.inl ⟨enabled, rfl, rfl⟩)
      | gpioGet_0_31 => exact Or.inr (Or.inr (Or.inl ⟨1, Or.inl ⟨rfl, rfl⟩, hreg, rfl⟩))
      | gpioGet_32_53 => exact Or.inr (Or.inr (Or.inl ⟨2, Or.inr ⟨rfl, rfl⟩, hreg, rfl⟩))
      | _ => exact Or.inr (Or.inr (Or.inr (by simp [perform])))

/-- A call stays in the script, or the script fails. -/
theorem call_phase (sock : ℕ) (c : ScriptCall) (e : Env) (s : RpiServer) :
    (c.registered s.gpioReady = true ∧ (s.call sock c e).phase = s.phase) ∨
      (c.registered s.gpioReady = false ∧ (s.call sock c e).phase = .hung) := by
  rcases s.call_cases sock c e with ⟨hreg, h⟩ | ⟨hreg, ⟨-, h⟩ | ⟨enabled, -, h⟩ |
    ⟨bank, -, -, h⟩ | ⟨-, -, -, -, h⟩⟩ <;> rw [h]
  · exact Or.inr ⟨hreg, rfl⟩
  · exact Or.inl ⟨hreg, rfl⟩
  · exact Or.inl ⟨hreg, rfl⟩
  · exact Or.inl ⟨hreg, send_phase _ _ _ _⟩
  · exact Or.inl ⟨hreg, rfl⟩

theorem capture_not_connected (e : Env) (h : s.state ≠ .connected) :
    s.capture e = some (s, false) := by
  simp [capture, isConnected, h]

theorem capture_connected (e : Env) (h : s.state = .connected) :
    s.capture e =
      match (s.v4l2.grab e.device).2 with
      | none => some ({ s with v4l2 := (s.v4l2.grab e.device).1 }, false)
      | some bytesused =>
          (jpegMessage bytesused e.device.memory).map fun sentBuf =>
            ((send .jpeg sentBuf e { s with v4l2 := (s.v4l2.grab e.device).1 }).1, true) := by
  rw [capture, isConnected, h]
  rfl

/-- The message that `V4L2::update` sends, if it comes to that. -/
def capturedFrame (e : Env) (s : RpiServer) : Option (List UInt8) :=
  if s.v4l2.due e.now ∧ s.state = .connected then
    (s.v4l2.grab e.device).2.bind fun bytesused => jpegMessage bytesused e.device.memory
  else none

theorem capturedFrame_isFrame {frame : List UInt8} (h : s.capturedFrame e = some frame) :
    IsFrame 4 frame := by
  unfold capturedFrame at h
  split at h
  · obtain ⟨bytesused, -, hmsg⟩ := Option.bind_eq_some_iff.mp h
    exact jpegMessage_isFrame hmsg
  · cases h

/-- The outcomes of `V4L2::update`: it does nothing, gives up capturing, has no defined outcome,
or sends a frame to the connected peer. -/
theorem v4l2Update_cases (e : Env) (s : RpiServer) :
    (s.capturedFrame e = none ∧
      (s.v4l2Update e = s ∨
        (∃ v : V4L2, v.capturing = false ∧
          (s.state = .connected → (s.v4l2.grab e.device).2 = none) ∧
          s.v4l2Update e = { s with v4l2 := v }) ∨
        s.v4l2Update e = { s with phase := .crashed })) ∨
    (∃ (frame : List UInt8) (v w : V4L2), s.capturedFrame e = some frame ∧ IsFrame 4 frame ∧
      s.state = .connected ∧ s.v4l2.capturing = true ∧ v.capturing = true ∧ w.capturing = true ∧
      s.v4l2Update e = { (send .jpeg frame e { s with v4l2 := v }).1 with v4l2 := w }) := by
  by_cases hdue : s.v4l2.due e.now = true
  · have hcapturing : s.v4l2.capturing = true := (Bool.and_eq_true _ _ ▸ hdue).1
    rw [v4l2Update, if_pos hdue]
    by_cases hconn : s.state = .connected
    · rw [capture_connected e hconn, capturedFrame, if_pos ⟨hdue, hconn⟩]
      cases hgrab : (s.v4l2.grab e.device).2 with
      | none => exact Or.inl ⟨rfl, Or.inr (Or.inl ⟨_, rfl, fun _ => rfl, rfl⟩)⟩
      | some bytesused =>
          dsimp only [Option.bind_some]
          cases hmsg : jpegMessage bytesused e.device.memory with
          | none => exact Or.inl ⟨rfl, Or.inr (Or.inr rfl)⟩
          | some frame =>
              refine Or.inr ⟨frame, (s.v4l2.grab e.device).1,
                { (s.v4l2.grab e.device).1 with lastTime := e.later }, rfl,
                jpegMessage_isFrame hmsg, hconn, hcapturing, ?_, ?_, ?_⟩
              · exact (V4L2.grab_capturing _ _).trans hcapturing
              · exact (V4L2.grab_capturing _ _).trans hcapturing
              · simp only [Option.map_some, if_true, send_v4l2]
    · rw [capture_not_connected e hconn, capturedFrame, if_neg fun h => hconn h.2]
      exact Or.inl ⟨rfl, Or.inr (Or.inl ⟨_, rfl, fun h => absurd h hconn, rfl⟩)⟩
  · rw [v4l2Update, if_neg hdue, capturedFrame, if_neg fun h => hdue h.1]
    exact Or.inl ⟨rfl, Or.inl rfl⟩

theorem v4l2Update_phase (e : Env) (s : RpiServer) :
    (s.v4l2Update e).phase = s.phase ∨ (s.v4l2Update e).phase = .crashed := by
  rcases s.v4l2Update_cases e with ⟨-, hsame | ⟨v, -, -, hoff⟩ | hcrash⟩ |
    ⟨frame, v, w, -, -, -, -, -, -, hsend⟩
  · exact Or.inl (by rw [hsame])
  · exact Or.inl (by rw [hoff])
  · exact Or.inr (by rw [hcrash])
  · rw [hsend]
    exact Or.inl (send_phase _ _ _ _)

theorem send_gpioReady (kind : Kind) (buf : List UInt8) (e : Env) (s : RpiServer) :
    (s.send kind buf e).1.gpioReady = s.gpioReady := by
  rcases send_cases kind buf e s with ⟨n, -, -, -, hsend⟩ | ⟨-, hsend⟩ <;> rw [hsend]
  rfl

/-- No step registers functions. -/
theorem step_gpioReady (s : RpiServer) (e : Env) : (s.step e).gpioReady = s.gpioReady := by
  cases hp : s.phase with
  | poll =>
      simp only [step, hp]
      split
      · rename_i i ok haccept
        rcases s.completeAccept_cases i ok e.now with
          ⟨-, h⟩ | ⟨target, -, ⟨-, h⟩ | ⟨-, -, h⟩ | ⟨-, -, h⟩⟩ <;> rw [h]
        rfl
      · rfl
  | receive =>
      simp only [step, hp]
      rcases s.receiveCommands_cases e with ⟨-, h⟩ | ⟨-, ⟨-, h⟩ | ⟨bytes, -, h⟩⟩ <;> rw [h]
      rfl
  | script k rest =>
      cases rest with
      | nil => simp only [step, hp]
      | cons c rest =>
          simp only [step, hp]
          rcases call_cases k c e { s with phase := .script k rest } with ⟨-, h⟩ |
            ⟨-, ⟨-, h⟩ | ⟨enabled, -, h⟩ | ⟨bank, -, -, h⟩ | ⟨-, -, -, -, h⟩⟩ <;> rw [h]
          · rfl
          · rfl
          · exact send_gpioReady _ _ e _
  | keepalive =>
      simp only [step, hp, sendKeepalive]
      split
      · exact send_gpioReady _ _ e s
      · rfl
  | video =>
      simp only [step, hp]
      rcases v4l2Update_cases e { s with phase := .ret } with
        ⟨-, h | ⟨v, -, -, h⟩ | h⟩ | ⟨frame, v, w, -, -, -, -, -, -, h⟩ <;> rw [h]
      exact send_gpioReady _ _ e _
  | ret =>
      simp only [step, hp]
      rfl
  | stopped | hung | crashed => simp only [step, hp]

end RpiServer

end MKart.Server
