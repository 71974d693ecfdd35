import MKart.ClientQt.Tcp

/-!
# The Qt client's `FpvContext`

`client-qt/fpv_service.cpp`: the object behind `FpvService`.  One call of
`FpvContext::update` polls the socket once, takes at most one message and hands a
message that starts with the characters `JPEG` to `on_recieve_jpeg`.

What an update finds outside the client is an `FpvEnv`: the bytes that lie behind the
message in memory (`is_4cc` does not look at the message length) and the image decoder.
The receive-time statistics are floating point and are left out.
-/

namespace MKart.ClientQt

open MKart.Bytes

/-- A decoded image, or the texture created from one: its dimensions. -/
structure QImage where
  width : ℕ
  height : ℕ
  deriving DecidableEq, Repr

/-- What an update finds outside the client. -/
structure FpvEnv where
  /-- The memory behind the message that `Tcp::read_message` returns. -/
  heap : ℕ → UInt8
  /-- `QImage::fromData`, `none` for a null image. -/
  fromData : (ℕ → UInt8) → ℤ → Option QImage

structure FpvContext where
  tcp : TcpPrivate
  tex : Option QImage
  capture : Bool

namespace FpvContext

def init : FpvContext where
  tcp := TcpPrivate.init
  tex := none
  capture := false

/-- What a pointer to the message reads at offset `i`. -/
def msgPtr (env : FpvEnv) (msg : List UInt8) (i : ℕ) : UInt8 := msg.getD i (env.heap i)

def is4cc (c : ℕ → UInt8) (a b c' d : Char) : Bool :=
  c 0 == UInt8.ofNat a.toNat && c 1 == UInt8.ofNat b.toNat &&
    c 2 == UInt8.ofNat c'.toNat && c 3 == UInt8.ofNat d.toNat

/-- `on_recieve_jpeg`: the first image creates the texture, later images only replace its
texels. -/
def onRecieveJpeg (env : FpvEnv) (c : FpvContext) (ptr : ℕ → UInt8) (len : ℕ) : FpvContext :=
  match env.fromData ptr ((len : ℤ).bmod (2 ^ 32)) with
  | none => c
  | some loaded =>
      match c.tex with
      | none => { c with tex := some loaded }
      | some _ => c

/-- `FpvContext::update`, with the message obtained from `Tcp::read_message`.  The length
handed on is the unsigned `msg_len - 4`. -/
def update (env : FpvEnv) (c : FpvContext) : FpvContext × Option (List UInt8) :=
  match Tcp.readMessage (Tcp.update QTcpSocket.read c.tcp) with
  | (tcp, none) => ({ c with tcp := tcp }, none)
  | (tcp, some msg) =>
      let c := { c with tcp := tcp }
      if is4cc (msgPtr env msg) 'J' 'P' 'E' 'G' then
        (c.onRecieveJpeg env (fun i => msgPtr env msg (4 + i))
          (((msg.length : ℤ) - 4) % 2 ^ 32).toNat, some msg)
      else (c, some msg)

def msgTrue : List UInt8 := cstr "v4l2_set_capturing(true);".toList
def msgFalse : List UInt8 := cstr "v4l2_set_capturing(false);".toList
def msgExit : List UInt8 := cstr "exit();".toList

/-- `FpvContext::set_capturing`, with the bytes the socket accepted. -/
def setCapturing (write : SocketWrite) (c : FpvContext) (enabled : Bool) :
    FpvContext × Tcp.Result × List UInt8 :=
  let c := { c with capture := enabled }
  (c, Tcp.sendRaw write c.tcp (if enabled then msgTrue else msgFalse))

def remoteExit (write : SocketWrite) (c : FpvContext) : Tcp.Result × List UInt8 :=
  Tcp.sendRaw write c.tcp msgExit

@[simp] theorem onRecieveJpeg_tcp (env : FpvEnv) (c : FpvContext) (ptr : ℕ → UInt8) (len : ℕ) :
    (c.onRecieveJpeg env ptr len).tcp = c.tcp := by
  unfold onRecieveJpeg
  split
  · rfl
  · split <;> rfl

theorem onRecieveJpeg_capture (env : FpvEnv) (c : FpvContext) (ptr : ℕ → UInt8) (len : ℕ) :
    (c.onRecieveJpeg env ptr len).capture = c.capture := by
  unfold onRecieveJpeg
  split
  · rfl
  · split <;> rfl

@[simp] theorem update_capture (env : FpvEnv) (c : FpvContext) :
    (c.update env).1.capture = c.capture := by
  unfold update
  split
  · rfl
  · dsimp only
    split
    · exact onRecieveJpeg_capture _ _ _ _
    · rfl

/-- An update polls the socket once and then takes the message that is ready, if any. -/
theorem update_tcp (env : FpvEnv) (c : FpvContext) :
    (c.update env).1.tcp = (Tcp.readMessage (c.tcp.update QTcpSocket.read)).1 ∧
      (c.update env).2 = (Tcp.readMessage (c.tcp.update QTcpSocket.read)).2 := by
  unfold update Tcp.update
  generalize Tcp.readMessage (c.tcp.update QTcpSocket.read) = r
  obtain ⟨tcp, msg⟩ := r
  cases msg with
  | none => exact ⟨rfl, rfl⟩
  | some msg =>
      dsimp only
      split
      · exact ⟨onRecieveJpeg_tcp _ _ _ _, rfl⟩
      · exact ⟨rfl, rfl⟩

end FpvContext

/-! ### `FpvService` -/

namespace FpvService

/-- `FpvService::init` of a context in use.  `TcpPrivate::init` does not clear the message buffer,
and leaves the old socket behind. -/
def init (c : FpvContext) : FpvContext :=
  { FpvContext.init with tcp := { TcpPrivate.init with messageBuffer := c.tcp.messageBuffer } }

def disconnect (c : FpvContext) : FpvContext := { c with tcp := (Tcp.disconnect c.tcp).1 }

/-- `FpvService::connect`: once the attempt is started the capture flag is sent again. -/
def connect (write : SocketWrite) (c : FpvContext) : FpvContext × List UInt8 :=
  match Tcp.connect c.tcp with
  | (tcp, .succeeded) =>
      let c := { c with tcp := tcp }
      let r := c.setCapturing write c.capture
      (r.1, r.2.2)
  | (tcp, _) => ({ c with tcp := tcp }, [])

def setCapturing (write : SocketWrite) (c : FpvContext) (capture : Bool) :
    FpvContext × List UInt8 :=
  let r := c.setCapturing write capture
  (r.1, r.2.2)

end FpvService

example : FpvContext.msgExit = [101, 120, 105, 116, 40, 41, 59] := by decide

end MKart.ClientQt
