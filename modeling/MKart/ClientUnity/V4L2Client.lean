import MKart.Lib.Framing

/-!
# The Unity client's `V4L2Client`

`client-unity/Assets/V4L2Client/Scripts/V4L2Client.cs`: the incremental decoder
`RecieveMessage` and the two message handlers.  A call either returns, with the events it
raised, or throws; in both cases the object keeps what was stored up to that point, which is
what the `EStateM` result records.

`int` arithmetic wraps (`wrap32`), and the library calls throw as documented: an indexer or a
negative range argument with `ArgumentOutOfRangeException`, a range past the end with
`ArgumentException`, a member access on a null reference with `NullReferenceException`.
-/

namespace MKart.ClientUnity

open MKart.LittleEndian MKart.Framing

/-- The value of an `int` after unchecked arithmetic. -/
def wrap32 (n : ℤ) : ℤ := n.bmod (2 ^ 32)

theorem wrap32_of_lt {n : ℤ} (h0 : -2 ^ 31 ≤ n) (h1 : n < 2 ^ 31) : wrap32 n = n :=
  Int.bmod_eq_of_le_mul_two (by omega) (by omega)

inductive Exn
  | argumentOutOfRange
  | argument
  | nullReference
  deriving DecidableEq, Repr

/-! ### `List<byte>` and `BitConverter` -/

/-- The indexer `l[index]`. -/
def item (l : List UInt8) (index : ℤ) : Except Exn UInt8 :=
  if 0 ≤ index ∧ index < l.length then .ok (l.getD index.toNat 0)
  else .error .argumentOutOfRange

def getRange (l : List UInt8) (index count : ℤ) : Except Exn (List UInt8) :=
  if index < 0 ∨ count < 0 then .error .argumentOutOfRange
  else if l.length - index < count then .error .argument
  else .ok ((l.drop index.toNat).take count.toNat)

/-- The list that `l.RemoveRange(index, count)` leaves. -/
def removeRange (l : List UInt8) (index count : ℤ) : Except Exn (List UInt8) :=
  if index < 0 ∨ count < 0 then .error .argumentOutOfRange
  else if l.length - index < count then .error .argument
  else .ok (l.take index.toNat ++ l.drop (index.toNat + count.toNat))

/-- `BitConverter.ToUInt32(value, startIndex)`. -/
def toUInt32 (value : List UInt8) (startIndex : ℕ) : Except Exn ℕ :=
  if value.length ≤ startIndex then .error .argumentOutOfRange
  else if value.length < startIndex + 4 then .error .argument
  else .ok (leValue ((value.drop startIndex).take 4))

/-! ### The object -/

/-- `TcpClient`: whether it is connected, and the bytes available on its stream. -/
structure TcpClient where
  connected : Bool
  available : List UInt8

/-- The array `m_4CC`. -/
structure FourCC where
  c0 : UInt8
  c1 : UInt8
  c2 : UInt8
  c3 : UInt8
  deriving DecidableEq, Repr

structure V4L2Client where
  tcpClient : Option TcpClient
  received : List UInt8
  message : Option (List UInt8)
  fourCC : FourCC

/-- What a call raises: `TextureChanged` after `LoadImage` of the data of a JPEG message, or
`GPIOValuesReceived`. -/
inductive Event
  | jpeg (data : List UInt8)
  | gpio (bank values : ℕ)
  deriving DecidableEq, Repr

abbrev Unity := EStateM Exn V4L2Client

/-- A library call that reads the object and may throw. -/
def throwing {α : Type} (f : V4L2Client → Except Exn α) : Unity α := fun c =>
  match f c with
  | .ok a => .ok a c
  | .error e => .error e c

/-- `m_ReadBuffer.Length`. -/
def readBufferLength : ℕ := 1024 * 1024

/-- The number of bytes `stm.Read(m_ReadBuffer, 0, m_ReadBuffer.Length)` returns while some are
available: at least one, and no more than are there or fit.  Which number is the stream's
choice, `n`. -/
def readCount (n : ℕ) (available : List UInt8) : ℕ :=
  min (max n 1) (min readBufferLength available.length)

/-- The part of `RecieveMessage` that reads what is available into `m_Received`. -/
def fill (n : ℕ) : Unity Unit := fun c =>
  match c.tcpClient with
  | none => .ok () c
  | some tcp =>
      let k := readCount n tcp.available
      .ok () { c with
        tcpClient := some { tcp with available := tcp.available.drop k }
        received := c.received ++ tcp.available.take k }

def copy4CC (i : ℤ) (store : FourCC → UInt8 → FourCC) : Unity Unit := do
  let b ← throwing fun c => item c.received i
  modify fun c => { c with fourCC := store c.fourCC b }

/-- The extraction of one message of length `msgLen`. -/
def extract (msgLen : ℤ) : Unity Unit := do
  copy4CC 4 fun f b => { f with c0 := b }
  copy4CC 5 fun f b => { f with c1 := b }
  copy4CC 6 fun f b => { f with c2 := b }
  copy4CC 7 fun f b => { f with c3 := b }
  let message ← throwing fun c => getRange c.received 8 (wrap32 (msgLen - 4))
  modify fun c => { c with message := some message }
  let received ← throwing fun c => removeRange c.received 0 (wrap32 (4 + msgLen))
  modify fun c => { c with received := received }

def is4CC (f : FourCC) (a b c d : Char) : Bool :=
  f.c0.toNat == a.toNat && f.c1.toNat == b.toNat && f.c2.toNat == c.toNat && f.c3.toNat == d.toNat

/-- `m_Message.ToArray()`. -/
def messageBytes : Unity (List UInt8) := throwing fun c =>
  match c.message with
  | none => .error .nullReference
  | some msg => .ok msg

def onReceiveJpeg : Unity (List Event) := do
  let msg ← messageBytes
  return [.jpeg msg]

def onReceiveGpio : Unity (List Event) := do
  let msg ← messageBytes
  let bank ← throwing fun _ => toUInt32 msg 0
  let values ← throwing fun _ => toUInt32 msg 4
  return [.gpio bank values]

def handleMessage : Unity (List Event) := do
  let f := (← get).fourCC
  let jpeg ← if is4CC f 'J' 'P' 'E' 'G' then onReceiveJpeg else pure []
  let gpio ← if is4CC f 'G' 'P' 'I' 'O' then onReceiveGpio else pure []
  return jpeg ++ gpio

/-- The part of `RecieveMessage` behind the read: at most one frame of `m_Received`. -/
def parse : Unity (List Event) := do
  let count := (← get).received.length
  if count < 4 then return []
  let msgLen := wrap32 (← throwing fun c => toUInt32 c.received 0)
  if msgLen = 0 then
    let received ← throwing fun c => removeRange c.received 0 4
    modify fun c => { c with received := received }
    return []
  else if (count : ℤ) ≥ wrap32 (msgLen + 4) then
    extract msgLen
    handleMessage
  else return []

/-- `V4L2Client.RecieveMessage`. -/
def recieveMessage (n : ℕ) : Unity (List Event) := do
  match (← get).tcpClient with
  | none => return []
  | some tcp =>
      if tcp.connected then
        if 0 < tcp.available.length then fill n
        parse
      else return []

/-! ### Commands -/

/-- `System.Text.Encoding.UTF8.GetBytes`. -/
def getBytes (s : List Char) : List UInt8 := s.flatMap String.utf8EncodeChar

/-- `V4L2Client.RemoteCommand`: its result, and the bytes written to the stream. -/
def remoteCommand (cmd : List Char) (c : V4L2Client) : Bool × List UInt8 :=
  match c.tcpClient with
  | none => (false, [])
  | some tcp => if tcp.connected then (true, getBytes cmd) else (false, [])

def remoteExit (c : V4L2Client) : Bool × List UInt8 := remoteCommand "exit();".toList c

def remoteCapture (enabled : Bool) (c : V4L2Client) : Bool × List UInt8 :=
  remoteCommand
    (if enabled then "v4l2_set_capturing(true);".toList
      else "v4l2_set_capturing(false);".toList) c

/-- `string.Format` of a text with one argument: the text around it and the number. -/
def format (front : List Char) (n : UInt32) (back : List Char) : List Char :=
  front ++ Nat.toDigits 10 n.toNat ++ back

def remoteGPIOSetModeIn (gpioNum : UInt32) (c : V4L2Client) : Bool × List UInt8 :=
  remoteCommand (format "gpio_pin_mode_in(".toList gpioNum ");".toList) c

def remoteGPIOSetModeOut (gpioNum : UInt32) (c : V4L2Client) : Bool × List UInt8 :=
  remoteCommand (format "gpio_pin_mode_out(".toList gpioNum ");".toList) c

def remoteGPIOSet_0_31_Low (bitMask : UInt32) (c : V4L2Client) : Bool × List UInt8 :=
  remoteCommand (format "gpio_set_0_31_low(".toList bitMask ");".toList) c

def remoteGPIOSet_0_31_High (bitMask : UInt32) (c : V4L2Client) : Bool × List UInt8 :=
  remoteCommand (format "gpio_set_0_31_high(".toList bitMask ");".toList) c

def remoteGPIOGet_0_31 (c : V4L2Client) : Bool × List UInt8 :=
  remoteCommand "gpio_get_0_31();".toList c

/-! ### Rules for a call -/

section Rules

variable {α β : Type} {c c' : V4L2Client}

theorem bind_ok {m : Unity α} {f : α → Unity β} {a : α} (h : m c = .ok a c') :
    (m >>= f) c = f a c' := by
  simp only [bind, EStateM.bind, h]

theorem get_bind (f : V4L2Client → Unity β) : (get >>= f) c = f c c := rfl

theorem throwing_bind {f : V4L2Client → Except Exn α} {k : α → Unity β} {a : α}
    (h : f c = .ok a) : (throwing f >>= k) c = k a c := by
  apply bind_ok
  simp only [throwing, h]

theorem modify_bind (f : V4L2Client → V4L2Client) (k : Unit → Unity β) :
    (modify f >>= k) c = k () (f c) := rfl

end Rules

theorem item_append_cons (l r : List UInt8) (b : UInt8) {i : ℤ} (hi : i = l.length) :
    item (l ++ b :: r) i = .ok b := by
  subst hi
  rw [item, if_pos (by simp)]
  simp

theorem getRange_mid (l m r : List UInt8) {i n : ℤ} (hi : i = l.length) (hn : n = m.length) :
    getRange (l ++ (m ++ r)) i n = .ok m := by
  subst hi hn
  rw [getRange, if_neg (by omega), if_neg (by simp)]
  simp

theorem removeRange_front (l r : List UInt8) {n : ℤ} (hn : n = l.length) :
    removeRange (l ++ r) 0 n = .ok r := by
  subst hn
  rw [removeRange, if_neg (by omega), if_neg (by simp)]
  simp

theorem toUInt32_of_le {l : List UInt8} {i : ℕ} (h : i + 4 ≤ l.length) :
    toUInt32 l i = .ok (leValue ((l.drop i).take 4)) := by
  rw [toUInt32, if_neg (by omega), if_neg (by omega)]

theorem copy4CC_ok {c : V4L2Client} {i : ℤ} {b : UInt8} {store : FourCC → UInt8 → FourCC}
    (h : item c.received i = .ok b) :
    copy4CC i store c = .ok () { c with fourCC := store c.fourCC b } := by
  rw [copy4CC, throwing_bind h]
  rfl

/-! ### One call of `parse` -/

section Parse

variable {c : V4L2Client} {rest : List UInt8}

theorem parse_short (h : c.received.length < 4) : parse c = .ok [] c := by
  rw [parse, get_bind, if_pos h]
  rfl

/-- A keep-alive is taken off the received bytes and raises nothing. -/
theorem parse_keepAlive (h : c.received = frame 4 [] ++ rest) :
    parse c = .ok [] { c with received := rest } := by
  have hlen : 4 ≤ c.received.length := by
    rw [h, List.length_append, frame_length]
    omega
  have hword : toUInt32 c.received 0 = .ok 0 := by
    rw [toUInt32_of_le (by omega), h]
    rfl
  have hremove : removeRange c.received 0 4 = .ok rest := by
    rw [h]
    exact removeRange_front _ _ rfl
  rw [parse, get_bind, if_neg (by omega), throwing_bind hword, if_pos (by decide),
    throwing_bind hremove, modify_bind]
  rfl

/-- An incomplete frame stays where it is. -/
theorem parse_partial {p : Payload 4} (hp : p.bytes.length + 8 < 2 ^ 31)
    (h : c.received ++ rest = frame 4 p.bytes) (hrest : rest ≠ []) : parse c = .ok [] c := by
  have hpos := List.length_pos_iff.mpr hrest
  have hlen := congrArg List.length h
  rw [List.length_append, frame_length] at hlen
  by_cases hshort : c.received.length < 4
  · exact parse_short hshort
  · have hword : toUInt32 c.received 0 = .ok p.bytes.length := by
      rw [toUInt32_of_le (by omega), List.drop_zero, ← leValue_frame_take p [],
        List.append_nil, ← h, List.take_append_of_le_length (by omega)]
    have hmsg : wrap32 (p.bytes.length : ℕ) = p.bytes.length := wrap32_of_lt (by omega) (by omega)
    have hneed : wrap32 ((p.bytes.length : ℕ) + 4) = p.bytes.length + 4 :=
      wrap32_of_lt (by omega) (by omega)
    rw [parse, get_bind, if_neg hshort, throwing_bind hword, hmsg, hneed, if_neg (by omega),
      if_neg (by omega)]
    rfl

/-- The extraction of a frame stores its tag and its data, and removes it. -/
theorem extract_frame {t0 t1 t2 t3 : UInt8} {body : List UInt8} (hbody : body.length + 8 < 2 ^ 31)
    (h : c.received = frame 4 (t0 :: t1 :: t2 :: t3 :: body) ++ rest) :
    extract (body.length + 4 : ℕ) c =
      .ok () { c with received := rest, message := some body, fourCC := ⟨t0, t1, t2, t3⟩ } := by
  set pre := leBytes 4 (body.length + 4) with hpre
  have hlen : pre.length = 4 := leBytes_length 4 _
  have h' : c.received = pre ++ (t0 :: t1 :: t2 :: t3 :: body ++ rest) := by
    rw [h, frame, List.append_assoc]
    rfl
  have h4 : item c.received 4 = .ok t0 := by
    rw [h']
    exact item_append_cons pre _ t0 (by rw [hlen]; rfl)
  have h5 : item c.received 5 = .ok t1 := by
    rw [h', show pre ++ (t0 :: t1 :: t2 :: t3 :: body ++ rest) =
      (pre ++ [t0]) ++ t1 :: (t2 :: t3 :: body ++ rest) by simp]
    exact item_append_cons _ _ t1 (by simp [hlen])
  have h6 : item c.received 6 = .ok t2 := by
    rw [h', show pre ++ (t0 :: t1 :: t2 :: t3 :: body ++ rest) =
      (pre ++ [t0, t1]) ++ t2 :: (t3 :: body ++ rest) by simp]
    exact item_append_cons _ _ t2 (by simp [hlen])
  have h7 : item c.received 7 = .ok t3 := by
    rw [h', show pre ++ (t0 :: t1 :: t2 :: t3 :: body ++ rest) =
      (pre ++ [t0, t1, t2]) ++ t3 :: (body ++ rest) by simp]
    exact item_append_cons _ _ t3 (by simp [hlen])
  have hrange : getRange c.received 8 (wrap32 ((body.length + 4 : ℕ) - 4)) = .ok body := by
    rw [h', show pre ++ (t0 :: t1 :: t2 :: t3 :: body ++ rest) =
      (pre ++ [t0, t1, t2, t3]) ++ (body ++ rest) by simp, wrap32_of_lt (by omega) (by omega)]
    exact getRange_mid _ _ _ (by simp [hlen]) (by omega)
  have hremove : removeRange c.received 0 (wrap32 (4 + (body.length + 4 : ℕ))) = .ok rest := by
    rw [h, wrap32_of_lt (by omega) (by omega)]
    exact removeRange_front _ _ (by rw [frame_length]; simp; omega)
  -- the tag is stored byte by byte, and none of the four stores touches the received bytes
  refine (bind_ok (copy4CC_ok (by exact h4))).trans ?_
  refine (bind_ok (copy4CC_ok (by exact h5))).trans ?_
  refine (bind_ok (copy4CC_ok (by exact h6))).trans ?_
  refine (bind_ok (copy4CC_ok (by exact h7))).trans ?_
  refine (throwing_bind (by exact hrange)).trans ?_
  rw [modify_bind]
  refine (throwing_bind (by exact hremove)).trans ?_
  rfl

/-- **A whole frame is taken off the received bytes and handed to the handlers.** -/
theorem parse_frame {t0 t1 t2 t3 : UInt8} {body : List UInt8} (hbody : body.length + 12 < 2 ^ 31)
    (h : c.received = frame 4 (t0 :: t1 :: t2 :: t3 :: body) ++ rest) :
    parse c = handleMessage
      { c with received := rest, message := some body, fourCC := ⟨t0, t1, t2, t3⟩ } := by
  let p : Payload 4 := ⟨t0 :: t1 :: t2 :: t3 :: body, by simp only [List.length_cons]; omega⟩
  have hlen : c.received.length = body.length + 8 + rest.length := by
    rw [h, List.length_append, frame_length]
    simp only [List.length_cons]
    omega
  have hword : toUInt32 c.received 0 = .ok (body.length + 4) := by
    rw [toUInt32_of_le (by omega), List.drop_zero, h]
    exact congrArg Except.ok (leValue_frame_take p rest)
  have hmsg : wrap32 (body.length + 4 : ℕ) = (body.length + 4 : ℕ) :=
    wrap32_of_lt (by omega) (by omega)
  have hneed : wrap32 ((body.length + 4 : ℕ) + 4) = body.length + 8 := by
    rw [wrap32_of_lt (by omega) (by omega)]
    omega
  rw [parse, get_bind, if_neg (by omega), throwing_bind hword, hmsg, hneed, if_neg (by omega),
    if_pos (by omega), bind_ok (extract_frame (by omega) h)]

end Parse

/-! ### The handlers -/

section Handlers

variable {c : V4L2Client}

theorem messageBytes_ok {msg : List UInt8} (h : c.message = some msg) :
    messageBytes c = .ok msg c := by
  simp only [messageBytes, throwing, h]

theorem handleMessage_jpeg {data : List UInt8} (hmsg : c.message = some data)
    (htag : c.fourCC = ⟨74, 80, 69, 71⟩) : handleMessage c = .ok [.jpeg data] c := by
  have hjpeg : onReceiveJpeg c = .ok [.jpeg data] c := by
    rw [onReceiveJpeg, bind_ok (messageBytes_ok hmsg)]
    rfl
  rw [handleMessage, get_bind, htag, if_pos (by decide)]
  exact bind_ok hjpeg

theorem handleMessage_gpio {bank values : List UInt8} (hbank : bank.length = 4)
    (hvalues : values.length = 4) (hmsg : c.message = some (bank ++ values))
    (htag : c.fourCC = ⟨71, 80, 73, 79⟩) :
    handleMessage c = .ok [.gpio (leValue bank) (leValue values)] c := by
  have hlen : (bank ++ values).length = 8 := by rw [List.length_append, hbank, hvalues]
  have h0 : toUInt32 (bank ++ values) 0 = .ok (leValue bank) := by
    rw [toUInt32_of_le (by omega), List.drop_zero, List.take_left' hbank]
  have h4 : toUInt32 (bank ++ values) 4 = .ok (leValue values) := by
    rw [toUInt32_of_le (by omega), List.drop_left' hbank, List.take_of_length_le (by omega)]
  have hgpio : onReceiveGpio c = .ok [.gpio (leValue bank) (leValue values)] c := by
    rw [onReceiveGpio, bind_ok (messageBytes_ok hmsg), throwing_bind h0, throwing_bind h4]
    rfl
  rw [handleMessage, get_bind, htag, if_neg (by decide)]
  show (onReceiveGpio >>= fun gpio => pure ([] ++ gpio)) c = _
  exact bind_ok hgpio

end Handlers

/-! ### One call of `RecieveMessage` -/

theorem readCount_le (n : ℕ) (available : List UInt8) :
    readCount n available ≤ available.length := by
  unfold readCount
  omega

theorem readCount_pos (n : ℕ) {available : List UInt8} (h : available ≠ []) :
    0 < readCount n available := by
  have hpos := List.length_pos_iff.mpr h
  unfold readCount readBufferLength
  omega

/-- A connected client takes some of the available bytes, all of them only if it can, and then
parses. -/
theorem recieveMessage_connected {c : V4L2Client} {available : List UInt8} (n : ℕ)
    (h : c.tcpClient = some ⟨true, available⟩) :
    recieveMessage n c = parse { c with
      tcpClient := some ⟨true, available.drop (readCount n available)⟩
      received := c.received ++ available.take (readCount n available) } := by
  obtain ⟨tcpClient, received, message, fourCC⟩ := c
  obtain rfl : tcpClient = some ⟨true, available⟩ := h
  rw [recieveMessage, get_bind]
  cases available with
  | nil => simp
  | cons b bs => exact bind_ok rfl

end MKart.ClientUnity
