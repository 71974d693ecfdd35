import MKart.Lib.Runs
import MKart.ClientUnity.V4L2Client

/-!
# Any length prefix

`takeFrame` is the part of `RecieveMessage` between the read and the handlers, which takes at most
one frame off `m_Received`.  The prefix is 32 bits of whatever the peer has sent, narrowed to an
`int`.  `Handled` is what the extraction ought to do with it: not throw, not wrap `msgLen + 4`, and
remove a frame that is there.  It does so for the lengths 0 and 4 to 2^31 - 5, and for 1, 2 and 3
only as long as the frame is not there (`Sound`).
-/

namespace MKart.ClientUnity

open MKart.LittleEndian MKart.Framing MKart.Runs

/-- `RecieveMessage` behind the read, up to the handlers: whether a message was extracted. -/
def takeFrame : Unity Bool := do
  let count := (← get).received.length
  if count < 4 then return false
  let msgLen := wrap32 (← throwing fun c => toUInt32 c.received 0)
  if msgLen = 0 then
    let received ← throwing fun c => removeRange c.received 0 4
    modify fun c => { c with received := received }
    return false
  else if (count : ℤ) ≥ wrap32 (msgLen + 4) then
    extract msgLen
    return true
  else return false

/-- A call of `parse` extracts, and then handles what it has extracted. -/
theorem parse_eq_takeFrame :
    parse = takeFrame >>= fun extracted => if extracted then handleMessage else pure [] := by
  funext c
  unfold parse takeFrame
  rw [bind_assoc, get_bind, get_bind]
  by_cases hshort : c.received.length < 4
  · rw [if_pos hshort, if_pos hshort]
    rfl
  · rw [if_neg hshort, if_neg hshort, bind_assoc, throwing_bind (toUInt32_of_le (by omega)),
      throwing_bind (toUInt32_of_le (by omega))]
    dsimp only
    split
    · simp only [bind_assoc, pure_bind, Bool.false_eq_true, if_false]
    · split
      · simp only [bind_assoc, pure_bind, if_true]
      · rfl

/-! ### What a call leaves when it succeeds -/

section Inversion

variable {α β : Type} {c c' : V4L2Client}

theorem bind_inv {m : Unity α} {f : α → Unity β} {b : β} (h : (m >>= f) c = .ok b c') :
    ∃ a c₁, m c = .ok a c₁ ∧ f a c₁ = .ok b c' := by
  simp only [bind, EStateM.bind] at h
  cases hm : m c with
  | ok a c₁ =>
      rw [hm] at h
      exact ⟨a, c₁, rfl, h⟩
  | error e c₁ =>
      rw [hm] at h
      cases h

theorem throwing_inv {f : V4L2Client → Except Exn α} {a : α} (h : throwing f c = .ok a c') :
    f c = .ok a ∧ c' = c := by
  unfold throwing at h
  cases hf : f c with
  | ok a' =>
      rw [hf] at h
      cases h
      exact ⟨rfl, rfl⟩
  | error e =>
      rw [hf] at h
      cases h

/-- The tag bytes are stored without touching what was received. -/
theorem copy4CC_inv {i : ℤ} {store : FourCC → UInt8 → FourCC} {u : Unit}
    (h : copy4CC i store c = .ok u c') : c'.received = c.received := by
  obtain ⟨b, c₁, hitem, hmodify⟩ := bind_inv h
  obtain ⟨-, rfl⟩ := throwing_inv hitem
  cases hmodify
  rfl

/-- An extraction that succeeds has found both of its ranges. -/
theorem extract_inv {msgLen : ℤ} {u : Unit} (h : extract msgLen c = .ok u c') :
    (∃ message, getRange c.received 8 (wrap32 (msgLen - 4)) = .ok message) ∧
      ∃ received, removeRange c.received 0 (wrap32 (4 + msgLen)) = .ok received := by
  unfold extract at h
  obtain ⟨_, c₁, h4, h⟩ := bind_inv h
  obtain ⟨_, c₂, h5, h⟩ := bind_inv h
  obtain ⟨_, c₃, h6, h⟩ := bind_inv h
  obtain ⟨_, c₄, h7, h⟩ := bind_inv h
  have hreceived : c₄.received = c.received := by
    rw [copy4CC_inv h7, copy4CC_inv h6, copy4CC_inv h5, copy4CC_inv h4]
  obtain ⟨message, c₅, hrange, hstore⟩ := bind_inv h
  obtain ⟨hrange, rfl⟩ := throwing_inv hrange
  rw [modify_bind] at hstore
  obtain ⟨received, c₆, hremove, -⟩ := bind_inv hstore
  obtain ⟨hremove, -⟩ := throwing_inv hremove
  rw [hreceived] at hrange
  have hremove : removeRange c₅.received 0 (wrap32 (4 + msgLen)) = .ok received := hremove
  rw [hreceived] at hremove
  exact ⟨⟨message, hrange⟩, received, hremove⟩

end Inversion

/-! ### One extraction -/

/-- The number that the length prefix denotes. -/
def lengthPrefix (received : List UInt8) : ℕ := leValue (received.take 4)

theorem lengthPrefix_lt {received : List UInt8} (h : 4 ≤ received.length) :
    lengthPrefix received < 2 ^ 32 := by
  have hlt := leValue_lt (received.take 4)
  rw [List.length_take, Nat.min_eq_left h] at hlt
  exact hlt

/-- Numbers from 2^31 on turn negative. -/
theorem wrap32_of_ge {n : ℤ} (h0 : 2 ^ 31 ≤ n) (h1 : n < 2 ^ 32) : wrap32 n = n - 2 ^ 32 := by
  rw [wrap32, ← Int.sub_bmod_right]
  exact wrap32_of_lt (by omega) (by omega)

/-- What the extraction ought to do with the bytes received. -/
structure Handled (c : V4L2Client) : Prop where
  /-- It does not throw. -/
  returns : ∃ extracted c', takeFrame c = .ok extracted c'
  noWrap : 4 ≤ c.received.length →
    wrap32 (wrap32 (lengthPrefix c.received) + 4) = wrap32 (lengthPrefix c.received) + 4
  /-- A frame that is there is removed. -/
  removes : 4 ≤ c.received.length → lengthPrefix c.received + 4 ≤ c.received.length →
    ∀ extracted c', takeFrame c = .ok extracted c' →
      c'.received = c.received.drop (lengthPrefix c.received + 4)

/-- A length that the extraction gets right: 0, one that leaves room for the tag and does not
overflow, or one too short for a tag whose frame is not there. -/
def Sound (received : List UInt8) : Prop :=
  received.length < 4 ∨ lengthPrefix received = 0 ∨
    (4 ≤ lengthPrefix received ∧ lengthPrefix received + 4 < 2 ^ 31) ∨
    (lengthPrefix received < 4 ∧ received.length < lengthPrefix received + 4)

instance (received : List UInt8) : Decidable (Sound received) :=
  inferInstanceAs (Decidable (_ ∨ _))

section Extraction

variable {c : V4L2Client}

theorem takeFrame_short (h : c.received.length < 4) : takeFrame c = .ok false c := by
  rw [takeFrame, get_bind, if_pos h]
  rfl

/-- With a whole prefix, the extraction goes by its value as an `int`. -/
theorem takeFrame_long (h : 4 ≤ c.received.length) {msgLen : ℤ}
    (hmsg : wrap32 (lengthPrefix c.received) = msgLen) (hne : msgLen ≠ 0) :
    takeFrame c =
      if (c.received.length : ℤ) ≥ wrap32 (msgLen + 4) then
        (extract msgLen >>= fun _ => pure true) c
      else .ok false c := by
  have hword := toUInt32_of_le (l := c.received) (i := 0) (by omega)
  rw [List.drop_zero] at hword
  rw [takeFrame, get_bind, if_neg (by omega), throwing_bind hword,
    show wrap32 (leValue (c.received.take 4) : ℕ) = msgLen from hmsg, if_neg hne]
  split
  · rfl
  · rfl

theorem takeFrame_zero (h : 4 ≤ c.received.length) (hzero : lengthPrefix c.received = 0) :
    takeFrame c = .ok false { c with received := c.received.drop 4 } := by
  have hword := toUInt32_of_le (l := c.received) (i := 0) (by omega)
  rw [List.drop_zero] at hword
  have hremove : removeRange c.received 0 4 = .ok (c.received.drop 4) := by
    have hfront := removeRange_front (c.received.take 4) (c.received.drop 4) (n := 4)
      (by rw [List.length_take, Nat.min_eq_left h]; rfl)
    rwa [List.take_append_drop] at hfront
  have hmsg : wrap32 (leValue (c.received.take 4) : ℕ) = 0 := by
    rw [show leValue (c.received.take 4) = 0 from hzero]
    rfl
  rw [takeFrame, get_bind, if_neg (by omega), throwing_bind hword, if_pos hmsg,
    throwing_bind hremove, modify_bind]
  rfl

/-- A frame that is not there is waited for. -/
theorem takeFrame_waits (h : 4 ≤ c.received.length) (hpos : 0 < lengthPrefix c.received)
    (hlt : lengthPrefix c.received + 4 < 2 ^ 31)
    (hwaits : c.received.length < lengthPrefix c.received + 4) :
    takeFrame c = .ok false c := by
  have hmsg : wrap32 (lengthPrefix c.received) = lengthPrefix c.received :=
    wrap32_of_lt (by omega) (by omega)
  have hneed : wrap32 ((lengthPrefix c.received : ℤ) + 4) = lengthPrefix c.received + 4 :=
    wrap32_of_lt (by omega) (by omega)
  rw [takeFrame_long h hmsg (by omega), hneed, if_neg (by omega)]

/-- Bytes that hold a whole frame with a tag. -/
theorem eq_frame_append {received : List UInt8} (hfour : 4 ≤ lengthPrefix received)
    (hthere : lengthPrefix received + 4 ≤ received.length) :
    ∃ t0 t1 t2 t3 body, lengthPrefix received = body.length + 4 ∧
      received = frame 4 (t0 :: t1 :: t2 :: t3 :: body) ++
        received.drop (lengthPrefix received + 4) := by
  have hprefix : leBytes 4 (lengthPrefix received) = received.take 4 := by
    have hle := leBytes_leValue (received.take 4)
    rwa [List.length_take, Nat.min_eq_left (by omega)] at hle
  obtain ⟨payload, hpayload⟩ : ∃ payload, (received.drop 4).take (lengthPrefix received) =
      payload := ⟨_, rfl⟩
  have hlen : payload.length = lengthPrefix received := by
    rw [← hpayload, List.length_take, List.length_drop]
    omega
  have hsplit : received = frame 4 payload ++ received.drop (lengthPrefix received + 4) := by
    rw [frame, hlen, hprefix, ← hpayload, Nat.add_comm, ← List.drop_drop, List.append_assoc,
      List.take_append_drop, List.take_append_drop]
  rcases payload with _ | ⟨t0, _ | ⟨t1, _ | ⟨t2, _ | ⟨t3, body⟩⟩⟩⟩
  case cons.cons.cons.cons => exact ⟨t0, t1, t2, t3, body, hlen.symm, hsplit⟩
  -- a shorter payload has no room for a tag
  all_goals
    simp only [List.length_cons, List.length_nil] at hlen
    omega

/-- **A whole frame with a tag is taken off the bytes received.** -/
theorem takeFrame_takes (hfour : 4 ≤ lengthPrefix c.received)
    (hlt : lengthPrefix c.received + 4 < 2 ^ 31)
    (hthere : lengthPrefix c.received + 4 ≤ c.received.length) :
    ∃ t0 t1 t2 t3 body,
      lengthPrefix c.received = body.length + 4 ∧
      c.received = frame 4 (t0 :: t1 :: t2 :: t3 :: body) ++
        c.received.drop (lengthPrefix c.received + 4) ∧
      takeFrame c =
        .ok true { c with
          received := c.received.drop (lengthPrefix c.received + 4)
          message := some body
          fourCC := ⟨t0, t1, t2, t3⟩ } := by
  obtain ⟨t0, t1, t2, t3, body, hbody, hsplit⟩ := eq_frame_append hfour hthere
  have hmsg : wrap32 (lengthPrefix c.received) = (body.length + 4 : ℕ) := by
    rw [hbody]
    exact wrap32_of_lt (by omega) (by omega)
  have hneed : wrap32 ((body.length + 4 : ℕ) + 4) = body.length + 8 := by
    rw [wrap32_of_lt (by omega) (by omega)]
    omega
  refine ⟨t0, t1, t2, t3, body, hbody, hsplit, ?_⟩
  rw [takeFrame_long (by omega) hmsg (by omega), hneed, if_pos (by omega),
    bind_ok (extract_frame (by omega) hsplit)]
  rfl

/-- An extraction that starts and meets a negative range throws. -/
theorem takeFrame_throws (h : 4 ≤ c.received.length) {msgLen : ℤ}
    (hmsg : wrap32 (lengthPrefix c.received) = msgLen) (hne : msgLen ≠ 0)
    (hstarts : wrap32 (msgLen + 4) ≤ c.received.length)
    (hnegative : wrap32 (msgLen - 4) < 0 ∨ wrap32 (4 + msgLen) < 0) :
    ¬ ∃ extracted c', takeFrame c = .ok extracted c' := by
  rintro ⟨extracted, c', hok⟩
  rw [takeFrame_long h hmsg hne, if_pos hstarts] at hok
  obtain ⟨_, _, hextract, -⟩ := bind_inv hok
  obtain ⟨⟨message, hrange⟩, received, hremove⟩ := extract_inv hextract
  rcases hnegative with hneg | hneg
  · rw [getRange, if_pos (Or.inr hneg)] at hrange
    cases hrange
  · rw [removeRange, if_pos (Or.inr hneg)] at hremove
    cases hremove

theorem noWrap_of_lt {n : ℕ} (h : n + 4 < 2 ^ 31) : wrap32 (wrap32 n + 4) = wrap32 n + 4 := by
  rw [wrap32_of_lt (n := n) (by omega) (by omega), wrap32_of_lt (by omega) (by omega)]

theorem handled_of_sound (h : Sound c.received) : Handled c := by
  by_cases hlen : c.received.length < 4
  · exact ⟨⟨_, _, takeFrame_short hlen⟩, fun h => absurd hlen (Nat.not_lt_of_le h),
      fun h => absurd hlen (Nat.not_lt_of_le h)⟩
  · rcases h with hshort | hzero | ⟨hfour, hlt⟩ | ⟨hsmall, hwaits⟩
    · exact absurd hshort hlen
    · have htake := takeFrame_zero (by omega) hzero
      refine ⟨⟨_, _, htake⟩, fun _ => noWrap_of_lt (by omega), ?_⟩
      intro _ _ extracted c' hok
      rw [htake] at hok
      cases hok
      rw [hzero]
    · by_cases hthere : lengthPrefix c.received + 4 ≤ c.received.length
      · obtain ⟨t0, t1, t2, t3, body, -, -, htake⟩ := takeFrame_takes hfour hlt hthere
        refine ⟨⟨_, _, htake⟩, fun _ => noWrap_of_lt hlt, ?_⟩
        intro _ _ extracted c' hok
        rw [htake] at hok
        cases hok
        rfl
      · have htake := takeFrame_waits (by omega) (by omega) hlt (by omega)
        exact ⟨⟨_, _, htake⟩, fun _ => noWrap_of_lt hlt, fun _ h => absurd h hthere⟩
    · have htake := takeFrame_waits (by omega) (by omega) (by omega) hwaits
      exact ⟨⟨_, _, htake⟩, fun _ => noWrap_of_lt (by omega),
        fun _ hthere => absurd hthere (by omega)⟩

theorem sound_of_handled (h : Handled c) : Sound c.received := by
  unfold Sound
  by_contra hsound
  push Not at hsound
  obtain ⟨hlen, hne, hroom, hsmall⟩ := hsound
  have hlt := lengthPrefix_lt hlen
  have hwrap := h.noWrap hlen
  rcases Nat.lt_or_ge (lengthPrefix c.received) 4 with h4 | h4
  · -- the frame is there, and has no room for a tag
    have hmsg : wrap32 (lengthPrefix c.received) = lengthPrefix c.received :=
      wrap32_of_lt (by omega) (by omega)
    rw [hmsg] at hwrap
    refine takeFrame_throws hlen hmsg (by omega) ?_ (Or.inl ?_) h.returns
    · rw [hwrap]
      have hthere := hsmall h4
      omega
    · rw [wrap32_of_lt (by omega) (by omega)]
      omega
  · have hbig := hroom h4
    rcases Nat.lt_or_ge (lengthPrefix c.received) (2 ^ 31) with hint | hneg
    · -- four more do not fit an `int`
      rw [wrap32_of_lt (n := lengthPrefix c.received) (by omega) (by omega),
        wrap32_of_ge (by omega) (by omega)] at hwrap
      omega
    · -- the length is negative, and so is one of the two ranges
      have hmsg : wrap32 (lengthPrefix c.received) = (lengthPrefix c.received : ℤ) - 2 ^ 32 :=
        wrap32_of_ge (by omega) (by omega)
      rw [hmsg] at hwrap
      refine takeFrame_throws hlen hmsg (by omega) ?_ ?_ h.returns
      · rw [hwrap]
        omega
      · rcases Int.lt_or_le ((lengthPrefix c.received : ℤ) - 2 ^ 32) (-4) with hfar | hnear
        · refine Or.inr ?_
          rw [wrap32_of_lt (by omega) (by omega)]
          omega
        · refine Or.inl ?_
          rw [wrap32_of_lt (by omega) (by omega)]
          omega

/-- **The extraction handles the bytes received exactly if their length is sound.** -/
theorem handled_iff (c : V4L2Client) : Handled c ↔ Sound c.received :=
  ⟨sound_of_handled, handled_of_sound⟩

end Extraction

/-! ### Runs of calls -/

/-- What a call finds: the bytes that have arrived since the last one, and how many of them its
read returns. -/
structure Arrival where
  bytes : List UInt8
  count : ℕ

def arrive (bytes : List UInt8) (c : V4L2Client) : V4L2Client :=
  { c with tcpClient := c.tcpClient.map fun tcp =>
      { tcp with available := tcp.available ++ bytes } }

/-- The client after the read of a call, before the extraction. -/
def reading (n : ℕ) (c : V4L2Client) : V4L2Client :=
  match c.tcpClient with
  | none => c
  | some tcp =>
      { c with
        tcpClient :=
          some { tcp with available := tcp.available.drop (readCount n tcp.available) }
        received := c.received ++ tcp.available.take (readCount n tcp.available) }

/-- The client that a call leaves, whether it returns or throws. -/
def leaves {α : Type} : EStateM.Result Exn V4L2Client α → V4L2Client
  | .ok _ c => c
  | .error _ c => c

def callStep (c : V4L2Client) (i : Arrival) : V4L2Client :=
  leaves (recieveMessage i.count (arrive i.bytes c))

/-- The call goes through the extraction, which handles what has been received. -/
def CallHandled (c : V4L2Client) (i : Arrival) : Prop :=
  recieveMessage i.count (arrive i.bytes c) = parse (reading i.count (arrive i.bytes c)) ∧
    Handled (reading i.count (arrive i.bytes c))

/-- The length prefix at the front of what has been received is sound. -/
def CallSound (c : V4L2Client) (i : Arrival) : Prop :=
  Sound (reading i.count (arrive i.bytes c)).received

/-- The fields of a new object. -/
def V4L2Client.construct : V4L2Client where
  tcpClient := none
  received := []
  message := none
  fourCC := ⟨0, 0, 0, 0⟩

/-- A client of whatever past on a connection that is up. -/
def connected (c : V4L2Client) : V4L2Client := { c with tcpClient := some ⟨true, []⟩ }

def IsConnected (c : V4L2Client) : Prop := ∃ available, c.tcpClient = some ⟨true, available⟩

theorem recieveMessage_reading {c : V4L2Client} (n : ℕ) (h : IsConnected c) :
    recieveMessage n c = parse (reading n c) := by
  obtain ⟨available, htcp⟩ := h
  rw [recieveMessage_connected n htcp, reading, htcp]

theorem arrive_connected {c : V4L2Client} (bytes : List UInt8) (h : IsConnected c) :
    IsConnected (arrive bytes c) := by
  obtain ⟨available, htcp⟩ := h
  exact ⟨available ++ bytes, by rw [arrive, htcp]; rfl⟩

theorem reading_connected {c : V4L2Client} (n : ℕ) (h : IsConnected c) :
    IsConnected (reading n c) := by
  obtain ⟨available, htcp⟩ := h
  exact ⟨_, by rw [reading, htcp]⟩

/-! ### What a call leaves alone -/

/-- Whether it returns or throws, the call leaves `f` of the object as it was. -/
def Frame {α γ : Type} (f : V4L2Client → γ) (m : Unity α) : Prop := ∀ c, f (leaves (m c)) = f c

section Frame

variable {α β γ : Type} {f : V4L2Client → γ}

theorem frame_bind {m : Unity α} {k : α → Unity β} (hm : Frame f m) (hk : ∀ a, Frame f (k a)) :
    Frame f (m >>= k) := by
  intro c
  have hm := hm c
  simp only [bind, EStateM.bind]
  cases h : m c with
  | ok a c₁ =>
      rw [h] at hm
      exact (hk a c₁).trans hm
  | error e c₁ =>
      rw [h] at hm
      exact hm

theorem frame_throwing (g : V4L2Client → Except Exn α) : Frame f (throwing g) := by
  intro c
  unfold throwing
  cases g c with
  | ok a => rfl
  | error e => rfl

theorem frame_pure (a : α) : Frame f (pure a : Unity α) := fun _ => rfl

theorem frame_get : Frame f (get : Unity V4L2Client) := fun _ => rfl

theorem frame_modify {g : V4L2Client → V4L2Client} (h : ∀ c, f (g c) = f c) :
    Frame f (modify g : Unity PUnit) := fun c => h c

theorem frame_ite {p : Prop} [Decidable p] {m m' : Unity α} (hm : Frame f m) (hm' : Frame f m') :
    Frame f (if p then m else m') := by
  split
  · exact hm
  · exact hm'

/-- The handlers only raise events. -/
theorem frame_handleMessage : Frame f handleMessage := by
  have hbytes : Frame f messageBytes := frame_throwing _
  have hjpeg : Frame f onReceiveJpeg := frame_bind hbytes fun _ => frame_pure _
  have hgpio : Frame f onReceiveGpio := by
    refine frame_bind hbytes fun _ => ?_
    refine frame_bind (frame_throwing _) fun _ => ?_
    exact frame_bind (frame_throwing _) fun _ => frame_pure _
  refine frame_bind frame_get fun c => ?_
  have hsecond : ∀ jpeg : List Event, Frame f (if is4CC c.fourCC 'G' 'P' 'I' 'O' then
      onReceiveGpio >>= fun gpio => pure (jpeg ++ gpio)
      else pure [] >>= fun gpio => pure (jpeg ++ gpio)) := fun _ =>
    frame_ite (frame_bind hgpio fun _ => frame_pure _) (frame_pure _)
  exact frame_ite (frame_bind hjpeg hsecond) (frame_bind (frame_pure _) hsecond)

end Frame

/-- No call opens or closes the connection. -/
theorem frame_extract (msgLen : ℤ) : Frame V4L2Client.tcpClient (extract msgLen) := by
  have hcopy : ∀ i store, Frame V4L2Client.tcpClient (copy4CC i store) := fun _ _ =>
    frame_bind (frame_throwing _) fun _ => frame_modify fun _ => rfl
  refine frame_bind (hcopy _ _) fun _ => ?_
  refine frame_bind (hcopy _ _) fun _ => ?_
  refine frame_bind (hcopy _ _) fun _ => ?_
  refine frame_bind (hcopy _ _) fun _ => ?_
  refine frame_bind (frame_throwing _) fun _ => ?_
  refine frame_bind (frame_modify fun _ => rfl) fun _ => ?_
  exact frame_bind (frame_throwing _) fun _ => frame_modify fun _ => rfl

theorem frame_takeFrame : Frame V4L2Client.tcpClient takeFrame := by
  refine frame_bind frame_get fun _ => frame_ite (frame_pure _) ?_
  refine frame_bind (frame_throwing _) fun _ => frame_ite ?_ (frame_ite ?_ (frame_pure _))
  · refine frame_bind (frame_throwing _) fun _ => ?_
    exact frame_bind (frame_modify fun _ => rfl) fun _ => frame_pure _
  · exact frame_bind (frame_extract _) fun _ => frame_pure _

theorem frame_parse : Frame V4L2Client.tcpClient parse := by
  rw [parse_eq_takeFrame]
  exact frame_bind frame_takeFrame fun _ => frame_ite frame_handleMessage (frame_pure _)

theorem callStep_connected {c : V4L2Client} (i : Arrival) (h : IsConnected c) :
    IsConnected (callStep c i) := by
  have harrived := arrive_connected i.bytes h
  obtain ⟨available, htcp⟩ := reading_connected i.count harrived
  refine ⟨available, ?_⟩
  rw [callStep, recieveMessage_reading _ harrived]
  exact (frame_parse _).trans htcp

/-- **A run of calls handles every length exactly if each call meets a sound one.** -/
theorem calls_handled_iff (c : V4L2Client) (calls : List Arrival) :
    Meets callStep CallHandled (connected c) calls ↔
      Meets callStep CallSound (connected c) calls := by
  have hkeep : ∀ c i, IsConnected c → IsConnected (callStep c i) :=
    fun c i h => callStep_connected i h
  have hcall : ∀ c i, IsConnected c → (CallHandled c i ↔ CallSound c i) := by
    intro c i h
    have hparse := recieveMessage_reading i.count (arrive_connected i.bytes h)
    exact (and_iff_right hparse).trans (handled_iff _)
  exact meets_congr hkeep hcall ⟨[], rfl⟩

/-- A message of one byte: the tag does not fit, and the indexer throws. -/
theorem length_one_throws :
    ¬ Meets callStep CallHandled (connected V4L2Client.construct) [⟨[1, 0, 0, 0, 65], 5⟩] := by
  intro h
  have hlen : 4 ≤ (reading 5 (arrive [1, 0, 0, 0, 65]
      (connected V4L2Client.construct))).received.length := by decide
  have hmsg : wrap32 (lengthPrefix (reading 5 (arrive [1, 0, 0, 0, 65]
      (connected V4L2Client.construct))).received) = 1 := by decide
  exact takeFrame_throws hlen hmsg (by decide) (by decide) (Or.inl (by decide)) h.1.2.returns

end MKart.ClientUnity
