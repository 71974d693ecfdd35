import MKart.System.Pins

/-!
# The test panel of the Unity client

`TestV4L2Client` has a button that sets the pin `GpioNumber`, one that clears it, and a text for
each bank in which the latest reading stands in binary.  When the reading that a button has asked
for arrives, the text of the first bank shows at the place of the pin what the button has set, and
the other text is left alone (`pressed_shown`).

`GpioNumber` is any `int`: the mode is set of the pin of this number, but the shift that makes the
bit mask takes only the low five bits.  So the button works for the pins of the first bank, and for
another number only if the pin that its low five bits name is an output already.
-/

namespace MKart.System.Display

open MKart.Runs MKart.Server MKart.System.Pins

/-! ### The buttons -/

/-- `(uint)(1 << GpioNumber)`. -/
def bitMask (gpioNumber : Int32) : UInt32 := 1 <<< gpioNumber.toUInt32

def gpioTestHigh (gpioNumber : Int32) : List Command :=
  [.gpioSetModeOut gpioNumber.toUInt32, .gpioSet_0_31_High (bitMask gpioNumber), .gpioGet_0_31]

def gpioTestLow (gpioNumber : Int32) : List Command :=
  [.gpioSetModeOut gpioNumber.toUInt32, .gpioSet_0_31_Low (bitMask gpioNumber), .gpioGet_0_31]

def gpioTest (gpioNumber : Int32) (high : Bool) : List Command :=
  if high then gpioTestHigh gpioNumber else gpioTestLow gpioNumber

/-- The pin that the bit mask names. -/
def pin (gpioNumber : Int32) : ℕ := gpioNumber.toUInt32.toNat % 32

theorem pin_lt (gpioNumber : Int32) : pin gpioNumber < 32 := Nat.mod_lt _ (by decide)

theorem testBit_bitMask (gpioNumber : Int32) :
    (bitMask gpioNumber).toNat.testBit (pin gpioNumber) = true := by
  rw [bitMask, UInt32.toNat_shiftLeft, Nat.testBit_mod_two_pow]
  show (decide (pin gpioNumber < 32) && (1 <<< pin gpioNumber).testBit (pin gpioNumber)) = true
  rw [decide_eq_true (pin_lt gpioNumber), Nat.one_shiftLeft, Nat.testBit_two_pow_self]
  rfl

/-- What a button sends before its request. -/
def writes (gpioNumber : Int32) (high : Bool) : List Command :=
  [.gpioSetModeOut gpioNumber.toUInt32,
    if high then .gpioSet_0_31_High (bitMask gpioNumber)
    else .gpioSet_0_31_Low (bitMask gpioNumber)]

theorem gpioTest_eq (gpioNumber : Int32) (high : Bool) :
    gpioTest gpioNumber high = writes gpioNumber high ++ [.gpioGet_0_31] := by
  cases high <;> rfl

theorem requests_gpioTest (gpioNumber : Int32) (high : Bool) (front rest : List Command) :
    requests front (gpioTest gpioNumber high ++ rest) =
      (front ++ writes gpioNumber high) ::
        requests (front ++ gpioTest gpioNumber high) rest := by
  rw [requests_append, gpioTest_eq, requests_append]
  cases high <;> rfl

/-- The button works for a pin of the first bank, and for one that is an output already. -/
def Works (gpioNumber : Int32) (front : List Command) : Prop :=
  gpioNumber.toUInt32.toNat < 32 ∨ driven front (pin gpioNumber) ≠ .unknown

instance (gpioNumber : Int32) (front : List Command) : Decidable (Works gpioNumber front) :=
  inferInstanceAs (Decidable (_ ∨ _))

theorem driven_writes {gpioNumber : Int32} {front : List Command} (h : Works gpioNumber front)
    (high : Bool) : driven (front ++ writes gpioNumber high) (pin gpioNumber) = .level high := by
  have hmode : drive (pin gpioNumber) (driven front (pin gpioNumber))
      (.gpioSetModeOut gpioNumber.toUInt32) ≠ .unknown := by
    simp only [drive]
    split
    · exact fun h => by cases h
    · rename_i hskip
      intro hunknown
      have hpin : gpioNumber.toUInt32.toNat = pin gpioNumber :=
        (Nat.mod_eq_of_lt (h.resolve_right (not_not.mpr hunknown))).symm
      exact hskip ⟨hpin, hunknown⟩
  have hwrites : front ++ writes gpioNumber high =
      front ++ [.gpioSetModeOut gpioNumber.toUInt32] ++
        [if high then .gpioSet_0_31_High (bitMask gpioNumber)
          else .gpioSet_0_31_Low (bitMask gpioNumber)] := by
    rw [List.append_assoc]
    rfl
  rw [hwrites, driven_concat, driven_concat]
  cases high with
  | false => exact if_pos ⟨testBit_bitMask gpioNumber, hmode⟩
  | true => exact if_pos ⟨testBit_bitMask gpioNumber, hmode⟩

/-! ### The texts -/

/-- `"01"[(int)(value & 1)]`. -/
def digit (value : ℕ) : Char := if value &&& 1 = 1 then '1' else '0'

def toBin (value : ℕ) : ℕ → List Char
  | len + 2 => toBin (value >>> 1) (len + 1) ++ [digit value]
  | _ => [digit value]

theorem length_toBin (value len : ℕ) : (toBin value (len + 1)).length = len + 1 := by
  induction len generalizing value with
  | zero => rfl
  | succ len ih => rw [toBin, List.length_append, ih, List.length_singleton]

/-- Bit `i` stands at place `i` from the right. -/
theorem getElem?_toBin (value : ℕ) {len i : ℕ} (h : i ≤ len) :
    (toBin value (len + 1))[len - i]? = some (digit (value >>> i)) := by
  induction len generalizing value i with
  | zero =>
      obtain rfl := Nat.le_zero.mp h
      rfl
  | succ len ih =>
      cases i with
      | zero =>
          rw [toBin, Nat.sub_zero, List.getElem?_append_right (length_toBin _ len).le,
            length_toBin, Nat.sub_self]
          rfl
      | succ i =>
          have hlt : len - i < (toBin (value >>> 1) (len + 1)).length := by
            rw [length_toBin]
            omega
          rw [toBin, Nat.add_sub_add_right, List.getElem?_append_left hlt,
            ih (value >>> 1) (Nat.le_of_succ_le_succ h), ← Nat.shiftRight_add, Nat.add_comm 1 i]

theorem digit_shiftRight (value i : ℕ) :
    digit (value >>> i) = if value.testBit i then '1' else '0' := by
  simp only [digit, Nat.testBit, Nat.and_comm 1, Nat.and_one_is_mod]
  rcases Nat.mod_two_eq_zero_or_one (value >>> i) with h | h <;> rw [h] <;> rfl

example : toBin 5 4 = ['0', '1', '0', '1'] := rfl

structure TestV4L2Client where
  gpioBank1 : List Char
  gpioBank2 : List Char
  deriving DecidableEq, Repr

namespace TestV4L2Client

/-- The handler of `GPIOValuesReceived`. -/
def receive (t : TestV4L2Client) (i_Vals : ℕ × ℕ) : TestV4L2Client :=
  if i_Vals.1 = 1 then { t with gpioBank1 := toBin i_Vals.2 32 }
  else { t with gpioBank2 := toBin i_Vals.2 32 }

/-- A picture changes no text. -/
def handle (t : TestV4L2Client) (ev : ClientUnity.Event) : TestV4L2Client :=
  match gpio ev with
  | some i_Vals => t.receive i_Vals
  | none => t

/-- The texts after some events. -/
def shown (t : TestV4L2Client) (evs : List ClientUnity.Event) : TestV4L2Client :=
  evs.foldl handle t

theorem shown_eq (t : TestV4L2Client) (evs : List ClientUnity.Event) :
    t.shown evs = (evs.filterMap gpio).foldl receive t := by
  induction evs generalizing t with
  | nil => rfl
  | cons ev evs ih =>
      show (t.handle ev).shown evs = _
      rw [ih]
      cases ev <;> rfl

/-- Readings of the first bank leave the other text alone. -/
theorem foldl_receive {t : TestV4L2Client} {rs : List (ℕ × ℕ)} (hbank : ∀ r ∈ rs, r.1 = 1) :
    (rs.foldl receive t).gpioBank2 = t.gpioBank2 := by
  induction rs generalizing t with
  | nil => rfl
  | cons r rs ih =>
      have hone : t.receive r = { t with gpioBank1 := toBin r.2 32 } :=
        if_pos (hbank r List.mem_cons_self)
      rw [List.foldl_cons, ih fun r hr => hbank r (List.mem_cons_of_mem _ hr), hone]

/-- The text of the first bank is the latest reading, if that is of the bank. -/
theorem shown_bank1 (t : TestV4L2Client) {evs : List ClientUnity.Event} {k values : ℕ}
    (hlast : (evs.filterMap gpio).length = k + 1)
    (hreading : (evs.filterMap gpio)[k]? = some (1, values)) :
    (t.shown evs).gpioBank1 = toBin values 32 := by
  have hsplit : evs.filterMap gpio = (evs.filterMap gpio).take k ++ [(1, values)] := by
    rw [← Option.toList_some, ← hreading, ← List.take_add_one, ← hlast, List.take_length]
  rw [shown_eq, hsplit, List.foldl_append]
  rfl

end TestV4L2Client

/-! ### What is shown -/

/-- **A button shows what it sets.**  In every run whose steps meet the condition: if the latest
reading raised is the one that a button has asked for, the text of the first bank has at the place
of the pin the digit of what the button has set, and the other text is as it was. -/
theorem pressed_shown {P : Type} {g : Pigpio P} {v : Levels P} (hdoc : Documented g v) (p : P)
    (d : Device) (now later : ℤ) (is : List Input)
    (hplace : Meets (Session.step g) (InPlace g) (.start p d now later) is) :
    Always (Session.step g)
      (fun s => ∀ (front rest : List Command) (gpioNumber : Int32) (high : Bool)
        (t : TestV4L2Client), s.sent = front ++ gpioTest gpioNumber high ++ rest →
        Works gpioNumber front →
        (s.inner.raised.filterMap gpio).length = (requests [] front).length + 1 →
          (t.shown s.inner.raised).gpioBank1[31 - pin gpioNumber]? =
              some (if high then '1' else '0') ∧
            (t.shown s.inner.raised).gpioBank2 = t.gpioBank2)
      (.start p d now later) is := by
  refine (always_of_meets (step_inv hdoc) (inv_start v p d now later) hplace).imp ?_
  intro s h front rest gpioNumber high t hsent hworks hlast
  have hrequest : (requests [] s.sent)[(requests [] front).length]? =
      some (front ++ writes gpioNumber high) := by
    rw [hsent, List.append_assoc, requests_append, requests_gpioTest]
    simp
  obtain ⟨⟨bank, values⟩, hreading⟩ : ∃ r,
      (s.inner.raised.filterMap gpio)[(requests [] front).length]? = some r :=
    ⟨_, List.getElem?_eq_getElem (hlast ▸ Nat.lt_succ_self _)⟩
  obtain ⟨before, hbefore, rfl, hshows⟩ := h.shows hreading
  obtain rfl : front ++ writes gpioNumber high = before :=
    Option.some.inj (hrequest.symm.trans hbefore)
  constructor
  · rw [t.shown_bank1 hlast hreading, getElem?_toBin values (Nat.le_of_lt_succ (pin_lt gpioNumber)),
      digit_shiftRight, hshows _ (pin_lt gpioNumber) high (driven_writes hworks high)]
  · rw [TestV4L2Client.shown_eq]
    refine TestV4L2Client.foldl_receive fun r hr => ?_
    obtain ⟨k, hk⟩ := List.mem_iff_getElem?.mp hr
    obtain ⟨-, -, hbank, -⟩ := h.shows hk
    exact hbank

theorem pressed_shown_high :
    let s := run (Session.step Latches.pigpio) (.start Latches.low .camera 0 0)
      (sends (gpioTest 21 true) ++ [.arrive 16, .recieve 100])
    (TestV4L2Client.shown ⟨[], []⟩ s.inner.raised).gpioBank1[10]? = some '1' ∧
      (TestV4L2Client.shown ⟨[], []⟩ s.inner.raised).gpioBank2 = [] := by
  have hplace : Meets (Session.step Latches.pigpio) (InPlace Latches.pigpio)
      (.start Latches.low .camera 0 0)
      (sends (gpioTest 21 true) ++ [.arrive 16, .recieve 100]) := by
    decide +kernel
  have h := (pressed_shown Latches.documented Latches.low .camera 0 0 _ hplace).last
    [] [] 21 true ⟨[], []⟩
  refine h ?_ ?_ ?_
  · decide +kernel
  · decide
  · decide +kernel

end MKart.System.Display
