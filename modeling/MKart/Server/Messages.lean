import MKart.Lib.Bytes
import MKart.Lib.Framing

/-!
# The messages of the server

The three places of `server/src` that build a message, each filling its own buffer and
computing its own length field: the JPEG message in `V4L2::capture`, the GPIO message in
`Cmds::send_gpio_value` and the keep-alive in `RpiServer::send_keepalive`.  All three turn
out to be frames of the README's format, `sizeof(data)` and then `data`.
-/

namespace MKart.Server

open MKart.Bytes MKart.LittleEndian MKart.Framing

/-- The characters `'J' 'P' 'E' 'G'`. -/
def jpegTag : List UInt8 := [74, 80, 69, 71]

/-- The characters `'G' 'P' 'I' 'O'`. -/
def gpioTag : List UInt8 := [71, 80, 73, 79]

/-- `memcpy` out of the memory at `ptr`. -/
def readBytes (ptr : ℕ → UInt8) (n : ℕ) : List UInt8 := (List.range n).map ptr

@[simp] theorem readBytes_length (ptr : ℕ → UInt8) (n : ℕ) : (readBytes ptr n).length = n := by
  simp [readBytes]

/-- The message `V4L2::capture` builds in `sent_buf` from the `bytesused` bytes at `ptr`.
`bytesused + 8` is 32-bit arithmetic; when it wraps the stores that follow fall outside the
vector, which has no defined outcome (`none`). -/
def jpegMessage (bytesused : UInt32) (ptr : ℕ → UInt8) : Option (List UInt8) :=
  let size := (bytesused + 8).toNat
  if size < 8 + bytesused.toNat then none
  else
    let sentBuf := List.replicate size 0
    let sentBuf := overwrite sentBuf 4 jpegTag
    let sentBuf := overwrite sentBuf 8 (readBytes ptr bytesused.toNat)
    some (overwrite sentBuf 0 (leBytes 4 (bytesused + 4).toNat))

/-- The message of `Cmds::send_gpio_value`.  `sent_buf` is static, but every byte of it is
stored anew. -/
def gpioMessage (bank values : UInt32) : List UInt8 :=
  let sentBuf := List.replicate 16 0
  let sentBuf := overwrite sentBuf 0 (leBytes 4 12)
  let sentBuf := overwrite sentBuf 4 gpioTag
  let sentBuf := overwrite sentBuf 8 (leBytes 4 bank.toNat)
  overwrite sentBuf 12 (leBytes 4 values.toNat)

/-- The message of `RpiServer::send_keepalive`. -/
def keepAliveMessage : List UInt8 := [0, 0, 0, 0]

theorem keepAliveMessage_eq : keepAliveMessage = frame 4 [] := rfl

theorem gpioMessage_eq (bank values : UInt32) :
    gpioMessage bank values =
      frame 4 (gpioTag ++ leBytes 4 bank.toNat ++ leBytes 4 values.toNat) := rfl

theorem jpegMessage_eq (bytesused : UInt32) (ptr : ℕ → UInt8)
    (h : bytesused.toNat + 8 < 2 ^ 32) :
    jpegMessage bytesused ptr = some (frame 4 (jpegTag ++ readBytes ptr bytesused.toNat)) := by
  have h8 : (bytesused + 8).toNat = 8 + bytesused.toNat := by
    rw [UInt32.toNat_add, show (8 : UInt32).toNat = 8 from rfl]
    omega
  have h4 : (bytesused + 4).toNat = 4 + bytesused.toNat := by
    rw [UInt32.toNat_add, show (4 : UInt32).toNat = 4 from rfl]
    omega
  have hbuf : List.replicate (8 + bytesused.toNat) (0 : UInt8) =
      [0, 0, 0, 0] ++ ([0, 0, 0, 0] ++ List.replicate bytesused.toNat 0) := by
    rw [List.replicate_add]
    rfl
  have htag : overwrite (List.replicate (8 + bytesused.toNat) 0) 4 jpegTag =
      ([0, 0, 0, 0] ++ jpegTag) ++ List.replicate bytesused.toNat 0 := by
    rw [hbuf, show (4 : ℕ) = ([0, 0, 0, 0] : List UInt8).length + 0 from rfl,
      overwrite_append_right, overwrite_zero [0, 0, 0, 0] _ jpegTag rfl, List.append_assoc]
  have hdata : overwrite (([0, 0, 0, 0] ++ jpegTag) ++ List.replicate bytesused.toNat 0) 8
      (readBytes ptr bytesused.toNat) =
        [0, 0, 0, 0] ++ (jpegTag ++ readBytes ptr bytesused.toNat) := by
    rw [show (8 : ℕ) = ([0, 0, 0, 0] ++ jpegTag).length + 0 from rfl, overwrite_append_right,
      ← List.append_nil (List.replicate bytesused.toNat 0),
      overwrite_zero _ _ _ (by simp), List.append_nil, List.append_assoc]
  simp only [jpegMessage, h8, h4, lt_irrefl, if_false, htag, hdata]
  rw [overwrite_zero [0, 0, 0, 0] _ _ (by simp), frame, List.length_append, readBytes_length]
  rfl

/-- The only undefined case: the size of the message does not fit 32 bits. -/
theorem jpegMessage_eq_none (bytesused : UInt32) (ptr : ℕ → UInt8) :
    jpegMessage bytesused ptr = none ↔ 2 ^ 32 ≤ bytesused.toNat + 8 := by
  constructor
  · intro hnone
    by_contra hlt
    rw [jpegMessage_eq bytesused ptr (by omega)] at hnone
    exact absurd hnone (by simp)
  · intro hge
    have hlt := bytesused.toNat_lt
    have h8 : (bytesused + 8).toNat < 8 + bytesused.toNat := by
      rw [UInt32.toNat_add, show (8 : UInt32).toNat = 8 from rfl]
      omega
    exact if_pos h8

theorem eq_of_jpegMessage {bytesused : UInt32} {ptr : ℕ → UInt8} {buf : List UInt8}
    (h : jpegMessage bytesused ptr = some buf) :
    buf = frame 4 (jpegTag ++ readBytes ptr bytesused.toNat) := by
  have hfits : ¬ 2 ^ 32 ≤ bytesused.toNat + 8 := by
    rw [← jpegMessage_eq_none bytesused ptr, h]
    exact Option.some_ne_none buf
  rw [jpegMessage_eq bytesused ptr (by omega)] at h
  exact (Option.some.inj h).symm

/-! Whatever is sent is a frame. -/

theorem keepAliveMessage_isFrame : IsFrame 4 keepAliveMessage :=
  ⟨⟨[], by decide⟩, keepAliveMessage_eq⟩

theorem gpioMessage_isFrame (bank values : UInt32) : IsFrame 4 (gpioMessage bank values) := by
  refine ⟨⟨_, ?_⟩, gpioMessage_eq bank values⟩
  simp [gpioTag]

theorem jpegMessage_isFrame {bytesused : UInt32} {ptr : ℕ → UInt8} {buf : List UInt8}
    (h : jpegMessage bytesused ptr = some buf) : IsFrame 4 buf := by
  have hfits : bytesused.toNat + 8 < 2 ^ 32 := by
    by_contra hwraps
    have hnone := (jpegMessage_eq_none bytesused ptr).mpr (by omega)
    exact absurd (hnone.symm.trans h) (Option.some_ne_none buf).symm
  refine ⟨⟨_, ?_⟩, eq_of_jpegMessage h⟩
  simp only [jpegTag, List.length_append, List.length_cons, List.length_nil, readBytes_length]
  omega

end MKart.Server
