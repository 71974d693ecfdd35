import Mathlib.Data.List.Basic

/-!
# Byte strings

`cstr` is the text of a string literal.  `overwrite buf off bytes` is a fixed-size buffer after
`bytes` have been stored at offset `off`: what `memcpy` into a vector, a store through a pointer
into it, or a `read` into its tail leaves behind.
-/

namespace MKart.Bytes

/-- The bytes of a C string literal, without its terminator. -/
def cstr (s : List Char) : List UInt8 := s.map fun c => UInt8.ofNat c.toNat

/-- The bytes of a buffer after `bytes` have been stored at index `off`. -/
def overwrite (buf : List UInt8) (off : ℕ) (bytes : List UInt8) : List UInt8 :=
  buf.take off ++ bytes ++ buf.drop (off + bytes.length)

theorem overwrite_take (buf bytes : List UInt8) (off : ℕ) (h : off ≤ buf.length) :
    (overwrite buf off bytes).take (off + bytes.length) = buf.take off ++ bytes := by
  have hlen : (buf.take off ++ bytes).length = off + bytes.length := by
    rw [List.length_append, List.length_take, Nat.min_eq_left h]
  rw [overwrite, ← hlen, List.take_left]

theorem overwrite_length (buf bytes : List UInt8) (off : ℕ)
    (h : off + bytes.length ≤ buf.length) : (overwrite buf off bytes).length = buf.length := by
  simp only [overwrite, List.length_append, List.length_take, List.length_drop]
  omega

/-- A store that reaches the end of the buffer. -/
theorem overwrite_to_end (buf bytes : List UInt8) (off : ℕ)
    (h : off + bytes.length = buf.length) : overwrite buf off bytes = buf.take off ++ bytes := by
  rw [overwrite, h, List.drop_length, List.append_nil]

/-- A store behind a part of the buffer leaves that part alone. -/
theorem overwrite_append_right (a b bytes : List UInt8) (off : ℕ) :
    overwrite (a ++ b) (a.length + off) bytes = a ++ overwrite b off bytes := by
  rw [overwrite, overwrite, List.take_length_add_append, Nat.add_assoc,
    List.drop_length_add_append]
  simp only [List.append_assoc]

/-- A store over the front of a buffer. -/
theorem overwrite_zero (a b bytes : List UInt8) (h : a.length = bytes.length) :
    overwrite (a ++ b) 0 bytes = bytes ++ b := by
  rw [overwrite, List.take_zero, List.nil_append, Nat.zero_add, List.drop_left' h]

end MKart.Bytes
