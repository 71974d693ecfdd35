import MKart.Lib.LittleEndian

/-!
# Archives

`client-qt/common/kart_archive.h`, of which `server/src/archive.h` is a copy.  An archive writes
and reads integers of six types by copying their representation, which on the machines of both
sides is little-endian.  The overloads of `write` and `read` are one template each, so the model
has one definition for all types (`IntType`).
-/

namespace MKart.ClientQt

open MKart.LittleEndian

inductive IntType
  | uint8
  | uint16
  | uint32
  | int8
  | int16
  | int32
  deriving DecidableEq, Repr

namespace IntType

/-- The values of the type. -/
abbrev Val : IntType → Type
  | .uint8 => UInt8
  | .uint16 => UInt16
  | .uint32 => UInt32
  | .int8 => Int8
  | .int16 => Int16
  | .int32 => Int32

/-- `sizeof`. -/
def size : IntType → ℕ
  | .uint8 | .int8 => 1
  | .uint16 | .int16 => 2
  | .uint32 | .int32 => 4

/-- The representation of a value, read as an unsigned number. -/
def bits : (t : IntType) → t.Val → ℕ
  | .uint8, v => UInt8.toNat v
  | .uint16, v => UInt16.toNat v
  | .uint32, v => UInt32.toNat v
  | .int8, v => (Int8.toUInt8 v).toNat
  | .int16, v => (Int16.toUInt16 v).toNat
  | .int32, v => (Int32.toUInt32 v).toNat

/-- The value that a representation stands for. -/
def ofBits : (t : IntType) → ℕ → t.Val
  | .uint8, n => UInt8.ofNat n
  | .uint16, n => UInt16.ofNat n
  | .uint32, n => UInt32.ofNat n
  | .int8, n => (UInt8.ofNat n).toInt8
  | .int16, n => (UInt16.ofNat n).toInt16
  | .int32, n => (UInt32.ofNat n).toInt32

theorem bits_lt (t : IntType) (v : t.Val) : t.bits v < 256 ^ t.size := by
  cases t with
  | uint8 => exact UInt8.toNat_lt v
  | uint16 => exact UInt16.toNat_lt v
  | uint32 => exact UInt32.toNat_lt v
  | int8 => exact UInt8.toNat_lt (Int8.toUInt8 v)
  | int16 => exact UInt16.toNat_lt (Int16.toUInt16 v)
  | int32 => exact UInt32.toNat_lt (Int32.toUInt32 v)

@[simp] theorem ofBits_bits (t : IntType) (v : t.Val) : t.ofBits (t.bits v) = v := by
  cases t with
  | uint8 => exact UInt8.ofNat_toNat
  | uint16 => exact UInt16.ofNat_toNat
  | uint32 => exact UInt32.ofNat_toNat
  | int8 =>
      simp only [ofBits, bits, UInt8.ofNat_toNat]
      exact Int8.toInt8_toUInt8 v
  | int16 =>
      simp only [ofBits, bits, UInt16.ofNat_toNat]
      exact Int16.toInt16_toUInt16 v
  | int32 =>
      simp only [ofBits, bits, UInt32.ofNat_toNat]
      exact Int32.toInt32_toUInt32 v

/-- The bytes of a value in memory. -/
def bytes (t : IntType) (v : t.Val) : List UInt8 := leBytes t.size (t.bits v)

@[simp] theorem bytes_length (t : IntType) (v : t.Val) : (t.bytes v).length = t.size :=
  leBytes_length _ _

theorem bytes_uint8 (v : UInt8) : bytes .uint8 v = [v] := by
  simp [bytes, size, bits, leBytes]

end IntType

/-! ### The archives -/

structure MemOutputArchive where
  bytes : List UInt8
  deriving DecidableEq, Repr

namespace MemOutputArchive

def reset (_ : MemOutputArchive) : MemOutputArchive := ⟨[]⟩

/-- `write_bytes`. -/
def write (t : IntType) (v : t.Val) (a : MemOutputArchive) : MemOutputArchive :=
  ⟨a.bytes ++ t.bytes v⟩

@[simp] theorem write_bytes (t : IntType) (v : t.Val) (a : MemOutputArchive) :
    (a.write t v).bytes = a.bytes ++ t.bytes v := rfl

@[simp] theorem reset_bytes (a : MemOutputArchive) : a.reset.bytes = [] := rfl

end MemOutputArchive

/-- The buffer and the position in it. -/
structure MemInputArchive where
  buff : List UInt8
  pos : ℕ
  deriving DecidableEq, Repr

namespace MemInputArchive

/-- `read`: the value, `none` where the source returns false and leaves `out_value` alone. -/
def read (t : IntType) (a : MemInputArchive) : Option t.Val × MemInputArchive :=
  if a.pos + t.size > a.buff.length then (none, a)
  else
    (some (t.ofBits (leValue ((a.buff.drop a.pos).take t.size))), { a with pos := a.pos + t.size })

/-- The bytes that have not been read. -/
def rest (a : MemInputArchive) : List UInt8 := a.buff.drop a.pos

/-- A value that lies at the position is read, and the position moves behind it. -/
theorem read_rest {t : IntType} {v : t.Val} {r : List UInt8} {a : MemInputArchive}
    (h : a.rest = t.bytes v ++ r) :
    a.read t = (some v, { a with pos := a.pos + t.size }) ∧
      rest { a with pos := a.pos + t.size } = r := by
  have hsize : 0 < t.size := by cases t <;> decide
  have hlen := congrArg List.length h
  simp only [rest, List.length_drop, List.length_append, IntType.bytes_length] at hlen
  have hvalue : leValue (t.bytes v) = t.bits v := leValue_leBytes_of_lt (t.bits_lt v)
  have htake : (a.buff.drop a.pos).take t.size = t.bytes v := by
    rw [← rest, h, List.take_left' (t.bytes_length v)]
  constructor
  · rw [read, if_neg (by omega), htake, hvalue, IntType.ofBits_bits]
  · show a.buff.drop (a.pos + t.size) = r
    rw [← List.drop_drop, ← rest, h, List.drop_left' (t.bytes_length v)]

end MemInputArchive

end MKart.ClientQt
