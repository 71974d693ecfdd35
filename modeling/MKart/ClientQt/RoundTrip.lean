import MKart.Lib.Runs
import MKart.ClientQt.Archive

/-!
# Writing and reading back

A sequence of integers of mixed types goes through an output archive, its buffer and an input
archive.  `readInto` is `read` with the variable that it fills; a sequence of reads is a run of the
input archive.  Everything here is about `server/src/archive.h` as well, whose two classes are the
same text.
-/

namespace MKart.ClientQt

open MKart.Runs

/-- An integer with its type: a value to be written, or what a variable holds. -/
abbrev Typed := (t : IntType) × t.Val

def Typed.bytes (v : Typed) : List UInt8 := v.1.bytes v.2

namespace MemOutputArchive

/-- `get_buffer`: the bytes that the pointer and the size describe. -/
def getBuffer (a : MemOutputArchive) : List UInt8 := a.bytes

/-- A sequence of `write` calls. -/
def writeAll (vs : List Typed) (a : MemOutputArchive) : MemOutputArchive :=
  vs.foldl (fun a v => a.write v.1 v.2) a

theorem writeAll_bytes (vs : List Typed) (a : MemOutputArchive) :
    (a.writeAll vs).bytes = a.bytes ++ vs.flatMap Typed.bytes := by
  induction vs generalizing a with
  | nil =>
      show a.bytes = a.bytes ++ []
      rw [List.append_nil]
  | cons v vs ih =>
      show ((a.write v.1 v.2).writeAll vs).bytes = _
      rw [ih, write_bytes, List.flatMap_cons, List.append_assoc]
      rfl

end MemOutputArchive

namespace MemInputArchive

/-- The constructor. -/
def construct (buff : List UInt8) : MemInputArchive := ⟨buff, 0⟩

/-- An archive that has been read to its end. -/
def atEnd (buff : List UInt8) : MemInputArchive := ⟨buff, buff.length⟩

/-- `read(out_value)`: its result, and what it leaves in `out_value` and in the archive. -/
def readInto (t : IntType) (outValue : t.Val) (a : MemInputArchive) :
    Bool × t.Val × MemInputArchive :=
  match a.read t with
  | (none, a) => (false, outValue, a)
  | (some v, a) => (true, v, a)

/-- A read, as a step of the archive. -/
def readStep (a : MemInputArchive) (out : Typed) : MemInputArchive := (a.readInto out.1 out.2).2.2

/-- A sequence of reads into the variables `outs`: their results with what is in the variables
then, and the archive. -/
def readAll : List Typed → MemInputArchive → List (Bool × Typed) × MemInputArchive
  | [], a => ([], a)
  | out :: outs, a =>
      let r := a.readInto out.1 out.2
      let rest := readAll outs r.2.2
      ((r.1, ⟨out.1, r.2.1⟩) :: rest.1, rest.2)

/-- A read past the end reports it and changes nothing. -/
theorem readInto_short {t : IntType} {a : MemInputArchive} (h : a.buff.length - a.pos < t.size)
    (outValue : t.Val) : a.readInto t outValue = (false, outValue, a) := by
  rw [readInto, read, if_pos (by omega)]

/-- A read of a value that lies at the position. -/
theorem readInto_rest {t : IntType} {v : t.Val} {r : List UInt8} {a : MemInputArchive}
    (h : a.rest = t.bytes v ++ r) (outValue : t.Val) :
    a.readInto t outValue = (true, v, { a with pos := a.pos + t.size }) := by
  rw [readInto, (read_rest h).1]

/-- **Values that lie one behind the other are read back by reads of their types.** -/
theorem readAll_rest {vs outs : List Typed} (htypes : outs.map Sigma.fst = vs.map Sigma.fst)
    {r : List UInt8} {a : MemInputArchive} (h : a.rest = vs.flatMap Typed.bytes ++ r) :
    readAll outs a =
      (vs.map (fun v => (true, v)),
        { a with pos := a.pos + (vs.flatMap Typed.bytes).length }) := by
  induction vs generalizing outs a with
  | nil =>
      obtain rfl : outs = [] := List.map_eq_nil_iff.mp htypes
      rfl
  | cons v vs ih =>
      cases outs with
      | nil => cases htypes
      | cons out outs =>
          obtain ⟨t, value⟩ := v
          obtain ⟨t', old⟩ := out
          rw [List.map_cons, List.map_cons] at htypes
          have htail := (List.cons.inj htypes).2
          obtain rfl : t' = t := (List.cons.inj htypes).1
          have hfront : a.rest = t'.bytes value ++ (vs.flatMap Typed.bytes ++ r) := by
            rw [h, List.flatMap_cons, List.append_assoc]
            rfl
          have hrest := (read_rest hfront).2
          have hlen : (Typed.bytes ⟨t', value⟩).length = t'.size := t'.bytes_length value
          rw [readAll]
          simp only [readInto_rest hfront, ih htail hrest]
          rw [List.flatMap_cons, List.length_append, hlen, ← Nat.add_assoc]
          rfl

/-- The position stays within the buffer. -/
theorem readStep_pos_le {a : MemInputArchive} (h : a.pos ≤ a.buff.length) (out : Typed) :
    (a.readStep out).pos ≤ (a.readStep out).buff.length := by
  unfold readStep readInto read
  by_cases hshort : a.pos + out.1.size > a.buff.length
  · rw [if_pos hshort]
    exact h
  · rw [if_neg hshort]
    exact Nat.le_of_not_lt hshort

/-- At `a` nothing can go wrong with a read: the position is within the buffer, and a read of more
than is left changes nothing. -/
structure Sound (a : MemInputArchive) : Prop where
  pos_le : a.pos ≤ a.buff.length
  short : ∀ (t : IntType) (outValue : t.Val), a.buff.length - a.pos < t.size →
    a.readInto t outValue = (false, outValue, a)

theorem sound_of_pos_le {a : MemInputArchive} (h : a.pos ≤ a.buff.length) : a.Sound :=
  ⟨h, fun _ outValue hshort => readInto_short hshort outValue⟩

/-- **Round trip**: what is written after a reset is read back by reads of the same types, up to
exactly the end of the buffer; and whatever is read from whatever buffer, every read finds the
archive sound. -/
theorem round_trip {vs outs : List Typed} (htypes : outs.map Sigma.fst = vs.map Sigma.fst)
    (used : MemOutputArchive) (buff : List UInt8) (reads : List Typed) :
    readAll outs (construct (used.reset.writeAll vs).getBuffer) =
        (vs.map (fun v => (true, v)), atEnd (used.reset.writeAll vs).getBuffer) ∧
      Always readStep Sound (construct buff) reads := by
  constructor
  · have hbytes : (used.reset.writeAll vs).getBuffer = vs.flatMap Typed.bytes := by
      show (used.reset.writeAll vs).bytes = _
      rw [MemOutputArchive.writeAll_bytes, MemOutputArchive.reset_bytes, List.nil_append]
    have hrest : (construct (vs.flatMap Typed.bytes)).rest = vs.flatMap Typed.bytes ++ [] := by
      rw [List.append_nil]
      rfl
    rw [hbytes, readAll_rest htypes hrest]
    simp only [construct, atEnd, Nat.zero_add]
  · have hpos : Always readStep (fun a => a.pos ≤ a.buff.length) (construct buff) reads :=
      always_of_step (fun _ out h => readStep_pos_le h out) (Nat.zero_le _)
    exact hpos.imp fun _ h => sound_of_pos_le h

/-- Two values of different width and sign. -/
def mixed : List Typed := [⟨.int16, (-2 : Int16)⟩, ⟨.uint8, (7 : UInt8)⟩]

/-- They come back after an earlier use of the archive; and a buffer that is too short for a
`uint32`. -/
theorem round_trip_mixed :
    readAll [⟨.int16, (0 : Int16)⟩, ⟨.uint8, (0 : UInt8)⟩]
        (construct ((MemOutputArchive.mk [1, 2]).reset.writeAll mixed).getBuffer) =
        (mixed.map (fun v => (true, v)),
          atEnd ((MemOutputArchive.mk [1, 2]).reset.writeAll mixed).getBuffer) ∧
      Always readStep Sound (construct [1]) [⟨.uint32, (5 : UInt32)⟩] :=
  round_trip (by rfl) _ _ _

end MemInputArchive

end MKart.ClientQt
