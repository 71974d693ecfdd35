import MKart.ClientQt.Dispatch

/-!
# Dispatching a stream of frames

A command frame is a size byte, an id byte and a payload, and the size is that of the whole frame.
`dispatch_from_archive` reads the size into a variable that it does not use: what moves the
position is the header and whatever the registered command's `unpack` reads.

A loop of dispatches over an archive that holds frames stays on their boundaries exactly if each
frame is read to its end (`ReadsExactly`): its command takes just the payload, or its id is not
registered and there is no payload.  The bytes behind a frame count, because a command whose
payload is too short reads on into the next frame.
-/

namespace MKart.ClientQt

open MKart.SizedReads CmdDispatcher

/-- A well-formed frame of a command, known to the receiver or not. -/
structure CmdFrame where
  id : UInt8
  payload : List UInt8
  fits : payload.length + 2 < 256

namespace CmdFrame

def bytes (f : CmdFrame) : List UInt8 := UInt8.ofNat (f.payload.length + 2) :: f.id :: f.payload

theorem bytes_length (f : CmdFrame) : f.bytes.length = f.payload.length + 2 := rfl

end CmdFrame

def cmdStream (fs : List CmdFrame) : List UInt8 := fs.flatMap CmdFrame.bytes

theorem cmdStream_append (fs gs : List CmdFrame) :
    cmdStream (fs ++ gs) = cmdStream fs ++ cmdStream gs := List.flatMap_append

theorem cmdStream_take_drop (fs : List CmdFrame) (n : ℕ) :
    cmdStream fs = cmdStream (fs.take n) ++ cmdStream (fs.drop n) := by
  rw [← cmdStream_append, List.take_append_drop]

theorem cmdStream_drop {fs : List CmdFrame} {n : ℕ} {f : CmdFrame} (h : fs[n]? = some f) :
    cmdStream (fs.drop n) = f.bytes ++ cmdStream (fs.drop (n + 1)) := by
  obtain ⟨hlt, hget⟩ := List.getElem?_eq_some_iff.mp h
  rw [List.drop_eq_getElem_cons hlt, hget]
  rfl

theorem cmdStream_take_succ {fs : List CmdFrame} {n : ℕ} {f : CmdFrame} (h : fs[n]? = some f) :
    (cmdStream (fs.take (n + 1))).length = (cmdStream (fs.take n)).length + f.bytes.length := by
  rw [List.take_add_one, h, cmdStream_append, List.length_append]
  simp [cmdStream]

namespace CmdDispatcher

variable {O F : Type} (cls : ReadClass O) (d : CmdDispatcher (KartCmd ⊕ O) F)

/-! ### One frame -/

/-- The payload is all that the dispatch of the frame takes behind the header, with `behind` the
bytes behind the frame. -/
def ReadsExactly (m : Memory) (f : CmdFrame) (behind : List UInt8) : Prop :=
  match d.entries.lookup f.id with
  | none => f.payload = []
  | some entry => (unpackProg cls m entry).taken (f.payload ++ behind) = f.payload.length

variable {cls d} {m : Memory} {a : MemInputArchive} {f : CmdFrame} {behind : List UInt8}

theorem addressed_frame (h : a.rest = f.bytes ++ behind) :
    d.addressed a = (d.entries.lookup f.id).map fun entry => (entry, f.payload ++ behind) := by
  unfold addressed header
  rw [h]
  rfl

/-- The frame's own entry is executed, if it has one. -/
theorem dispatch_frame_called (h : a.rest = f.bytes ++ behind) :
    (d.dispatchFromArchive cls.toCmdClass.withKart m a).called.map Prod.fst =
      (d.entries.lookup f.id).map Entry.execFunc := by
  have haddr := addressed_frame (d := d) h
  cases hlookup : d.entries.lookup f.id with
  | none =>
      rw [hlookup] at haddr
      rw [dispatch_none _ m haddr]
      rfl
  | some entry =>
      rw [hlookup] at haddr
      rw [dispatch_called cls m haddr]
      rfl

/-- A dispatch leaves the archive behind the frame exactly if it reads the frame exactly. -/
theorem dispatch_frame_pos (h : a.rest = f.bytes ++ behind) :
    (d.dispatchFromArchive cls.toCmdClass.withKart m a).archive.pos = a.pos + f.bytes.length ↔
      ReadsExactly cls d m f behind := by
  have haddr := addressed_frame (d := d) h
  unfold ReadsExactly
  rw [CmdFrame.bytes_length]
  cases hlookup : d.entries.lookup f.id with
  | none =>
      rw [hlookup] at haddr
      have htwo : min 2 a.rest.length = 2 := by
        rw [h, List.length_append, CmdFrame.bytes_length]
        omega
      rw [dispatch_none _ m haddr, htwo, ← List.length_eq_zero_iff]
      dsimp only
      omega
  | some entry =>
      rw [hlookup] at haddr
      obtain ⟨hrest, hdispatch⟩ := dispatch_some cls.toCmdClass.withKart m haddr
      rw [hdispatch, ← cls.withKart_toCmdClass]
      show (MemInputArchive.runReads (unpackProg cls m entry) _).2.pos = _ ↔ _
      rw [MemInputArchive.runReads_eq, hrest]
      dsimp only
      omega

/-- A registered `CmdNone` reads exactly the frames without a payload. -/
theorem readsExactly_none {entry : Entry (KartCmd ⊕ O) F}
    (hentry : d.entries.lookup f.id = some entry) (hmakes : entry.cstorFunc m = .inl .none) :
    ReadsExactly cls d m f behind ↔ f.payload = [] := by
  have htaken : (unpackProg cls m entry).taken (f.payload ++ behind) = 0 := by
    rw [unpackProg, hmakes]
    rfl
  unfold ReadsExactly
  rw [hentry, ← List.length_eq_zero_iff]
  dsimp only
  rw [htaken]
  exact eq_comm

/-- A registered `CmdMotorSetSpeed` that finds four bytes reads exactly the frames with a payload
of four. -/
theorem readsExactly_motorSetSpeed {entry : Entry (KartCmd ⊕ O) F} {l r : Int16}
    (hentry : d.entries.lookup f.id = some entry)
    (hmakes : entry.cstorFunc m = .inl (.motorSetSpeed l r))
    (hlong : 4 ≤ f.payload.length + behind.length) :
    ReadsExactly cls d m f behind ↔ f.payload.length = 4 := by
  have htaken : (unpackProg cls m entry).taken (f.payload ++ behind) = 4 := by
    rw [unpackProg, hmakes]
    refine (Prog.taken_map Sum.inl (KartCmd.motorSetSpeed l r).unpackReads _).trans ?_
    have hfirst : ¬ (f.payload ++ behind).length < 2 := by
      rw [List.length_append]
      omega
    have hsecond : ¬ ((f.payload ++ behind).drop 2).length < 2 := by
      rw [List.length_drop, List.length_append]
      omega
    simp only [KartCmd.unpackReads, Prog.taken, IntType.size, hfirst, hsecond, if_false]
  unfold ReadsExactly
  rw [hentry]
  dsimp only
  rw [htaken]
  exact eq_comm

/-- A dispatch at the end does nothing. -/
theorem dispatch_end (h : a.rest = []) :
    d.dispatchFromArchive cls.toCmdClass.withKart m a = ⟨false, a, none⟩ := by
  have haddr : d.addressed a = none := by
    unfold addressed header
    rw [h]
    rfl
  rw [dispatch_none _ m haddr, h]
  rfl

theorem dispatch_buff :
    (d.dispatchFromArchive cls.toCmdClass.withKart m a).archive.buff = a.buff := by
  cases haddr : d.addressed a with
  | none => rw [dispatch_none _ m haddr]
  | some addr =>
      rw [(dispatch_some cls.toCmdClass.withKart m haddr).2, ← cls.withKart_toCmdClass]
      show (MemInputArchive.runReads (unpackProg cls m addr.1) _).2.buff = _
      rw [MemInputArchive.runReads_eq]

/-! ### The whole stream -/

variable (cls d) (m : ℕ → Memory) (fs : List CmdFrame)

/-- The archive over the stream, before the `n`-th dispatch (counted from 0). -/
def archiveAt : ℕ → MemInputArchive
  | 0 => ⟨cmdStream fs, 0⟩
  | n + 1 => (d.dispatchFromArchive cls.toCmdClass.withKart (m n) (archiveAt n)).archive

/-- The exec function that the `n`-th dispatch calls, with its object. -/
def calledAt (n : ℕ) : Option (F × (KartCmd ⊕ O)) :=
  (d.dispatchFromArchive cls.toCmdClass.withKart (m n) (archiveAt cls d m fs n)).called

structure OnBoundaries : Prop where
  /-- Each dispatch starts at the first byte of its frame, or at the end. -/
  starts : ∀ n, (archiveAt cls d m fs n).pos = (cmdStream (fs.take n)).length
  /-- The `n`-th dispatch executes the `n`-th frame's command, if it is registered. -/
  executes : ∀ n f, fs[n]? = some f →
    (calledAt cls d m fs n).map Prod.fst = (d.entries.lookup f.id).map Entry.execFunc
  /-- Nothing else is executed. -/
  nothingElse : ∀ n, fs.length ≤ n → calledAt cls d m fs n = none

/-- Every frame of the stream is read to its end. -/
def FramesReadExactly : Prop :=
  ∀ n f, fs[n]? = some f → ReadsExactly cls d (m n) f (cmdStream (fs.drop (n + 1)))

variable {cls d m fs}

theorem archiveAt_buff (n : ℕ) : (archiveAt cls d m fs n).buff = cmdStream fs := by
  induction n with
  | zero => rfl
  | succ n ih => exact dispatch_buff.trans ih

/-- At a boundary, what has not been read are the frames from there on. -/
theorem archiveAt_rest {n : ℕ}
    (h : (archiveAt cls d m fs n).pos = (cmdStream (fs.take n)).length) :
    (archiveAt cls d m fs n).rest = cmdStream (fs.drop n) := by
  rw [MemInputArchive.rest, archiveAt_buff, h, cmdStream_take_drop fs n, List.drop_left]

theorem archiveAt_frame {n : ℕ} {f : CmdFrame} (hf : fs[n]? = some f)
    (h : (archiveAt cls d m fs n).pos = (cmdStream (fs.take n)).length) :
    (archiveAt cls d m fs n).rest = f.bytes ++ cmdStream (fs.drop (n + 1)) :=
  (archiveAt_rest h).trans (cmdStream_drop hf)

theorem archiveAt_pos (h : FramesReadExactly cls d m fs) (n : ℕ) :
    (archiveAt cls d m fs n).pos = (cmdStream (fs.take n)).length := by
  induction n with
  | zero => rfl
  | succ n ih =>
      cases hf : fs[n]? with
      | none =>
          have hlen := List.getElem?_eq_none_iff.mp hf
          have hrest : (archiveAt cls d m fs n).rest = [] := by
            rw [archiveAt_rest ih, List.drop_of_length_le hlen]
            rfl
          rw [archiveAt, dispatch_end hrest, ih, List.take_of_length_le hlen,
            List.take_of_length_le (by omega)]
      | some f =>
          have hpos := (dispatch_frame_pos (archiveAt_frame hf ih)).mpr (h n f hf)
          rw [archiveAt, hpos, ih, cmdStream_take_succ hf]

/-- **The dispatches stay on the frame boundaries exactly if every frame is read to its end.** -/
theorem onBoundaries_iff (cls : ReadClass O) (d : CmdDispatcher (KartCmd ⊕ O) F) (m : ℕ → Memory)
    (fs : List CmdFrame) : OnBoundaries cls d m fs ↔ FramesReadExactly cls d m fs := by
  constructor
  · intro h n f hf
    have hnext := h.starts (n + 1)
    rw [cmdStream_take_succ hf, ← h.starts n] at hnext
    exact (dispatch_frame_pos (archiveAt_frame hf (h.starts n))).mp hnext
  · intro h
    refine ⟨archiveAt_pos h, ?_, ?_⟩
    · intro n f hf
      exact dispatch_frame_called (archiveAt_frame hf (archiveAt_pos h n))
    · intro n hn
      have hrest : (archiveAt cls d m fs n).rest = [] := by
        rw [archiveAt_rest (archiveAt_pos h n), List.drop_of_length_le hn]
        rfl
      rw [calledAt, dispatch_end hrest]

/-- A frame of an unknown command whose payload looks like a frame of `CmdNone`. -/
def unknownFrame : CmdFrame := ⟨9, [2, 0], by decide⟩

/-- The second dispatch takes the payload for a header. -/
theorem unknownFrame_off_boundary :
    ¬ OnBoundaries noClasses
      (registerAll [(KartCmd.cmdNone, ⟨fun m => .inl (KartCmd.newNone m), ()⟩)])
      (fun _ _ => 0) [unknownFrame] := by
  intro h
  exact absurd (h.starts 1) (by decide)

end CmdDispatcher

end MKart.ClientQt
