import MKart.Server.Messages

/-!
# The capture device

`server/src/v4l2.cpp`: the class `V4L2` without the part of `capture` that sends, which is in
`RpiServer`.  What the device calls return is an input (`Device` for `startup`, `Grab` for one
capture), and so is the clock, in nanoseconds.
-/

namespace MKart.Server

structure HWBuffer where
  /-- An address; 0 is the null pointer. -/
  ptr : ℕ
  sz : UInt32
  deriving DecidableEq, Repr

/-- The fields of the class; `capturing` is `m_capture`. -/
structure V4L2 where
  fd : ℤ
  devBufIdx : Fin 2
  devBuf : Fin 2 → HWBuffer
  capturing : Bool
  lastTime : ℤ
  frameTime : ℤ

/-- A size that the driver enumerates. -/
structure FrameSize where
  width : UInt32
  height : UInt32
  deriving DecidableEq, Repr

/-- The outcomes of the calls that `V4L2::startup` makes on the device. -/
structure Device where
  /-- The descriptor `open` returns, negative if it fails. -/
  fd : ℤ
  /-- The `capabilities` that `VIDIOC_QUERYCAP` reports. -/
  queryCap : Option UInt32
  /-- The pixel formats of `VIDIOC_ENUM_FMT`, each with its `VIDIOC_ENUM_FRAMESIZES`. -/
  enumFmt : List (UInt32 × List FrameSize)
  sFmt : FrameSize → Bool
  reqBufs : Bool
  /-- The `length` that `VIDIOC_QUERYBUF` reports for a buffer. -/
  queryBuf : Fin 2 → Option UInt32
  mmap : Fin 2 → Option ℕ
  streamOn : Bool

/-- A machine without a camera. -/
def Device.absent : Device where
  fd := -1
  queryCap := none
  enumFmt := []
  sFmt := fun _ => false
  reqBufs := false
  queryBuf := fun _ => none
  mmap := fun _ => none
  streamOn := false

/-- The outcomes of the calls of one `V4L2::capture`. -/
structure Grab where
  qbuf : Bool
  /-- The `bytesused` that a successful `VIDIOC_DQBUF` reports. -/
  dqbuf : Option UInt32
  /-- What the buffer holds then. -/
  memory : ℕ → UInt8

/-- A camera on which every call succeeds. -/
def Device.camera : Device where
  fd := 3
  queryCap := some 1
  enumFmt := [(0x47504A4D, [⟨640, 480⟩])]
  sFmt := fun _ => true
  reqBufs := true
  queryBuf := fun _ => some 4096
  mmap := fun _ => some 65536
  streamOn := true

/-- A capture of the shortest JPEG frame. -/
def Grab.jpeg : Grab where
  qbuf := true
  dqbuf := some 4
  memory := fun i => [0xFF, 0xD8, 0xFF, 0xE0].getD i 0

namespace V4L2

/-- The constructor.  `m_last_time` starts at the clock's epoch. -/
def construct : V4L2 where
  fd := -1
  devBufIdx := 0
  devBuf := fun _ => ⟨0, 0⟩
  capturing := false
  lastTime := 0
  frameTime := 100

def setCapturing (v : V4L2) (enabled : Bool) : V4L2 := { v with capturing := enabled }

/-! ### `V4L2::startup` -/

/-- `V4L2_CAP_VIDEO_CAPTURE`. -/
def capVideoCapture : UInt32 := 1

/-- `V4L2_PIX_FMT_MJPEG`. -/
def pixFmtMJPEG : UInt32 := 0x47504A4D

def formats (d : Device) : List FrameSize :=
  d.enumFmt.flatMap fun fmt => if fmt.1 = pixFmtMJPEG then fmt.2 else []

/-- `width - TARGET_WIDTH` is unsigned arithmetic, stored in an `int`. -/
def diff (width : UInt32) : ℤ := ((width.toNat : ℤ) - 640).bmod (2 ^ 32)

/-- The product of two `int`s, as the target machine computes it. -/
def square (d : ℤ) : ℤ := (d * d).bmod (2 ^ 32)

/-- The loop that searches for the closest format: the final `target_index`. -/
def targetIndex (fs : List FrameSize) : ℤ :=
  (List.range fs.length).foldl (fun (target : ℤ) (i : ℕ) =>
    if target = -1 then i
    else
      let width (j : ℕ) := (fs.getD j ⟨0, 0⟩).width
      if square (diff (width i)) < square (diff (width target.toNat)) then i else target) (-1)

/-- The indices of the loop over the buffers. -/
def first : Fin 2 := 0

def second : Fin 2 := 1

/-- One pass of the loop over the buffers; `false` when it returns from `startup`. -/
def mapBuffer (d : Device) (i : Fin 2) (v : V4L2) : V4L2 × Bool :=
  match d.queryBuf i, d.mmap i with
  | some length, some start =>
      ({ v with devBuf := fun j => if j = i then ⟨start, length⟩ else v.devBuf j }, true)
  | _, _ => (v, false)

def mapBuffers (d : Device) (v : V4L2) : V4L2 × Bool :=
  match v.mapBuffer d 0 with
  | (v, true) => v.mapBuffer d 1
  | (v, false) => (v, false)

/-- The calls of `startup` behind `open` that store nothing: the capabilities, the formats, the
choice of a format and the request for buffers.  `startup` returns where the first one fails. -/
def negotiate (d : Device) : Bool :=
  match d.queryCap with
  | none => false
  | some cap =>
      cap &&& capVideoCapture != 0 && formats d != [] &&
        d.sFmt ((formats d).getD (targetIndex (formats d)).toNat ⟨0, 0⟩) && d.reqBufs

/-- `V4L2::startup`, with the time it stores at its end. -/
def startup (d : Device) (now : ℤ) (v : V4L2) : V4L2 × Bool :=
  let v := { v.setCapturing false with fd := d.fd }
  if v.fd < 0 then (v, false)
  else if !negotiate d then (v, false)
  else
    match v.mapBuffers d with
    | (v, false) => (v, false)
    | (v, true) =>
        let v := { v with devBufIdx := 0 }
        if !d.streamOn then (v, false) else ({ v with lastTime := now }, true)

/-! ### `V4L2::update` and `V4L2::capture` -/

/-- The milliseconds of a duration, truncated. -/
def milliseconds (ns : ℤ) : ℤ := ns.tdiv 1000000

/-- The two tests of `V4L2::update`.  The milliseconds are cast to `long`, which has 32 bits on
the target. -/
def due (now : ℤ) (v : V4L2) : Bool :=
  v.capturing && decide (v.frameTime < (milliseconds (now - v.lastTime)).bmod (2 ^ 32))

def isJpeg (data : ℕ → UInt8) : Bool :=
  (data 0 == 0xFF && data 1 == 0xD8 && data 2 == 0xFF && data 3 == 0xE0) ||
    (data 0 == 0xFF && data 1 == 0xD8 && data 2 == 0xFF && data 3 == 0xDB)

/-- The part of `V4L2::capture` between its test for a connection and the sending: the
`bytesused` of a captured JPEG frame. -/
def grab (g : Grab) (v : V4L2) : V4L2 × Option UInt32 :=
  let v := { v with devBufIdx := v.devBufIdx + 1 }
  if !g.qbuf then (v, none)
  else
    match g.dqbuf with
    | none => (v, none)
    | some bytesused => if isJpeg g.memory then (v, some bytesused) else (v, none)

/-- The index that `capture` rotates to. -/
def nextIdx (v : V4L2) : Fin 2 := v.devBufIdx + 1

theorem nextIdx_ne (v : V4L2) : v.nextIdx ≠ v.devBufIdx := by
  rw [nextIdx]
  generalize v.devBufIdx = i
  decide +revert

/-- There are two buffers. -/
theorem nextIdx_next {v w : V4L2} (h : w.devBufIdx = v.nextIdx) : w.nextIdx = v.devBufIdx := by
  rw [nextIdx, h, nextIdx]
  generalize v.devBufIdx = i
  decide +revert

/-- Whatever the device does, a grab moves on to the next buffer and changes nothing else. -/
theorem grab_fst (g : Grab) (v : V4L2) : (v.grab g).1 = { v with devBufIdx := v.nextIdx } := by
  unfold grab
  split
  · rfl
  · split
    · rfl
    · split <;> rfl

@[simp] theorem grab_capturing (g : Grab) (v : V4L2) : (v.grab g).1.capturing = v.capturing := by
  rw [grab_fst]

end V4L2

end MKart.Server
