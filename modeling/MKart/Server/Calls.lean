import MKart.Lib.Restarts
import MKart.Server.V4L2

/-!
# The calls of `V4L2::startup`

`V4L2::startup` call by call: every `ioctl` goes through `V4L2::xioctl`, which makes it again while
signals interrupt it, and the formats and their sizes are asked for one by one, until the driver
refuses an index.  `V4L2.startup` is what comes out of it: the interruptions leave no trace, and the
two nested loops end with the sizes that the driver has for the target format (`startup_yields`).
-/

namespace MKart.Server.Calls

open MKart.Loops MKart.Restarts

/-- The driver: it answers an enumeration index by index. -/
structure Driver where
  /-- The answers to the other calls. -/
  device : Device
  enumFmt : ℕ → Option UInt32
  enumFramesizes : UInt32 → ℕ → Option FrameSize

/-- The answers are those of a list, up to its end, where the driver refuses. -/
def Lists {α : Type} (answer : ℕ → Option α) (xs : List α) : Prop :=
  ∀ i ≤ xs.length, answer i = xs[i]?

/-- The driver enumerates the formats and the sizes of the device. -/
structure Driver.Enumerates (g : Driver) : Prop where
  formats : Lists g.enumFmt (g.device.enumFmt.map Prod.fst)
  sizes : ∀ fmt ∈ g.device.enumFmt, Lists (g.enumFramesizes fmt.1) fmt.2

/-- The loops may take a pass for each index and one for the refusal. -/
def Enough (d : Device) (passes : ℕ) : Prop :=
  d.enumFmt.length < passes ∧ ∀ fmt ∈ d.enumFmt, fmt.2.length < passes

/-! ### The functions -/

/-- `V4L2::xioctl`. -/
def xioctl {α : Type} (answer : α) : Program α := restarted answer

/-- A pass of the loop over the sizes of a format: the index, and the formats found so far. -/
def sizesBody (g : Driver) (pixelformat : UInt32) (s : ℕ × List FrameSize) :
    Program ((ℕ × List FrameSize) ⊕ List FrameSize) := do
  match ← xioctl (g.enumFramesizes pixelformat s.1) with
  | some size => pure (.inl (s.1 + 1, s.2 ++ [size]))
  | none => pure (.inr s.2)

/-- A pass of the loop over the formats. -/
def formatsBody (g : Driver) (passes : ℕ) (s : ℕ × List FrameSize) :
    Program ((ℕ × List FrameSize) ⊕ List FrameSize) := do
  match ← xioctl (g.enumFmt s.1) with
  | none => pure (.inr s.2)
  | some pixelformat =>
      if pixelformat ≠ V4L2.pixFmtMJPEG then pure (.inl (s.1 + 1, s.2))
      else
        let formats ← repeats (sizesBody g pixelformat) passes (0, s.2)
        pure (.inl (s.1 + 1, formats))

def formats (g : Driver) (passes : ℕ) : Program (List FrameSize) :=
  repeats (formatsBody g passes) passes (0, [])

/-- One pass of the loop over the buffers; `false` when it returns from `startup`. -/
def mapBuffer (d : Device) (i : Fin 2) (v : V4L2) : Program (V4L2 × Bool) := do
  match ← xioctl (d.queryBuf i) with
  | none => pure (v, false)
  | some length =>
      match d.mmap i with
      | none => pure (v, false)
      | some start =>
          pure ({ v with devBuf := fun j => if j = i then ⟨start, length⟩ else v.devBuf j }, true)

def mapBuffers (d : Device) (v : V4L2) : Program (V4L2 × Bool) := do
  match ← mapBuffer d V4L2.first v with
  | (v, true) => mapBuffer d V4L2.second v
  | (v, false) => pure (v, false)

/-- The calls of `startup` from the capabilities to the request for buffers. -/
def negotiate (g : Driver) (passes : ℕ) : Program Bool := do
  match ← xioctl g.device.queryCap with
  | none => pure false
  | some cap =>
      if cap &&& V4L2.capVideoCapture = 0 then pure false
      else
        let fmts ← formats g passes
        if fmts = [] then pure false
        else
          let chosen ← xioctl (g.device.sFmt (fmts.getD (V4L2.targetIndex fmts).toNat ⟨0, 0⟩))
          if chosen then xioctl g.device.reqBufs else pure false

/-- `V4L2::startup`. -/
def startup (g : Driver) (passes : ℕ) (now : ℤ) (v : V4L2) : Program (V4L2 × Bool) :=
  let v := { v.setCapturing false with fd := g.device.fd }
  if v.fd < 0 then pure (v, false)
  else do
    if ← negotiate g passes then
      match ← mapBuffers g.device v with
      | (v, false) => pure (v, false)
      | (v, true) =>
          let v := { v with devBufIdx := V4L2.first }
          if ← xioctl g.device.streamOn then pure ({ v with lastTime := now }, true)
          else pure (v, false)
    else pure (v, false)

/-! ### The enumeration -/

variable {g : Driver} {passes : ℕ}

/-- **The loop over the sizes** of a format collects them. -/
theorem yields_sizes {pixelformat : UInt32} {sizes : List FrameSize}
    (hsizes : Lists (g.enumFramesizes pixelformat) sizes) (hpasses : sizes.length < passes)
    (before : List FrameSize) :
    Yields (repeats (sizesBody g pixelformat) passes (0, before)) (before ++ sizes) := by
  have hloop := loop_collect (fun size : FrameSize => [size]) sizes before hpasses
  have hflat : sizes.flatMap (fun size => [size]) = sizes := by
    rw [List.flatMap_singleton']
  rw [hflat] at hloop
  refine Yields.repeats (fun s hle => ?_) collect_le (Nat.zero_le _) hloop
  refine (yields_restarted _).bind ?_
  rw [hsizes s.1 hle, collect]
  cases sizes[s.1]? with
  | none => exact yields_pure _
  | some size => exact yields_pure _

/-- **The loop over the formats** collects the sizes of the target format. -/
theorem yields_formats (henum : g.Enumerates) (hpasses : Enough g.device passes) :
    Yields (formats g passes) (V4L2.formats g.device) := by
  have hloop := loop_collect
    (fun fmt : UInt32 × List FrameSize => if fmt.1 = V4L2.pixFmtMJPEG then fmt.2 else [])
    g.device.enumFmt [] hpasses.1
  rw [List.nil_append] at hloop
  refine Yields.repeats (fun s hle => ?_) collect_le (Nat.zero_le _) hloop
  have hlength : s.1 ≤ (g.device.enumFmt.map Prod.fst).length := by
    rw [List.length_map]
    exact hle
  refine (yields_restarted _).bind ?_
  rw [henum.formats s.1 hlength, List.getElem?_map, collect]
  cases hfmt : g.device.enumFmt[s.1]? with
  | none => exact yields_pure _
  | some fmt =>
      have hmem : fmt ∈ g.device.enumFmt := List.mem_of_getElem? hfmt
      show Yields (if fmt.1 ≠ V4L2.pixFmtMJPEG then _ else _) (Sum.inl (s.1 + 1, s.2 ++ _))
      by_cases hmjpeg : fmt.1 = V4L2.pixFmtMJPEG
      · rw [if_neg (not_not.mpr hmjpeg), if_pos hmjpeg]
        exact (yields_sizes (henum.sizes fmt hmem) (hpasses.2 fmt hmem) s.2).bind (yields_pure _)
      · rw [if_pos hmjpeg, if_neg hmjpeg, List.append_nil]
        exact yields_pure _

/-! ### The whole of `startup` -/

theorem yields_mapBuffer (d : Device) (i : Fin 2) (v : V4L2) :
    Yields (mapBuffer d i v) (v.mapBuffer d i) := by
  refine (yields_restarted _).bind ?_
  unfold V4L2.mapBuffer
  cases d.queryBuf i with
  | none => exact yields_pure _
  | some length =>
      cases d.mmap i with
      | none => exact yields_pure _
      | some start => exact yields_pure _

theorem yields_mapBuffers (d : Device) (v : V4L2) :
    Yields (mapBuffers d v) (v.mapBuffers d) := by
  refine (yields_mapBuffer d V4L2.first v).bind ?_
  unfold V4L2.mapBuffers
  show Yields _ (match v.mapBuffer d V4L2.first with | (v, true) => _ | (v, false) => _)
  rcases v.mapBuffer d V4L2.first with ⟨w, mapped⟩
  cases mapped with
  | true => exact yields_mapBuffer d V4L2.second w
  | false => exact yields_pure _

theorem yields_negotiate (henum : g.Enumerates) (hpasses : Enough g.device passes) :
    Yields (negotiate g passes) (V4L2.negotiate g.device) := by
  refine (yields_restarted _).bind ?_
  unfold V4L2.negotiate
  cases g.device.queryCap with
  | none => exact yields_pure _
  | some cap =>
      dsimp only
      by_cases hvideo : cap &&& V4L2.capVideoCapture = 0
      · rw [if_pos hvideo, hvideo]
        exact yields_pure _
      · rw [if_neg hvideo, bne_iff_ne.mpr hvideo, Bool.true_and]
        refine (yields_formats henum hpasses).bind ?_
        by_cases hnone : V4L2.formats g.device = []
        · rw [if_pos hnone, hnone]
          exact yields_pure _
        · rw [if_neg hnone, bne_iff_ne.mpr hnone, Bool.true_and]
          refine (yields_restarted _).bind ?_
          cases g.device.sFmt _ with
          | true => exact yields_restarted _
          | false => exact yields_pure _

/-- **`startup` does not depend on interruptions.**  Whichever of its calls are interrupted, and
however often, it ends as `V4L2.startup` says, if the driver enumerates its formats and the loops
over them may take a pass for each. -/
theorem startup_yields (henum : g.Enumerates) (hpasses : Enough g.device passes) (now : ℤ)
    (v : V4L2) (signals : List Bool) :
    ∃ left, startup g passes now v signals = some (v.startup g.device now, left) := by
  have hall : Yields (startup g passes now v) (v.startup g.device now) := by
    unfold startup V4L2.startup
    dsimp only
    by_cases hfd : g.device.fd < 0
    · rw [if_pos hfd, if_pos hfd]
      exact yields_pure _
    · rw [if_neg hfd, if_neg hfd]
      refine (yields_negotiate henum hpasses).bind ?_
      cases V4L2.negotiate g.device with
      | false => exact yields_pure _
      | true =>
          refine (yields_mapBuffers g.device _).bind ?_
          show Yields _ (match V4L2.mapBuffers g.device _ with | (v, false) => _ | (v, true) => _)
          rcases V4L2.mapBuffers g.device _ with ⟨w, mapped⟩
          cases mapped with
          | false => exact yields_pure _
          | true =>
              refine (yields_restarted _).bind ?_
              cases g.device.streamOn with
              | true => exact yields_pure _
              | false => exact yields_pure _
  exact hall signals

/-- A camera with a format that is left out and two sizes of the target format. -/
def twoSizes : Driver where
  device := { Device.camera with
    enumFmt := [(0x56595559, [⟨320, 240⟩]), (0x47504A4D, [⟨320, 240⟩, ⟨800, 600⟩])] }
  enumFmt i := [0x56595559, 0x47504A4D][i]?
  enumFramesizes pixelformat i :=
    if pixelformat = V4L2.pixFmtMJPEG then [⟨320, 240⟩, ⟨800, 600⟩][i]? else [⟨320, 240⟩][i]?

theorem twoSizes_enumerates : twoSizes.Enumerates where
  formats := fun _ _ => rfl
  sizes := by
    intro fmt hfmt
    rcases List.mem_cons.mp hfmt with rfl | hfmt
    · exact fun _ _ => rfl
    · obtain rfl := List.mem_singleton.mp hfmt
      exact fun _ _ => rfl

theorem startup_yields_three :
    ∃ left, startup twoSizes 3 5 V4L2.construct [true, false, true, true, false, false, true] =
      some (V4L2.construct.startup twoSizes.device 5, left) :=
  startup_yields twoSizes_enumerates ⟨by decide, by decide⟩ 5 V4L2.construct _

end MKart.Server.Calls
