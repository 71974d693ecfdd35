import MKart.Server.V4L2
import Mathlib.Data.List.GetD

/-!
# What the capture device holds

`V4L2::startup` and `V4L2::shutdown` with the calls that acquire and release something.  None of the
exits of `startup` cleans up; `shutdown` finds what there is to release in the fields.

For the buffers that works: a buffer that is not mapped has length 0.  For the descriptor, `startup`
takes every number from 0 on, and `shutdown` closes those from 1 on (`released_iff`).
-/

namespace MKart.Server

/-- The successful calls on the device that acquire or release something, or start the stream. -/
inductive DeviceCall
  | open (fd : ℤ)
  | mmap (buf : HWBuffer)
  | streamOn
  | munmap (buf : HWBuffer)
  | close (fd : ℤ)
  deriving DecidableEq, Repr

/-- The object, with the calls it has made. -/
structure Traced where
  v4l2 : V4L2
  calls : List DeviceCall

namespace Traced

/-! ### `V4L2::startup` and `V4L2::shutdown` -/

def mapBuffer (d : Device) (i : Fin 2) (t : Traced) : Traced × Bool :=
  match d.queryBuf i, d.mmap i with
  | some length, some start =>
      (⟨(t.v4l2.mapBuffer d i).1, t.calls ++ [.mmap ⟨start, length⟩]⟩, true)
  | _, _ => (t, false)

def mapBuffers (d : Device) (t : Traced) : Traced × Bool :=
  match t.mapBuffer d V4L2.first with
  | (t, true) => t.mapBuffer d V4L2.second
  | (t, false) => (t, false)

/-- The call of `open`, at the beginning of `startup`. -/
def openDevice (d : Device) (t : Traced) : Traced where
  v4l2 := { t.v4l2.setCapturing false with fd := d.fd }
  calls := t.calls ++ if d.fd < 0 then [] else [.open d.fd]

/-- `V4L2::startup`. -/
def startup (d : Device) (now : ℤ) (t : Traced) : Traced × Bool :=
  let t := t.openDevice d
  if t.v4l2.fd < 0 then (t, false)
  else if !V4L2.negotiate d then (t, false)
  else
    match t.mapBuffers d with
    | (t, false) => (t, false)
    | (t, true) =>
        let v := { t.v4l2 with devBufIdx := V4L2.first }
        if !d.streamOn then (⟨v, t.calls⟩, false)
        else (⟨{ v with lastTime := now }, t.calls ++ [.streamOn]⟩, true)

/-- `V4L2::shutdown`.  It unmaps both buffers; of length 0, that fails. -/
def shutdown (t : Traced) : Traced :=
  let unmapped :=
    [t.v4l2.devBuf V4L2.first, t.v4l2.devBuf V4L2.second].filter fun buf => buf.sz != 0
  let closed := if 0 < t.v4l2.fd then [.close t.v4l2.fd] else []
  { t with calls := t.calls ++ unmapped.map .munmap ++ closed }

def start (d : Device) (now : ℤ) : Traced := (startup d now ⟨V4L2.construct, []⟩).1

end Traced

namespace DeviceCall

def opened : DeviceCall → Option ℤ
  | .open fd => some fd
  | _ => none

def mapped : DeviceCall → Option HWBuffer
  | .mmap buf => some buf
  | _ => none

def unmapped : DeviceCall → Option HWBuffer
  | .munmap buf => some buf
  | _ => none

def closed : DeviceCall → Option ℤ
  | .close fd => some fd
  | _ => none

/-- What was mapped is unmapped, with its length, and what was opened is closed, and nothing else.
A mapping of length 0 is none. -/
def Released (calls : List DeviceCall) : Prop :=
  calls.filterMap unmapped = (calls.filterMap mapped).filter (fun buf => buf.sz != 0) ∧
    calls.filterMap closed = calls.filterMap opened

instance (calls : List DeviceCall) : Decidable (Released calls) :=
  inferInstanceAs (Decidable (_ ∧ _))

end DeviceCall

namespace Traced

open DeviceCall

/-! ### The calls and the fields -/

/-- The trace is one of the object. -/
theorem mapBuffer_v4l2 (d : Device) (i : Fin 2) (t : Traced) :
    ((t.mapBuffer d i).1.v4l2, (t.mapBuffer d i).2) = t.v4l2.mapBuffer d i := by
  unfold mapBuffer V4L2.mapBuffer
  cases d.queryBuf i with
  | none => rfl
  | some length =>
      cases d.mmap i with
      | none => rfl
      | some start => rfl

theorem mapBuffers_v4l2 (d : Device) (t : Traced) :
    ((t.mapBuffers d).1.v4l2, (t.mapBuffers d).2) = t.v4l2.mapBuffers d := by
  have h0 : _ = t.v4l2.mapBuffer d 0 := mapBuffer_v4l2 d V4L2.first t
  unfold mapBuffers V4L2.mapBuffers
  rw [← h0]
  rcases t.mapBuffer d V4L2.first with ⟨u, _ | _⟩
  · rfl
  · exact mapBuffer_v4l2 d V4L2.second u

/-- **Without the calls, `startup` is that of the object.** -/
theorem startup_v4l2 (d : Device) (now : ℤ) (t : Traced) :
    ((t.startup d now).1.v4l2, (t.startup d now).2) = t.v4l2.startup d now := by
  have hmap := mapBuffers_v4l2 d (t.openDevice d)
  have hopen : (t.openDevice d).v4l2 = { t.v4l2.setCapturing false with fd := d.fd } := rfl
  unfold startup V4L2.startup
  rw [← hopen]
  generalize t.openDevice d = u at hmap ⊢
  dsimp only
  by_cases hfd : u.v4l2.fd < 0
  · rw [if_pos hfd, if_pos hfd]
  · rw [if_neg hfd, if_neg hfd]
    by_cases hneg : (!V4L2.negotiate d) = true
    · rw [if_pos hneg, if_pos hneg]
    · rw [if_neg hneg, if_neg hneg, ← hmap]
      rcases mapBuffers d u with ⟨w, _ | _⟩
      · rfl
      · dsimp only
        split <;> rfl

/-- The buffers hold what was mapped, in this order, and then nothing. -/
structure Filled (devBuf : Fin 2 → HWBuffer) (maps : List HWBuffer) : Prop where
  holds : ∀ i, devBuf i = maps.getD i ⟨0, 0⟩
  length : maps.length ≤ 2

variable {d : Device} {t : Traced} {maps : List HWBuffer} {i : Fin 2}

/-- A pass of the loop fails, or maps the next buffer. -/
theorem mapBuffer_cases (h : Filled t.v4l2.devBuf maps) (hi : (i : ℕ) = maps.length) :
    t.mapBuffer d i = (t, false) ∨
      ∃ (buf : HWBuffer) (u : Traced), t.mapBuffer d i = (u, true) ∧ u.v4l2.fd = t.v4l2.fd ∧
        u.calls = t.calls ++ [.mmap buf] ∧ Filled u.v4l2.devBuf (maps ++ [buf]) := by
  unfold mapBuffer
  cases hquery : d.queryBuf i with
  | none => exact Or.inl rfl
  | some length =>
      cases hmap : d.mmap i with
      | none => exact Or.inl rfl
      | some start =>
          refine Or.inr ⟨⟨start, length⟩, _, rfl, ?_, rfl, ?_, ?_⟩
          · rw [V4L2.mapBuffer, hquery, hmap]
          · intro j
            rw [V4L2.mapBuffer, hquery, hmap]
            dsimp only
            split_ifs with hj
            · rw [hj, hi, List.getD_append_right _ _ _ _ le_rfl, Nat.sub_self]
              rfl
            · have hne : (j : ℕ) ≠ maps.length := fun heq => hj (Fin.ext (heq.trans hi.symm))
              rw [h.holds j]
              rcases Nat.lt_or_gt_of_ne hne with hlt | hgt
              · rw [List.getD_append _ _ _ _ hlt]
              · rw [List.getD_eq_default _ _ hgt.le, List.getD_eq_default]
                rw [List.length_append, List.length_singleton]
                exact hgt
          · rw [List.length_append, List.length_singleton, ← hi]
            omega

/-- The loop maps none, one or both of the buffers, and goes on behind both. -/
theorem mapBuffers_cases (h : Filled t.v4l2.devBuf []) : ∃ (maps : List HWBuffer) (u : Traced)
    (done : Bool), t.mapBuffers d = (u, done) ∧ u.v4l2.fd = t.v4l2.fd ∧
      u.calls = t.calls ++ maps.map .mmap ∧ Filled u.v4l2.devBuf maps ∧
      (done = true → maps.length = 2) := by
  unfold mapBuffers
  rcases mapBuffer_cases (d := d) (i := V4L2.first) h rfl with
    h0 | ⟨b₀, u, h0, hfd0, hcalls0, hfill0⟩
  · rw [h0]
    exact ⟨[], t, false, rfl, rfl, (List.append_nil _).symm, h, fun h => by cases h⟩
  · rw [h0]
    rcases mapBuffer_cases (d := d) (i := V4L2.second) hfill0 rfl with
      h1 | ⟨b₁, w, h1, hfd1, hcalls1, hfill1⟩
    · exact ⟨[b₀], u, false, h1, hfd0, hcalls0, hfill0, fun h => by cases h⟩
    · refine ⟨[b₀, b₁], w, true, h1, hfd1.trans hfd0, ?_, hfill1, fun _ => rfl⟩
      rw [hcalls1, hcalls0, List.append_assoc]
      rfl

/-- What `startup` leaves, at whichever of its exits. -/
structure Started (d : Device) (t : Traced) (maps : List HWBuffer) (streams : Bool) : Prop where
  fd : t.v4l2.fd = d.fd
  calls : t.calls = (if d.fd < 0 then [] else [.open d.fd]) ++ maps.map .mmap ++
    if streams then [.streamOn] else []
  filled : Filled t.v4l2.devBuf maps
  streams : streams = true → maps.length = 2

/-- **Each of the exits of `startup` leaves the buffers as they were mapped.** -/
theorem start_started (d : Device) (now : ℤ) :
    ∃ maps streams, Started d (start d now) maps streams := by
  have hempty : Filled (openDevice d ⟨V4L2.construct, []⟩).v4l2.devBuf [] :=
    ⟨fun _ => rfl, Nat.zero_le 2⟩
  have hopen : Started d (openDevice d ⟨V4L2.construct, []⟩) [] false :=
    ⟨rfl, by simp [openDevice], hempty, fun h => by cases h⟩
  obtain ⟨maps, u, done, hmap, hfd, hcalls, hfill, hdone⟩ := mapBuffers_cases (d := d) hempty
  rw [hopen.calls] at hcalls
  unfold start startup
  dsimp only
  split
  · exact ⟨[], false, hopen⟩
  · split
    · exact ⟨[], false, hopen⟩
    · rw [hmap]
      cases done with
      | false => exact ⟨maps, false, hfd, by simpa using hcalls, hfill, fun h => by cases h⟩
      | true =>
          dsimp only
          split
          · exact ⟨maps, false, hfd, by simpa using hcalls, hfill, fun h => by cases h⟩
          · exact ⟨maps, true, hfd, by rw [hcalls]; simp, hfill, fun _ => hdone rfl⟩

variable {streams : Bool}

/-! ### What is released -/

theorem Started.mapped_eq (h : Started d t maps streams) : t.calls.filterMap mapped = maps := by
  have hmaps : (maps.map mmap).filterMap mapped = maps := by
    rw [List.filterMap_map]
    exact List.filterMap_some
  rw [h.calls, List.filterMap_append, List.filterMap_append, hmaps]
  split_ifs <;> simp [List.filterMap_cons, mapped]

/-- What is left of both fields without the empty ones is what was mapped. -/
theorem Filled.nonempty {devBuf : Fin 2 → HWBuffer} (h : Filled devBuf maps) :
    [devBuf V4L2.first, devBuf V4L2.second].filter (fun buf => buf.sz != 0) =
      maps.filter (fun buf => buf.sz != 0) := by
  rw [h.holds, h.holds]
  rcases maps with _ | ⟨b₀, _ | ⟨b₁, _ | ⟨b₂, rest⟩⟩⟩
  · rfl
  · show List.filter _ ([b₀] ++ [⟨0, 0⟩]) = _
    rw [List.filter_append]
    exact List.append_nil _
  · rfl
  · exact absurd h.length (by simp)

/-- The calls that one kind of outcome is read from. -/
theorem Started.filterMap_calls {α : Type} (h : Started d t maps streams)
    (f : DeviceCall → Option α) (hstream : f .streamOn = none) :
    t.shutdown.calls.filterMap f =
      (if d.fd < 0 then [] else [.open d.fd]).filterMap f ++
        maps.filterMap (fun buf => f (.mmap buf)) ++
        (maps.filter (fun buf => buf.sz != 0)).filterMap (fun buf => f (.munmap buf)) ++
        (if 0 < d.fd then [.close d.fd] else []).filterMap f := by
  have hstreams : (if streams then [DeviceCall.streamOn] else []).filterMap f = [] := by
    split
    · rw [List.filterMap_cons_none hstream, List.filterMap_nil]
    · rfl
  rw [shutdown, h.filled.nonempty, h.fd, h.calls]
  simp only [List.filterMap_append, List.filterMap_map, hstreams, List.append_nil]
  rfl

theorem Started.unmapped_calls (h : Started d t maps streams) :
    t.shutdown.calls.filterMap unmapped = maps.filter (fun buf => buf.sz != 0) := by
  rw [h.filterMap_calls unmapped rfl]
  split_ifs <;> simp [List.filterMap_cons, unmapped]

theorem Started.mapped_calls (h : Started d t maps streams) :
    t.shutdown.calls.filterMap mapped = maps := by
  rw [h.filterMap_calls mapped rfl]
  split_ifs <;> simp [List.filterMap_cons, mapped]

theorem Started.closed_calls (h : Started d t maps streams) :
    t.shutdown.calls.filterMap closed = if 0 < d.fd then [d.fd] else [] := by
  rw [h.filterMap_calls closed rfl]
  split_ifs <;> simp [List.filterMap_cons, closed]

theorem Started.opened_calls (h : Started d t maps streams) :
    t.shutdown.calls.filterMap opened = if d.fd < 0 then [] else [d.fd] := by
  rw [h.filterMap_calls opened rfl]
  split_ifs <;> simp [List.filterMap_cons, opened]

/-- **After `startup` and `shutdown` everything is released exactly if `open` did not return
descriptor 0.** -/
theorem released_iff (d : Device) (now : ℤ) :
    Released (start d now).shutdown.calls ↔ d.fd ≠ 0 := by
  obtain ⟨maps, streams, h⟩ := start_started d now
  rw [Released, h.unmapped_calls, h.mapped_calls, h.closed_calls, h.opened_calls,
    and_iff_right rfl]
  rcases lt_trichotomy d.fd 0 with hfd | hfd | hfd
  · rw [if_neg (lt_asymm hfd), if_pos hfd]
    exact iff_of_true rfl hfd.ne
  · rw [hfd, if_neg (lt_irrefl 0), if_neg (lt_irrefl 0)]
    exact iff_of_false (List.cons_ne_nil 0 []).symm (fun h => h rfl)
  · rw [if_pos hfd, if_neg (lt_asymm hfd)]
    exact iff_of_true rfl hfd.ne'

/-- A camera whose `open` returns descriptor 0. -/
theorem not_released : ¬ Released (start { Device.camera with fd := 0 } 0).shutdown.calls := by
  decide

end Traced

end MKart.Server
