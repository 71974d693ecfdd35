import MKart.ClientQt.Fpv
import MKart.Lib.Runs

/-!
# The size of the texture

`FpvContext::on_recieve_jpeg` creates the texture from the first image it decodes, and uploads each
later one into it by a pointer.  `QOpenGLTexture` keeps the size it was created with, and its
`setData` reads four bytes for each of its own texels, however large the image is.

Connecting again keeps the texture.  A run fits its images exactly if all of them, over all
connections, have the size of the first (`fits_iff`).
-/

namespace MKart.ClientQt.Texture

open MKart.Runs

inductive Event
  | connect (write : SocketWrite)
  | disconnect
  | setCapturing (write : SocketWrite) (enabled : Bool)
  /-- Whatever happens on the network. -/
  | socket (sock : QTcpSocket)
  | update (env : FpvEnv)

def step (c : FpvContext) : Event → FpvContext
  | .connect write => (FpvService.connect write c).1
  | .disconnect => FpvService.disconnect c
  | .setCapturing write enabled => (FpvService.setCapturing write c enabled).1
  | .socket sock => { c with tcp := { c.tcp with sock := sock } }
  | .update env => (c.update env).1

/-- The image that an update decodes. -/
def decoded (env : FpvEnv) (c : FpvContext) : Option QImage :=
  match (Tcp.readMessage (Tcp.update QTcpSocket.read c.tcp)).2 with
  | none => none
  | some msg =>
      if FpvContext.is4cc (FpvContext.msgPtr env msg) 'J' 'P' 'E' 'G' then
        env.fromData (fun i => FpvContext.msgPtr env msg (4 + i))
          (((((msg.length : ℤ) - 4) % 2 ^ 32).toNat : ℤ).bmod (2 ^ 32))
      else none

def decodedBy (c : FpvContext) : Event → Option QImage
  | .update env => decoded env c
  | _ => none

/-- The four bytes of each texel. -/
def byteCount (img : QImage) : ℕ := img.width * img.height * 4

/-- The bytes of the decoded image that are read: by the constructor, which creates the texture
from the image, or by `setData`. -/
def uploaded (c : FpvContext) (img : QImage) : ℕ :=
  match c.tex with
  | none => byteCount img
  | some tex => byteCount tex

/-- After each successful decode the texture has the size of the image, and the upload has read
the image. -/
def Fits (c : FpvContext) (e : Event) : Prop :=
  ∀ img ∈ decodedBy c e, (step c e).tex = some img ∧ uploaded c img = byteCount img

/-- The images that are decoded along a run. -/
def images : FpvContext → List Event → List QImage
  | _, [] => []
  | c, e :: es => (decodedBy c e).toList ++ images (step c e) es

/-! ### One step -/

theorem onRecieveJpeg_tex (env : FpvEnv) (c : FpvContext) (ptr : ℕ → UInt8) (len : ℕ) :
    (c.onRecieveJpeg env ptr len).tex =
      match env.fromData ptr ((len : ℤ).bmod (2 ^ 32)) with
      | none => c.tex
      | some img => some (c.tex.getD img) := by
  rw [FpvContext.onRecieveJpeg]
  cases env.fromData ptr ((len : ℤ).bmod (2 ^ 32)) with
  | none => rfl
  | some img =>
      cases htex : c.tex with
      | none => rfl
      | some tex => exact htex

/-- The first image that is decoded stays. -/
theorem update_tex (env : FpvEnv) (c : FpvContext) :
    (c.update env).1.tex =
      match decoded env c with
      | none => c.tex
      | some img => some (c.tex.getD img) := by
  unfold FpvContext.update decoded
  rcases Tcp.readMessage (Tcp.update QTcpSocket.read c.tcp) with ⟨tcp, _ | msg⟩
  · rfl
  · dsimp only
    split
    · exact onRecieveJpeg_tex _ _ _ _
    · rfl

theorem step_tex (c : FpvContext) (e : Event) :
    (step c e).tex =
      match decodedBy c e with
      | none => c.tex
      | some img => some (c.tex.getD img) := by
  cases e with
  | update env => exact update_tex env c
  | connect write | disconnect | setCapturing write enabled | socket sock => rfl

theorem fits_of_none {c : FpvContext} {e : Event} (h : decodedBy c e = none) : Fits c e := by
  intro img himg
  rw [h] at himg
  cases himg

theorem fits_of_some {c : FpvContext} {e : Event} {img : QImage} (h : decodedBy c e = some img) :
    Fits c e ↔ c.tex.getD img = img := by
  have htex := step_tex c e
  rw [h] at htex
  constructor
  · intro hfits
    exact Option.some.inj (htex.symm.trans (hfits img h).1)
  · intro hsame img' himg'
    obtain rfl : img = img' := Option.some.inj (h.symm.trans himg')
    refine ⟨htex.trans (congrArg some hsame), ?_⟩
    rw [uploaded]
    cases hold : c.tex with
    | none => rfl
    | some tex =>
        rw [hold] at hsame
        exact congrArg byteCount hsame

/-! ### Runs -/

/-- From any state: each image has the size of the texture, or of the first image. -/
theorem fits_iff_from (c : FpvContext) (es : List Event) :
    Meets step Fits c es ↔ ∀ img ∈ images c es, c.tex.or (images c es).head? = some img := by
  induction es generalizing c with
  | nil => exact iff_of_true trivial fun img himg => absurd himg List.not_mem_nil
  | cons e es ih =>
      show Fits c e ∧ Meets step Fits (step c e) es ↔ _
      rw [ih, step_tex, images]
      cases hdec : decodedBy c e with
      | none => exact and_iff_right (fits_of_none hdec)
      | some img =>
          have hfirst : c.tex.or (some img) = some (c.tex.getD img) := by
            cases c.tex <;> rfl
          rw [fits_of_some hdec]
          show _ ↔ ∀ img' ∈ img :: images (step c e) es, c.tex.or (some img) = some img'
          rw [hfirst, List.forall_mem_cons, Option.some_inj]
          rfl

/-- **A run fits its images exactly if all of them have the size of the first.** -/
theorem fits_iff (es : List Event) :
    Meets step Fits FpvContext.init es ↔
      ∀ img ∈ images FpvContext.init es, (images FpvContext.init es).head? = some img :=
  fits_iff_from FpvContext.init es

/-! ### A smaller image -/

/-- A gray JPEG of `w` times `h` pixels; its scan is one byte. -/
def grayJpeg (w h scan : UInt8) : List UInt8 :=
  [0xFF, 0xD8, 0xFF, 0xDB, 0, 67, 0] ++ List.replicate 64 1 ++
    [0xFF, 0xC0, 0, 11, 8, 0, h, 0, w, 1, 1, 0x11, 0] ++
    ([0xFF, 0xC4, 0, 20, 0, 1] ++ List.replicate 16 0) ++
    ([0xFF, 0xC4, 0, 20, 16, 1] ++ List.replicate 16 0) ++
    [0xFF, 0xDA, 0, 8, 1, 1, 0, 0, 63, 0, scan, 0xFF, 0xD9]

/-- The size of such an image, as its frame header has it. -/
def grayEnv : FpvEnv where
  heap := fun _ => 0
  fromData := fun p _ => some ⟨(p 79).toNat, (p 77).toNat⟩

def message (jpeg : List UInt8) : List UInt8 :=
  [UInt8.ofNat (jpeg.length + 4), 0, 0, 0, 74, 80, 69, 71] ++ jpeg

/-- An image of 16 times 8 pixels, and then one of 8 times 8. -/
def shrinking : List Event :=
  [.connect QTcpSocket.write,
    .socket ⟨.connectedState, message (grayJpeg 16 8 0x0F) ++ message (grayJpeg 8 8 0x3F)⟩,
    .update grayEnv, .update grayEnv, .update grayEnv, .update grayEnv]

example : images FpvContext.init shrinking = [⟨16, 8⟩, ⟨8, 8⟩] := by decide +kernel

/-- The upload of the second image reads 512 bytes, of which it has 256. -/
theorem not_fits : ¬ Meets step Fits FpvContext.init shrinking := by
  intro h
  obtain ⟨-, -, -, -, -, hlast, -⟩ := h
  have hupload := (hlast ⟨8, 8⟩ (by decide +kernel)).2
  exact absurd hupload (by decide +kernel)

end MKart.ClientQt.Texture
