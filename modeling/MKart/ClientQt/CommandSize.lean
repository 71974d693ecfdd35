import MKart.ClientQt.Commands
import MKart.ClientQt.RoundTrip

/-!
# The size byte of a command

The virtual `pack` of a command changes its archive only through `reset` and `write`, so a class is
given here by the calls that its `pack` makes (`PackClass`; `get_buffer` changes nothing).
`RemoteService::send_cmd` stores the size of the archive after them into its first byte, which
keeps eight bits of it: the byte is right for frames of up to 255 bytes, and `Tcp::send_raw` takes
longer ones all the same.
-/

namespace MKart.ClientQt

/-! ### Calls of an archive -/

inductive OutputCall
  | reset
  | write (v : Typed)

namespace OutputCall

def run (a : MemOutputArchive) : OutputCall → MemOutputArchive
  | .reset => a.reset
  | .write v => a.write v.1 v.2

/-- The size that a call leaves of an archive of `n` bytes. -/
def size (n : ℕ) : OutputCall → ℕ
  | .reset => 0
  | .write v => n + v.1.size

end OutputCall

namespace MemOutputArchive

def runCalls (calls : List OutputCall) (a : MemOutputArchive) : MemOutputArchive :=
  calls.foldl OutputCall.run a

/-- **The size of an archive is what its calls add up to.** -/
theorem runCalls_length (calls : List OutputCall) (a : MemOutputArchive) :
    (a.runCalls calls).bytes.length = calls.foldl OutputCall.size a.bytes.length := by
  induction calls generalizing a with
  | nil => rfl
  | cons call calls ih =>
      show ((call.run a).runCalls calls).bytes.length = _
      rw [ih, List.foldl_cons]
      congr 1
      cases call with
      | reset => rfl
      | write v =>
          show (a.bytes ++ v.1.bytes v.2).length = _
          rw [List.length_append, IntType.bytes_length]
          rfl

theorem runCalls_write (vs : List Typed) (a : MemOutputArchive) :
    a.runCalls (vs.map .write) = a.writeAll vs := by
  rw [runCalls, List.foldl_map]
  rfl

end MemOutputArchive

/-! ### Classes -/

/-- The virtual functions of the objects in `O`, with `pack` as the calls it makes. -/
structure PackClass (O : Type) where
  getId : O → UInt8
  pack : O → List OutputCall
  unpack : O → MemInputArchive → O × MemInputArchive

def PackClass.toCmdClass {O : Type} (cls : PackClass O) : CmdClass O where
  getId := cls.getId
  pack := fun o a => a.runCalls (cls.pack o)
  unpack := cls.unpack

/-- The calls of `CmdNone::pack` and `CmdMotorSetSpeed::pack`. -/
def KartCmd.packCalls : KartCmd → List OutputCall
  | .none => []
  | .motorSetSpeed l r => [.write ⟨.int16, l⟩, .write ⟨.int16, r⟩]

theorem KartCmd.pack_eq (c : KartCmd) (a : MemOutputArchive) :
    c.pack a = a.runCalls c.packCalls := by
  cases c with
  | none => rfl
  | motorSetSpeed l r => rfl

namespace PackClass

variable {O : Type} (cls : PackClass O) (cmd : O)

/-- The size of the frame: the two bytes of the header, and what `pack` makes of them. -/
def frameSize : ℕ := (cls.pack cmd).foldl OutputCall.size 2

/-- The frame that is handed to `Tcp::send_raw`. -/
def frame (c : RemoteContext) : List UInt8 := (packCmd cls.toCmdClass cmd c.outArchive).bytes

/-- The first byte of the frame is the frame's length, or nothing is sent and an error is
returned. -/
def SizeHonest (write : SocketWrite) (c : RemoteContext) : Prop :=
  (∃ size rest, cls.frame cmd c = size :: rest ∧ size.toNat = (cls.frame cmd c).length) ∨
    ((RemoteService.sendCmd write cls.toCmdClass cmd c).2.1 ≠ .succeeded ∧
      (RemoteService.sendCmd write cls.toCmdClass cmd c).2.2 = [])

variable {cls cmd}

/-- What `pack` leaves in the archive, before the size is stored. -/
theorem frame_eq (cls : PackClass O) (cmd : O) (c : RemoteContext) : ∃ packed : List UInt8,
    packed.length = cls.frameSize cmd ∧
      cls.frame cmd c = packed.set 0 (UInt8.ofNat packed.length) :=
  ⟨_, MemOutputArchive.runCalls_length _ _, rfl⟩

/-- **The first byte is right for the sizes of a byte.** -/
theorem sizeByte_iff (c : RemoteContext) :
    (∃ size rest, cls.frame cmd c = size :: rest ∧ size.toNat = (cls.frame cmd c).length) ↔
      0 < cls.frameSize cmd ∧ cls.frameSize cmd < 256 := by
  obtain ⟨packed, hlength, hframe⟩ := frame_eq cls cmd c
  rw [hframe, List.length_set, ← hlength]
  cases packed with
  | nil =>
      refine iff_of_false ?_ fun h => absurd h.1 (Nat.lt_irrefl 0)
      rintro ⟨size, rest, hnil, -⟩
      cases hnil
  | cons b rest =>
      rw [List.set_cons_zero]
      constructor
      · rintro ⟨size, rest', hcons, hsize⟩
        obtain ⟨rfl, rfl⟩ := List.cons.inj hcons
        exact ⟨Nat.succ_pos _, hsize ▸ UInt8.toNat_lt _⟩
      · rintro ⟨-, hlt⟩
        exact ⟨_, rest, rfl, UInt8.toNat_ofNat_of_lt' hlt⟩

/-- `send_cmd` reports an error exactly if the socket was not connected at the last update. -/
theorem sendCmd_error_iff (write : SocketWrite) (c : RemoteContext) :
    ((RemoteService.sendCmd write cls.toCmdClass cmd c).2.1 ≠ .succeeded ∧
        (RemoteService.sendCmd write cls.toCmdClass cmd c).2.2 = []) ↔
      c.tcp.state ≠ .connected := by
  rw [RemoteService.sendCmd, Tcp.sendRaw]
  dsimp only
  split
  · rename_i hstate
    exact iff_of_true ⟨by decide, rfl⟩ hstate
  · rename_i hstate
    exact iff_of_false (fun h => h.1 rfl) hstate

/-- **The size byte is right, or nothing is sent, exactly for frames of 1 to 255 bytes and without
a connection.** -/
theorem sizeHonest_iff (cls : PackClass O) (cmd : O) (write : SocketWrite) (c : RemoteContext) :
    cls.SizeHonest cmd write c ↔
      (0 < cls.frameSize cmd ∧ cls.frameSize cmd < 256) ∨ c.tcp.state ≠ .connected :=
  or_congr (sizeByte_iff c) (sendCmd_error_iff write c)

/-- A command with 64 fields of four bytes. -/
def long : PackClass Unit where
  getId := fun _ => 2
  pack := fun _ => List.replicate 64 (.write ⟨.uint32, (0 : UInt32)⟩)
  unpack := fun o a => (o, a)

/-- The frame has 258 bytes, and its size is stored as 2. -/
theorem not_sizeHonest :
    ¬ long.SizeHonest () QTcpSocket.write
      ⟨{ TcpPrivate.init with sock := ⟨.connectedState, []⟩, state := .connected }, ⟨[]⟩⟩ := by
  have hsize : long.frameSize () = 258 := by decide
  rintro (hbyte | herror)
  · have hlt := ((sizeByte_iff _).mp hbyte).2
    rw [hsize] at hlt
    exact absurd hlt (by decide)
  · exact (sendCmd_error_iff _ _).mp herror rfl

/-! ### Classes that only write -/

theorem frameSize_writes {vs : List Typed} (h : cls.pack cmd = vs.map .write) :
    cls.frameSize cmd = 2 + (vs.flatMap Typed.bytes).length := by
  have hlength := MemOutputArchive.runCalls_length (vs.map .write) ⟨[0, 0]⟩
  rw [MemOutputArchive.runCalls_write, MemOutputArchive.writeAll_bytes,
    List.length_append] at hlength
  rw [frameSize, h]
  exact hlength.symm

/-- Behind the header, a frame has room for 253 bytes. -/
theorem sizeByte_writes_iff {vs : List Typed} (h : cls.pack cmd = vs.map .write)
    (c : RemoteContext) :
    (∃ size rest, cls.frame cmd c = size :: rest ∧ size.toNat = (cls.frame cmd c).length) ↔
      (vs.flatMap Typed.bytes).length ≤ 253 := by
  rw [sizeByte_iff, frameSize_writes h]
  omega

end PackClass

namespace KartCmd

def packClass : PackClass KartCmd := ⟨getId, packCalls, unpack⟩

theorem packClass_toCmdClass : packClass.toCmdClass = ⟨getId, pack, unpack⟩ := by
  have hpack : packClass.toCmdClass.pack = pack := by
    funext c a
    exact (pack_eq c a).symm
  rw [← hpack]
  rfl

/-- The two commands of the source have the right size byte. -/
theorem sizeByte (cmd : KartCmd) (c : RemoteContext) : ∃ size rest,
    packClass.frame cmd c = size :: rest ∧ size.toNat = (packClass.frame cmd c).length := by
  refine (PackClass.sizeByte_iff c).mpr ?_
  cases cmd with
  | none => decide
  | motorSetSpeed l r => exact ⟨Nat.succ_pos _, show 6 < 256 by decide⟩

end KartCmd

end MKart.ClientQt
