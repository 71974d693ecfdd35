import MKart.ClientQt.Archive
import MKart.ClientQt.Tcp

/-!
# Commands and their dispatcher

`client-qt/common/kart_commands.{h,cpp}` and `RemoteService::send_cmd`.  A program may derive
further classes from `Cmd`; their objects are a type parameter `O` with their virtual functions
(`CmdClass`), next to the two classes of the source (`KartCmd`).

A class registered by the template `register_command<CMD>` is constructed by `new CMD`, which
leaves the fields of a `CmdMotorSetSpeed` as the memory was (`Memory`).  The other overload takes
any constructor function for any id.
-/

namespace MKart.ClientQt

open MKart.LittleEndian

/-! ### `Cmd` and its classes -/

/-- The virtual functions of the objects in `O`. -/
structure CmdClass (O : Type) where
  /-- `get_id`, cast to `uint8_t` by its only caller. -/
  getId : O → UInt8
  pack : O → MemOutputArchive → MemOutputArchive
  unpack : O → MemInputArchive → O × MemInputArchive

/-- The objects of `CmdNone` and `CmdMotorSetSpeed`. -/
inductive KartCmd
  | none
  | motorSetSpeed (lSpeed rSpeed : Int16)
  deriving DecidableEq, Repr

/-- What the memory of a new object holds. -/
abbrev Memory := ℕ → UInt8

namespace KartCmd

/-- `CommandId`. -/
def cmdNone : UInt8 := 0

def cmdMotorSetSpeed : UInt8 := 1

def getId : KartCmd → UInt8
  | .none => cmdNone
  | .motorSetSpeed _ _ => cmdMotorSetSpeed

def pack : KartCmd → MemOutputArchive → MemOutputArchive
  | .none, a => a
  | .motorSetSpeed l r, a => (a.write .int16 l).write .int16 r

/-- A read that fails leaves its field as it was. -/
def unpack : KartCmd → MemInputArchive → KartCmd × MemInputArchive
  | .none, a => (.none, a)
  | .motorSetSpeed l r, a =>
      let readL := a.read .int16
      let readR := readL.2.read .int16
      (.motorSetSpeed (readL.1.getD l) (readR.1.getD r), readR.2)

/-- `new CmdNone`. -/
def newNone (_ : Memory) : KartCmd := .none

/-- `new CmdMotorSetSpeed`, which initialises neither field. -/
def newMotorSetSpeed (m : Memory) : KartCmd :=
  .motorSetSpeed (IntType.ofBits .int16 (leValue [m 0, m 1]))
    (IntType.ofBits .int16 (leValue [m 2, m 3]))

end KartCmd

/-- The classes of the source and the further ones of a program. -/
def CmdClass.withKart {O : Type} (cls : CmdClass O) : CmdClass (KartCmd ⊕ O) where
  getId := Sum.elim KartCmd.getId cls.getId
  pack := Sum.elim KartCmd.pack cls.pack
  unpack
    | .inl c, a => ((c.unpack a).map .inl id)
    | .inr o, a => ((cls.unpack o a).map .inr id)

/-! ### `RemoteService::send_cmd` -/

/-- What `send_cmd` leaves in its archive and hands to `Tcp::send_raw`: a size, the id and the
packed fields, with the size stored last. -/
def packCmd {O : Type} (cls : CmdClass O) (cmd : O) (archive : MemOutputArchive) :
    MemOutputArchive :=
  let archive := archive.reset
  let archive := archive.write .uint8 (0 : UInt8)
  let archive := archive.write .uint8 (cls.getId cmd)
  let archive := cls.pack cmd archive
  ⟨archive.bytes.set 0 (UInt8.ofNat archive.bytes.length)⟩

structure RemoteContext where
  tcp : TcpPrivate
  outArchive : MemOutputArchive

/-- `RemoteService::send_cmd`, with the bytes the socket accepted. -/
def RemoteService.sendCmd {O : Type} (write : SocketWrite) (cls : CmdClass O) (cmd : O)
    (c : RemoteContext) : RemoteContext × Tcp.Result × List UInt8 :=
  let archive := packCmd cls cmd c.outArchive
  ({ c with outArchive := archive }, Tcp.sendRaw write c.tcp archive.bytes)

/-- The frames of a list of commands, sent one after the other through one archive. -/
def frames {O : Type} (cls : CmdClass O) : MemOutputArchive → List O → List UInt8
  | _, [] => []
  | archive, cmd :: cmds =>
      (packCmd cls cmd archive).bytes ++ frames cls (packCmd cls cmd archive) cmds

/-! ### `CmdDispatcher` -/

/-- `CmdDispatcher::Data::Entry`; `F` are the exec functions. -/
structure Entry (O F : Type) where
  cstorFunc : Memory → O
  execFunc : F

/-- The map from ids to entries; no id occurs twice. -/
structure CmdDispatcher (O F : Type) where
  entries : List (UInt8 × Entry O F)

/-- What a dispatch leaves: its result, the archive, and the exec function it called with the
object it passed. -/
structure Dispatch (O F : Type) where
  result : Bool
  archive : MemInputArchive
  called : Option (F × O)

namespace CmdDispatcher

variable {O F : Type}

def registerCommand (id : UInt8) (entry : Entry O F) (d : CmdDispatcher O F) :
    Bool × CmdDispatcher O F :=
  match d.entries.lookup id with
  | some _ => (false, d)
  | none => (true, ⟨d.entries ++ [(id, entry)]⟩)

/-- The dispatcher after a sequence of `register_command` calls. -/
def registerAll (calls : List (UInt8 × Entry O F)) : CmdDispatcher O F :=
  calls.foldl (fun d call => (d.registerCommand call.1 call.2).2) ⟨[]⟩

/-- `CmdDispatcher::dispatch_from_archive`. -/
def dispatchFromArchive (cls : CmdClass O) (m : Memory) (d : CmdDispatcher O F)
    (archive : MemInputArchive) : Dispatch O F :=
  match archive.read .uint8 with
  | (none, archive) => ⟨false, archive, none⟩
  | (some _, archive) =>
      match archive.read .uint8 with
      | (none, archive) => ⟨false, archive, none⟩
      | (some id, archive) =>
          match d.entries.lookup id with
          | none => ⟨false, archive, none⟩
          | some entry =>
              let unpacked := cls.unpack (entry.cstorFunc m) archive
              ⟨false, unpacked.2, some (entry.execFunc, unpacked.1)⟩

/-- `n` dispatches from one archive: the calls they made, and the archive they leave. -/
def dispatchAll (cls : CmdClass O) (m : ℕ → Memory) (d : CmdDispatcher O F) :
    ℕ → MemInputArchive → List (F × O) × MemInputArchive
  | 0, archive => ([], archive)
  | n + 1, archive =>
      let r := d.dispatchFromArchive cls (m n) archive
      let rest := dispatchAll cls m d n r.archive
      (r.called.toList ++ rest.1, rest.2)

/-- A registration of an id that is there already changes nothing. -/
theorem lookup_registerCommand (d : CmdDispatcher O F) (id : UInt8) (entry : Entry O F)
    (calls : List (UInt8 × Entry O F)) (k : UInt8) :
    ((d.registerCommand id entry).2.entries ++ calls).lookup k =
      (d.entries ++ (id, entry) :: calls).lookup k := by
  unfold registerCommand
  split
  · rename_i old hold
    rw [List.lookup_append, List.lookup_append, List.lookup_cons]
    by_cases hk : k = id
    · rw [hk, hold]
      rfl
    · rw [show (k == id) = false by simpa using hk]
  · rw [List.append_assoc]
    rfl

/-- **The first registration of an id wins.** -/
theorem lookup_registerAll (calls : List (UInt8 × Entry O F)) (k : UInt8) :
    (registerAll calls).entries.lookup k = calls.lookup k := by
  suffices h : ∀ d : CmdDispatcher O F,
      (calls.foldl (fun d call => (d.registerCommand call.1 call.2).2) d).entries.lookup k =
        (d.entries ++ calls).lookup k from h ⟨[]⟩
  induction calls with
  | nil => intro d; rw [List.append_nil]; rfl
  | cons call calls ih =>
      intro d
      rw [List.foldl_cons, ih, lookup_registerCommand]

end CmdDispatcher

/-! ### One frame -/

section OneFrame

variable {O F : Type} (cls : CmdClass O)

/-- The frame of a command is the same whatever the archive held before. -/
theorem packCmd_none (archive : MemOutputArchive) :
    (packCmd cls.withKart (.inl .none) archive).bytes =
      IntType.bytes .uint8 (2 : UInt8) ++ IntType.bytes .uint8 KartCmd.cmdNone := rfl

theorem packCmd_motorSetSpeed (l r : Int16) (archive : MemOutputArchive) :
    (packCmd cls.withKart (.inl (.motorSetSpeed l r)) archive).bytes =
      IntType.bytes .uint8 (6 : UInt8) ++ (IntType.bytes .uint8 KartCmd.cmdMotorSetSpeed ++
        (IntType.bytes .int16 l ++ IntType.bytes .int16 r)) := rfl

/-- The entry makes objects of the class with this id. -/
def Makes (id : UInt8) (entry : Entry (KartCmd ⊕ O) F) : Prop :=
  ∀ m, ∃ c : KartCmd, entry.cstorFunc m = .inl c ∧ c.getId = id

theorem KartCmd.eq_none {c : KartCmd} (h : c.getId = cmdNone) : c = .none := by
  cases c with
  | none => rfl
  | motorSetSpeed l r => exact absurd (show cmdMotorSetSpeed = cmdNone from h) (by decide)

theorem KartCmd.eq_motorSetSpeed {c : KartCmd} (h : c.getId = cmdMotorSetSpeed) :
    ∃ l r, c = .motorSetSpeed l r := by
  cases c with
  | none => exact absurd h (by decide)
  | motorSetSpeed l r => exact ⟨l, r, rfl⟩

/-- **One frame, one call**, with an equal object, and the archive is left behind the frame. -/
theorem dispatch_packCmd {d : CmdDispatcher (KartCmd ⊕ O) F} {cmd : KartCmd}
    {entry : Entry (KartCmd ⊕ O) F} (hentry : d.entries.lookup cmd.getId = some entry)
    (hmakes : Makes cmd.getId entry) (m : Memory) (out : MemOutputArchive)
    {archive : MemInputArchive} {r : List UInt8}
    (h : archive.rest = (packCmd cls.withKart (.inl cmd) out).bytes ++ r) :
    let behind : MemInputArchive :=
      ⟨archive.buff, archive.pos + (packCmd cls.withKart (.inl cmd) out).bytes.length⟩
    d.dispatchFromArchive cls.withKart m archive =
        ⟨false, behind, some (entry.execFunc, .inl cmd)⟩ ∧ behind.rest = r := by
  obtain ⟨made, hmade, hid⟩ := hmakes m
  cases cmd with
  | none =>
      obtain rfl := KartCmd.eq_none hid
      rw [packCmd_none, List.append_assoc] at h
      obtain ⟨hsz, h⟩ := MemInputArchive.read_rest h
      obtain ⟨hread, h⟩ := MemInputArchive.read_rest h
      have hentry : d.entries.lookup KartCmd.cmdNone = some entry := hentry
      refine ⟨?_, h⟩
      simp only [CmdDispatcher.dispatchFromArchive, hsz, hread, hentry, hmade]
      rfl
  | motorSetSpeed l r =>
      obtain ⟨l', r', rfl⟩ := KartCmd.eq_motorSetSpeed hid
      rw [packCmd_motorSetSpeed, List.append_assoc, List.append_assoc, List.append_assoc] at h
      obtain ⟨hsz, h⟩ := MemInputArchive.read_rest h
      obtain ⟨hread, h⟩ := MemInputArchive.read_rest h
      obtain ⟨hl, h⟩ := MemInputArchive.read_rest h
      obtain ⟨hr, h⟩ := MemInputArchive.read_rest h
      have hentry : d.entries.lookup KartCmd.cmdMotorSetSpeed = some entry := hentry
      refine ⟨?_, h⟩
      simp only [CmdDispatcher.dispatchFromArchive, hsz, hread, hentry, hmade,
        CmdClass.withKart, KartCmd.unpack, hl, hr]
      rfl

end OneFrame

end MKart.ClientQt
