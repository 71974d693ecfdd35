import MKart.Lib.SizedReads
import MKart.ClientQt.Commands

/-!
# What a dispatch does with the bytes at its position

The virtual `unpack` of a command sees its archive only through `read` (`seek` does nothing), so a
class is given by a program of reads (`ReadClass`).  `dispatch_none` and `dispatch_some` say what
`dispatch_from_archive` does in terms of the bytes that have not been read: nothing, where they
hold no header or their id is not registered, and otherwise one call of the entry's exec function,
whatever the reads of `unpack` have returned.

Two properties that the result and the reads ought to have are settled here: the result is right
exactly where nothing is executed, and a command is executed with what was decoded exactly where
its fields fit behind the header.
-/

namespace MKart.ClientQt

open MKart.LittleEndian MKart.SizedReads

/-! ### Reads of an archive -/

/-- The integers of an archive. -/
abbrev layout : Layout IntType UInt8 where
  Val := IntType.Val
  size := IntType.size
  decode := fun t s => t.ofBits (leValue s)

namespace MemInputArchive

theorem size_pos (t : IntType) : 0 < t.size := by cases t <;> decide

theorem read_short {t : IntType} {a : MemInputArchive} (h : a.rest.length < t.size) :
    a.read t = (none, a) := by
  have hpos := size_pos t
  simp only [rest, List.length_drop] at h
  rw [read, if_pos (by omega)]

theorem read_long {t : IntType} {a : MemInputArchive} (h : ¬ a.rest.length < t.size) :
    a.read t =
      (some (t.ofBits (leValue (a.rest.take t.size))), { a with pos := a.pos + t.size }) := by
  have hpos := size_pos t
  simp only [rest, List.length_drop] at h
  rw [read, if_neg (by omega)]
  rfl

theorem rest_advance (a : MemInputArchive) (n : ℕ) :
    rest { a with pos := a.pos + n } = a.rest.drop n := by
  show a.buff.drop (a.pos + n) = (a.buff.drop a.pos).drop n
  rw [List.drop_drop]

/-- A program of reads, run on an archive. -/
def runReads {α : Type} : Prog layout α → MemInputArchive → α × MemInputArchive
  | .done x, a => (x, a)
  | .read t next, a => runReads (next (a.read t).1) (a.read t).2

/-- What the `read` calls of the program return. -/
def readResults {α : Type} : Prog layout α → MemInputArchive → List Bool
  | .done _, _ => []
  | .read t next, a => (a.read t).1.isSome :: readResults (next (a.read t).1) (a.read t).2

/-- A run depends on the bytes behind the position alone. -/
theorem runReads_eq {α : Type} (p : Prog layout α) (a : MemInputArchive) :
    runReads p a = (p.value a.rest, { a with pos := a.pos + p.taken a.rest }) := by
  induction p generalizing a with
  | done x => rfl
  | read t next ih =>
      rw [runReads, Prog.value, Prog.taken]
      by_cases hshort : a.rest.length < t.size
      · rw [read_short hshort, ih, if_pos hshort, if_pos hshort]
      · rw [read_long hshort, ih, if_neg hshort, if_neg hshort, rest_advance]
        simp only [layout, Nat.add_assoc]

theorem readResults_eq {α : Type} (p : Prog layout α) (a : MemInputArchive) :
    readResults p a = p.results a.rest := by
  induction p generalizing a with
  | done x => rfl
  | read t next ih =>
      rw [readResults, Prog.results]
      by_cases hshort : a.rest.length < t.size
      · rw [read_short hshort, ih, if_pos hshort]
        rfl
      · rw [read_long hshort, ih, if_neg hshort, rest_advance]
        rfl

end MemInputArchive

/-! ### Classes -/

/-- The virtual functions of the objects in `O`, with `unpack` as a program of reads. -/
structure ReadClass (O : Type) where
  getId : O → UInt8
  pack : O → MemOutputArchive → MemOutputArchive
  unpack : O → Prog layout O

def ReadClass.toCmdClass {O : Type} (cls : ReadClass O) : CmdClass O where
  getId := cls.getId
  pack := cls.pack
  unpack := fun o a => MemInputArchive.runReads (cls.unpack o) a

/-- The reads of `CmdNone::unpack` and `CmdMotorSetSpeed::unpack`. -/
def KartCmd.unpackReads : KartCmd → Prog layout KartCmd
  | .none => .done .none
  | .motorSetSpeed l r =>
      .read .int16 fun l' => .read .int16 fun r' =>
        .done (.motorSetSpeed (l'.getD l) (r'.getD r))

theorem KartCmd.unpack_eq (c : KartCmd) (a : MemInputArchive) :
    c.unpack a = MemInputArchive.runReads c.unpackReads a := by
  cases c with
  | none => rfl
  | motorSetSpeed l r => rfl

/-- The classes of the source and the further ones of a program. -/
def ReadClass.withKart {O : Type} (cls : ReadClass O) : ReadClass (KartCmd ⊕ O) where
  getId := Sum.elim KartCmd.getId cls.getId
  pack := Sum.elim KartCmd.pack cls.pack
  unpack
    | .inl c => c.unpackReads.map .inl
    | .inr o => (cls.unpack o).map .inr

theorem MemInputArchive.runReads_map {α γ : Type} (f : α → γ) (p : Prog layout α)
    (a : MemInputArchive) : runReads (p.map f) a = (runReads p a).map f id := by
  induction p generalizing a with
  | done x => rfl
  | read t next ih =>
      rw [Prog.map, runReads, runReads]
      exact ih _ _

theorem ReadClass.withKart_toCmdClass {O : Type} (cls : ReadClass O) :
    cls.withKart.toCmdClass = cls.toCmdClass.withKart := by
  have hunpack : cls.withKart.toCmdClass.unpack = cls.toCmdClass.withKart.unpack := by
    funext o a
    cases o with
    | inl c =>
        show MemInputArchive.runReads (c.unpackReads.map Sum.inl) a = (c.unpack a).map Sum.inl id
        rw [MemInputArchive.runReads_map, KartCmd.unpack_eq]
    | inr o => exact MemInputArchive.runReads_map _ _ _
  unfold toCmdClass CmdClass.withKart at *
  dsimp only at hunpack ⊢
  rw [hunpack]
  rfl

/-! ### One dispatch -/

/-- The bytes of the header behind the size: the id, and what lies behind the header. -/
def header (a : MemInputArchive) : Option (UInt8 × List UInt8) :=
  match a.rest with
  | _ :: id :: payload => some (id, payload)
  | _ => none

namespace CmdDispatcher

variable {O F : Type}

/-- The entry that the header at the position selects, and the bytes behind the header. -/
def addressed (d : CmdDispatcher O F) (a : MemInputArchive) : Option (Entry O F × List UInt8) :=
  (header a).bind fun h => (d.entries.lookup h.1).map fun entry => (entry, h.2)

theorem read_uint8 {a : MemInputArchive} {b : UInt8} {s : List UInt8} (h : a.rest = b :: s) :
    a.read .uint8 = (some b, { a with pos := a.pos + 1 }) ∧
      MemInputArchive.rest { a with pos := a.pos + 1 } = s :=
  MemInputArchive.read_rest (t := .uint8) (v := b) (by rw [h, IntType.bytes_uint8]; rfl)

theorem read_uint8_empty {a : MemInputArchive} (h : a.rest = []) : a.read .uint8 = (none, a) :=
  MemInputArchive.read_short (by rw [h]; exact Nat.one_pos)

/-- With a header whose id is registered, the object is constructed, unpacked and executed. -/
theorem dispatch_some (cls : CmdClass O) (m : Memory) {d : CmdDispatcher O F}
    {a : MemInputArchive} {entry : Entry O F} {payload : List UInt8}
    (h : d.addressed a = some (entry, payload)) :
    MemInputArchive.rest { a with pos := a.pos + 2 } = payload ∧
      d.dispatchFromArchive cls m a =
        ⟨false, (cls.unpack (entry.cstorFunc m) { a with pos := a.pos + 2 }).2,
          some (entry.execFunc,
            (cls.unpack (entry.cstorFunc m) { a with pos := a.pos + 2 }).1)⟩ := by
  unfold addressed header at h
  cases hrest : a.rest with
  | nil => rw [hrest] at h; cases h
  | cons size more =>
      cases more with
      | nil => rw [hrest] at h; cases h
      | cons id payload' =>
          rw [hrest, Option.bind_some, Option.map_eq_some_iff] at h
          obtain ⟨entry', hlookup, hpair⟩ := h
          obtain ⟨rfl, rfl⟩ := Prod.mk.inj hpair
          obtain ⟨hsize, hrest⟩ := read_uint8 hrest
          obtain ⟨hid, hrest⟩ := read_uint8 hrest
          refine ⟨hrest, ?_⟩
          simp only [dispatchFromArchive, hsize, hid, hlookup]

/-- Without one, nothing is executed and at most the header is read. -/
theorem dispatch_none (cls : CmdClass O) (m : Memory) {d : CmdDispatcher O F}
    {a : MemInputArchive} (h : d.addressed a = none) :
    d.dispatchFromArchive cls m a =
      ⟨false, { a with pos := a.pos + min 2 a.rest.length }, none⟩ := by
  unfold addressed header at h
  cases hrest : a.rest with
  | nil =>
      simp only [dispatchFromArchive, read_uint8_empty hrest]
      rfl
  | cons size more =>
      obtain ⟨hsize, hmore⟩ := read_uint8 hrest
      cases more with
      | nil =>
          simp only [dispatchFromArchive, hsize, read_uint8_empty hmore]
          rfl
      | cons id payload =>
          rw [hrest, Option.bind_some, Option.map_eq_none_iff] at h
          obtain ⟨hid, -⟩ := read_uint8 hmore
          have hlen : min 2 (size :: id :: payload).length = 2 := by
            simp only [List.length_cons]
            omega
          simp only [dispatchFromArchive, hsize, hid, h, hlen]

/-! ### The result -/

/-- The result tells whether exactly one exec function was called. -/
structure Truthful (r : Dispatch O F) : Prop where
  iff_one : r.result = true ↔ r.called.toList.length = 1
  none : r.called = none → r.result = false

/-- **The result is right exactly where the header is missing or its id is not registered.** -/
theorem truthful_iff (calls : List (UInt8 × Entry O F)) (cls : CmdClass O) (m : Memory)
    (a : MemInputArchive) :
    Truthful ((registerAll calls).dispatchFromArchive cls m a) ↔
      (registerAll calls).addressed a = none := by
  cases haddr : (registerAll calls).addressed a with
  | none =>
      rw [dispatch_none cls m haddr]
      have hnone : ¬ (none : Option (F × O)).toList.length = 1 := Nat.zero_ne_one
      exact iff_of_true ⟨iff_of_false Bool.false_ne_true hnone, fun _ => rfl⟩ rfl
  | some addr =>
      obtain ⟨entry, payload⟩ := addr
      rw [(dispatch_some cls m haddr).2]
      refine iff_of_false ?_ (fun h => by cases h)
      intro h
      exact absurd (h.iff_one.mpr rfl) Bool.false_ne_true

/-- A registered `CmdNone` is executed, and the result says that nothing was. -/
theorem executed_not_truthful :
    ¬ Truthful ((registerAll [(KartCmd.cmdNone, Entry.mk KartCmd.newNone ())]).dispatchFromArchive
      ⟨KartCmd.getId, KartCmd.pack, KartCmd.unpack⟩ (fun _ => 0) ⟨[2, 0], 0⟩) := by
  intro h
  exact absurd (h.iff_one.mpr (by decide)) (by decide)

/-! ### The fields -/

section Fields

variable {O : Type}

/-- What `unpack` reads for the entry that a header selects. -/
def unpackProg (cls : ReadClass O) (m : Memory) (entry : Entry (KartCmd ⊕ O) F) :
    Prog layout (KartCmd ⊕ O) :=
  cls.withKart.unpack (entry.cstorFunc m)

/-- Nothing is executed but with fields that were all read from the archive. -/
structure DecodedOnly (cls : ReadClass O) (m : Memory) (d : CmdDispatcher (KartCmd ⊕ O) F)
    (a : MemInputArchive) : Prop where
  /-- An exec function is called only behind a header with a registered id, and after reads that
  have all succeeded. -/
  executed : ∀ f o, (d.dispatchFromArchive cls.toCmdClass.withKart m a).called = some (f, o) →
    ∃ entry payload, d.addressed a = some (entry, payload) ∧
      ∀ ok ∈ MemInputArchive.readResults (unpackProg cls m entry) { a with pos := a.pos + 2 },
        ok = true
  /-- A buffer that ends inside the fields executes nothing and reports failure. -/
  truncated : ∀ entry payload, d.addressed a = some (entry, payload) →
    false ∈ MemInputArchive.readResults (unpackProg cls m entry) { a with pos := a.pos + 2 } →
      (d.dispatchFromArchive cls.toCmdClass.withKart m a).called = none ∧
        (d.dispatchFromArchive cls.toCmdClass.withKart m a).result = false
  /-- The speeds that an exec function sees are those behind the header. -/
  speeds : ∀ f l r,
    (d.dispatchFromArchive cls.toCmdClass.withKart m a).called =
        some (f, .inl (.motorSetSpeed l r)) →
      ∃ entry more, d.addressed a =
        some (entry, IntType.bytes .int16 l ++ IntType.bytes .int16 r ++ more)

/-- The fields of the command that the header selects lie within the buffer. -/
def FieldsFit (cls : ReadClass O) (m : Memory) (d : CmdDispatcher (KartCmd ⊕ O) F)
    (a : MemInputArchive) : Prop :=
  ∀ entry payload, d.addressed a = some (entry, payload) → (unpackProg cls m entry).Fits payload

theorem bytes_ofBits_int16 {s : List UInt8} (h : s.length = 2) :
    IntType.bytes .int16 (IntType.ofBits .int16 (leValue s)) = s := by
  have hlt := leValue_lt s
  rw [h] at hlt
  have hbits : IntType.bits .int16 (IntType.ofBits .int16 (leValue s)) = leValue s := by
    simp only [IntType.bits, IntType.ofBits]
    rw [Int16.toUInt16, UInt16.toInt16]
    exact UInt16.toNat_ofNat_of_lt' (by simpa using hlt)
  rw [IntType.bytes, hbits, IntType.size, ← h, leBytes_leValue]

/-- For a `CmdMotorSetSpeed` the fields are the four bytes behind the header. -/
theorem motorSetSpeed_fits (l r : Int16) (s : List UInt8) :
    (KartCmd.motorSetSpeed l r).unpackReads.Fits s ↔ 4 ≤ s.length := by
  simp only [KartCmd.unpackReads, Prog.Fits, IntType.size, List.length_drop, and_true]
  omega

/-- Its object then holds the integers that lie there. -/
theorem motorSetSpeed_value {l r l' r' : Int16} {s : List UInt8} (hlen : 4 ≤ s.length)
    (h : (KartCmd.motorSetSpeed l r).unpackReads.value s = .motorSetSpeed l' r') :
    s = IntType.bytes .int16 l' ++ IntType.bytes .int16 r' ++ s.drop 4 := by
  have hfirst : ¬ s.length < layout.size .int16 := by
    show ¬ s.length < 2
    omega
  have hsecond : ¬ (s.drop (layout.size .int16)).length < layout.size .int16 := by
    show ¬ (s.drop 2).length < 2
    rw [List.length_drop]
    omega
  rw [KartCmd.unpackReads, Prog.value, if_neg hfirst, Prog.value, if_neg hsecond, Prog.value] at h
  obtain ⟨hl, hr⟩ := KartCmd.motorSetSpeed.inj h
  have hl : IntType.ofBits .int16 (leValue (s.take 2)) = l' := hl
  have hr : IntType.ofBits .int16 (leValue ((s.drop 2).take 2)) = r' := hr
  have htake : (s.take 2).length = 2 := by
    rw [List.length_take]
    omega
  have htake' : ((s.drop 2).take 2).length = 2 := by
    rw [List.length_take, List.length_drop]
    omega
  rw [← hl, ← hr, bytes_ofBits_int16 htake, bytes_ofBits_int16 htake', List.append_assoc,
    show s.drop 4 = (s.drop 2).drop 2 by rw [List.drop_drop], List.take_append_drop,
    List.take_append_drop]

/-- A dispatch of a selected entry calls it with the value of its program. -/
theorem dispatch_called (cls : ReadClass O) (m : Memory) {d : CmdDispatcher (KartCmd ⊕ O) F}
    {a : MemInputArchive} {entry : Entry (KartCmd ⊕ O) F} {payload : List UInt8}
    (h : d.addressed a = some (entry, payload)) :
    (d.dispatchFromArchive cls.toCmdClass.withKart m a).called =
      some (entry.execFunc, (unpackProg cls m entry).value payload) := by
  obtain ⟨hrest, hdispatch⟩ := dispatch_some cls.toCmdClass.withKart m h
  rw [hdispatch, ← cls.withKart_toCmdClass]
  show some (entry.execFunc, (MemInputArchive.runReads (unpackProg cls m entry) _).1) = _
  rw [MemInputArchive.runReads_eq, hrest]

/-- No read of the selected entry's program fails exactly if its fields fit. -/
theorem readResults_iff (cls : ReadClass O) (m : Memory) {d : CmdDispatcher (KartCmd ⊕ O) F}
    {a : MemInputArchive} {entry : Entry (KartCmd ⊕ O) F} {payload : List UInt8}
    (h : d.addressed a = some (entry, payload)) :
    (∀ ok ∈ MemInputArchive.readResults (unpackProg cls m entry) { a with pos := a.pos + 2 },
      ok = true) ↔ (unpackProg cls m entry).Fits payload := by
  rw [MemInputArchive.readResults_eq, (dispatch_some cls.toCmdClass.withKart m h).1]
  exact Prog.all_results_iff _ _

/-- What is executed was selected, and is what its program made of the bytes behind the header. -/
theorem called_inv {cls : ReadClass O} {m : Memory} {d : CmdDispatcher (KartCmd ⊕ O) F}
    {a : MemInputArchive} {f : F} {o : KartCmd ⊕ O}
    (h : (d.dispatchFromArchive cls.toCmdClass.withKart m a).called = some (f, o)) :
    ∃ entry payload, d.addressed a = some (entry, payload) ∧
      (unpackProg cls m entry).value payload = o := by
  cases haddr : d.addressed a with
  | none =>
      rw [dispatch_none _ m haddr] at h
      cases h
  | some addr =>
      rw [dispatch_called cls m haddr] at h
      exact ⟨addr.1, addr.2, rfl, (Prod.mk.inj (Option.some.inj h)).2⟩

/-- Where the fields fit, an object of `CmdMotorSetSpeed` holds the speeds behind the header: only
an object of the class itself unpacks to one. -/
theorem unpack_motorSetSpeed {cls : ReadClass O} {m : Memory} {entry : Entry (KartCmd ⊕ O) F}
    {payload : List UInt8} {l r : Int16} (hfits : (unpackProg cls m entry).Fits payload)
    (hvalue : (unpackProg cls m entry).value payload = .inl (.motorSetSpeed l r)) :
    payload = IntType.bytes .int16 l ++ IntType.bytes .int16 r ++ payload.drop 4 := by
  unfold unpackProg at hfits hvalue
  cases hobject : entry.cstorFunc m with
  | inr o =>
      rw [hobject] at hvalue
      cases (Prog.value_map Sum.inr (cls.unpack o) payload).symm.trans hvalue
  | inl c =>
      rw [hobject] at hvalue hfits
      have hvalue := (Prog.value_map Sum.inl c.unpackReads payload).symm.trans hvalue
      have hfits := (Prog.fits_map Sum.inl c.unpackReads payload).mp hfits
      cases c with
      | none => cases Sum.inl.inj hvalue
      | motorSetSpeed l0 r0 =>
          exact motorSetSpeed_value ((motorSetSpeed_fits l0 r0 payload).mp hfits)
            (Sum.inl.inj hvalue)

/-- **A dispatch executes only what was decoded exactly where the fields of the selected command
lie within the buffer.** -/
theorem decodedOnly_iff (cls : ReadClass O) (m : Memory) (d : CmdDispatcher (KartCmd ⊕ O) F)
    (a : MemInputArchive) : DecodedOnly cls m d a ↔ FieldsFit cls m d a := by
  constructor
  · intro h entry payload haddr
    obtain ⟨entry', payload', haddr', hall⟩ := h.executed _ _ (dispatch_called cls m haddr)
    obtain ⟨rfl, rfl⟩ := Prod.mk.inj (Option.some.inj (haddr.symm.trans haddr'))
    exact (readResults_iff cls m haddr).mp hall
  · intro h
    refine ⟨?_, ?_, ?_⟩
    · intro f o hcalled
      obtain ⟨entry, payload, haddr, -⟩ := called_inv hcalled
      exact ⟨entry, payload, haddr, (readResults_iff cls m haddr).mpr (h _ _ haddr)⟩
    · intro entry payload haddr hfalse
      exact absurd ((readResults_iff cls m haddr).mpr (h _ _ haddr) false hfalse)
        Bool.false_ne_true
    · intro f l r hcalled
      obtain ⟨entry, payload, haddr, hvalue⟩ := called_inv hcalled
      refine ⟨entry, payload.drop 4, ?_⟩
      rw [← unpack_motorSetSpeed (h entry payload haddr) hvalue]
      exact haddr

/-- A program that derives no further classes. -/
def noClasses : ReadClass Empty where
  getId := Empty.elim
  pack := fun o => o.elim
  unpack := fun o => o.elim

/-- A dispatcher with `CmdMotorSetSpeed` registered by the template. -/
def motorDispatcher : CmdDispatcher (KartCmd ⊕ Empty) Unit :=
  registerAll [(KartCmd.cmdMotorSetSpeed, ⟨fun m => .inl (KartCmd.newMotorSetSpeed m), ()⟩)]

/-- The buffer ends behind the first byte of the left speed, and the command is executed. -/
theorem truncated_executed :
    ¬ DecodedOnly noClasses (fun _ => 7) motorDispatcher ⟨[6, 1, 100], 0⟩ := by
  intro h
  have hnone := (h.truncated ⟨fun m => .inl (KartCmd.newMotorSetSpeed m), ()⟩ [100] rfl
    (by decide)).1
  exact absurd (congrArg Option.isSome hnone) (by decide)

end Fields

end CmdDispatcher

end MKart.ClientQt
