import MKart.ClientQt.Commands

/-!
# The command channel

From `RemoteService::send_cmd` through one archive to `CmdDispatcher::dispatch_from_archive`.
The dispatcher finds an id's first registration whatever else was registered; the frame is read
back only if that registration constructs objects of the class that packed it, which
`register_command<CMD>` ensures and its other overload leaves to the caller.
-/

namespace MKart.ClientQt.CommandChannel

variable {O F : Type}

/-- The entry that was first registered for the id of a command. -/
def entryOf (eNone eMotor : Entry (KartCmd ⊕ O) F) : KartCmd → Entry (KartCmd ⊕ O) F
  | .none => eNone
  | .motorSetSpeed _ _ => eMotor

/-- Dispatching the frames of `cmds` calls, for each command in order, the exec function of its
entry once and with an equal object, calls nothing else, and leaves the archive at its end. -/
def RoundTrip (cls : CmdClass O) (calls : List (UInt8 × Entry (KartCmd ⊕ O) F))
    (eNone eMotor : Entry (KartCmd ⊕ O) F) (m : ℕ → Memory) (out : MemOutputArchive)
    (cmds : List KartCmd) : Prop :=
  let buff := frames cls.withKart out (cmds.map .inl)
  (CmdDispatcher.registerAll calls).dispatchAll cls.withKart m cmds.length ⟨buff, 0⟩ =
    (cmds.map fun cmd => ((entryOf eNone eMotor cmd).execFunc, .inl cmd), ⟨buff, buff.length⟩)

/-- Dispatching the frames at the position of an archive. -/
theorem dispatchAll_frames (cls : CmdClass O) {d : CmdDispatcher (KartCmd ⊕ O) F}
    {eNone eMotor : Entry (KartCmd ⊕ O) F}
    (hentry : ∀ cmd : KartCmd, d.entries.lookup cmd.getId = some (entryOf eNone eMotor cmd))
    (hmakes : ∀ cmd : KartCmd, Makes cmd.getId (entryOf eNone eMotor cmd)) (m : ℕ → Memory)
    (out : MemOutputArchive) (cmds : List KartCmd) (archive : MemInputArchive) {r : List UInt8}
    (h : archive.rest = frames cls.withKart out (cmds.map .inl) ++ r) :
    d.dispatchAll cls.withKart m cmds.length archive =
      (cmds.map fun cmd => ((entryOf eNone eMotor cmd).execFunc, .inl cmd),
        ⟨archive.buff, archive.pos + (frames cls.withKart out (cmds.map .inl)).length⟩) := by
  induction cmds generalizing out archive with
  | nil => rfl
  | cons cmd cmds ih =>
      rw [List.map_cons, frames, List.append_assoc] at h
      obtain ⟨hdispatch, hrest⟩ :=
        dispatch_packCmd cls (hentry cmd) (hmakes cmd) (m cmds.length) out h
      rw [List.length_cons, CmdDispatcher.dispatchAll, hdispatch]
      dsimp only
      rw [ih _ _ hrest, List.map_cons, List.map_cons, frames, List.length_append, Nat.add_assoc]
      rfl

/-- **The command channel round trip**, for every dispatcher on which the first registrations of
the two ids construct the classes of these ids. -/
theorem dispatch_frames (cls : CmdClass O) (calls : List (UInt8 × Entry (KartCmd ⊕ O) F))
    (eNone eMotor : Entry (KartCmd ⊕ O) F)
    (hnone : calls.lookup KartCmd.cmdNone = some eNone)
    (hmotor : calls.lookup KartCmd.cmdMotorSetSpeed = some eMotor)
    (hmakesNone : Makes KartCmd.cmdNone eNone)
    (hmakesMotor : Makes KartCmd.cmdMotorSetSpeed eMotor) (m : ℕ → Memory)
    (out : MemOutputArchive) (cmds : List KartCmd) :
    RoundTrip cls calls eNone eMotor m out cmds := by
  have hentry (cmd : KartCmd) : (CmdDispatcher.registerAll calls).entries.lookup cmd.getId =
      some (entryOf eNone eMotor cmd) := by
    rw [CmdDispatcher.lookup_registerAll]
    cases cmd with
    | none => exact hnone
    | motorSetSpeed l r => exact hmotor
  have hmakes (cmd : KartCmd) : Makes cmd.getId (entryOf eNone eMotor cmd) := by
    cases cmd with
    | none => exact hmakesNone
    | motorSetSpeed l r => exact hmakesMotor
  have hall := dispatchAll_frames cls hentry hmakes m out cmds
    ⟨frames cls.withKart out (cmds.map .inl), 0⟩ (List.append_nil _).symm
  rw [Nat.zero_add] at hall
  exact hall

/-- A program with no further classes. -/
def noFurther : CmdClass Empty where
  getId := fun c => c.elim
  pack := fun c => c.elim
  unpack := fun c => c.elim

/-- The entry `register_command<CmdNone>` makes for the exec function `f`. -/
def noneEntry (f : ℕ) : Entry (KartCmd ⊕ Empty) ℕ := ⟨fun m => .inl (KartCmd.newNone m), f⟩

/-- The entry `register_command<CmdMotorSetSpeed>` makes for the exec function `f`. -/
def motorEntry (f : ℕ) : Entry (KartCmd ⊕ Empty) ℕ :=
  ⟨fun m => .inl (KartCmd.newMotorSetSpeed m), f⟩

/-- The template registrations, the first of them twice, and two commands. -/
theorem dispatch_frames_two :
    RoundTrip noFurther
      [(KartCmd.cmdMotorSetSpeed, motorEntry 7), (KartCmd.cmdNone, noneEntry 8),
        (KartCmd.cmdMotorSetSpeed, motorEntry 9)]
      (noneEntry 8) (motorEntry 7) (fun _ _ => 0xCD) ⟨[1, 2, 3]⟩
      [.motorSetSpeed (-1024) 300, .none] :=
  dispatch_frames noFurther _ (noneEntry 8) (motorEntry 7) rfl rfl
    (fun _ => ⟨.none, rfl, rfl⟩) (fun _ => ⟨_, rfl, rfl⟩) _ _ _

/-- Both ids are registered, the second with a constructor of `CmdNone`: the exec function gets
that object, and the archive is left in the middle of the frame. -/
theorem dispatch_other_class :
    let calls := [(KartCmd.cmdNone, noneEntry 8), (KartCmd.cmdMotorSetSpeed, noneEntry 7)]
    calls.lookup KartCmd.cmdNone = some (noneEntry 8) ∧
      calls.lookup KartCmd.cmdMotorSetSpeed = some (noneEntry 7) ∧
      ¬ RoundTrip noFurther calls (noneEntry 8) (noneEntry 7) (fun _ _ => 0) ⟨[]⟩
        [.motorSetSpeed 1 2] := by
  refine ⟨rfl, rfl, ?_⟩
  intro h
  have hpos := congrArg (fun r => r.2.pos) h
  exact absurd hpos (by decide)

end MKart.ClientQt.CommandChannel
