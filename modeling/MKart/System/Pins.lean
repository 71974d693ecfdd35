import MKart.Server.Pigpio
import MKart.System.CaptureFlag
import MKart.System.Readings

/-!
# Setting pins and reading them back

The Unity client sets pins and reads the bank back, by commands that the server executes as they
arrive.  What it learns of a pin from a reading is what its own commands have made of it: the
`k`-th reading that is raised on a connection answers the `k`-th request sent on it, and of every
pin that the commands before this request have made an output and set it shows the level that they
have set (`reading_shows`).  Clients come and go, other clients and the outside change pins in
between, and the scripts of another client may do to the pins what they like while they are served.

What the library of the pins does is assumed as documented (`Documented`).
-/

namespace MKart.System.Pins

open MKart.Runs MKart.Server
open MKart.ClientUnity.EndToEnd (ServerFrame)
open MKart.Server.Replies (nextCall)
open MKart.System.CaptureFlag (deliver callsLeft)

variable {P : Type}

/-! ### What a client knows of a pin -/

/-- A pin as the commands of a client have left it. -/
inductive Drive
  /-- Not known to be an output. -/
  | unknown
  | output
  | level (high : Bool)
  deriving DecidableEq, Repr

/-- What a command makes of pin `n`. -/
def drive (n : ℕ) (d : Drive) : Command → Drive
  | .gpioSetModeIn gpioNum => if gpioNum.toNat = n then .unknown else d
  | .gpioSetModeOut gpioNum => if gpioNum.toNat = n ∧ d = .unknown then .output else d
  | .gpioSet_0_31_Low bitMask =>
      if bitMask.toNat.testBit n = true ∧ d ≠ .unknown then .level false else d
  | .gpioSet_0_31_High bitMask =>
      if bitMask.toNat.testBit n = true ∧ d ≠ .unknown then .level true else d
  | _ => d

def driven (cmds : List Command) (n : ℕ) : Drive := cmds.foldl (drive n) .unknown

/-- The pin is as the client believes. -/
def Holds (v : Levels P) (n : ℕ) (p : P) : Drive → Prop
  | .unknown => True
  | .output => v.isOutput p n
  | .level high => v.isOutput p n ∧ v.level p n = high

theorem driven_concat (cmds : List Command) (c : Command) (n : ℕ) :
    driven (cmds ++ [c]) n = drive n (driven cmds n) c := List.foldl_concat ..

variable {g : Pigpio P} {v : Levels P}

theorem Holds.keeps {n : ℕ} {p q : P} {d : Drive} (h : Holds v n p d) (hkeeps : v.Keeps n p q) :
    Holds v n q d := by
  cases d with
  | unknown => trivial
  | output => exact (hkeeps h).1
  | level high =>
      obtain ⟨hout, hlevel⟩ := hkeeps h.1
      exact ⟨hout, hlevel.trans h.2⟩

theorem Holds.isOutput {n : ℕ} {p : P} {d : Drive} (h : Holds v n p d) (hd : d ≠ .unknown) :
    v.isOutput p n := by
  cases d with
  | unknown => exact absurd rfl hd
  | output => exact h
  | level high => exact h.1

/-- A write that leaves out the pin, or of which the client knows nothing. -/
theorem Holds.write {n : ℕ} {p q : P} {d : Drive} {bit : Bool} {f : Bool → Bool → Bool}
    (h : Holds v n p d) (hfalse : ∀ b, f b false = b)
    (hwrite : v.isOutput p n → v.isOutput q n ∧ v.level q n = f (v.level p n) bit)
    (hskip : ¬ (bit = true ∧ d ≠ .unknown)) : Holds v n q d := by
  by_cases hd : d = .unknown
  · rw [hd]
    trivial
  · have hbit : bit = false := eq_false_of_ne_true fun hbit => hskip ⟨hbit, hd⟩
    apply h.keeps
    intro hout
    obtain ⟨hout', hlevel⟩ := hwrite hout
    exact ⟨hout', by rw [hlevel, hbit, hfalse]⟩

/-- **A command does to a pin what the client believes.** -/
theorem Holds.call (hdoc : Documented g v) {n : ℕ} (hn : n < 32) {p : P} {d : Drive}
    (h : Holds v n p d) (c : Command) : Holds v n (g.call c.call p) (drive n d c) := by
  cases c with
  | setCapturing _ | exit | gpioGet_0_31 => exact h
  | gpioSetModeIn gpioNum =>
      simp only [drive]
      split
      · trivial
      · rename_i hne
        refine h.keeps (hdoc.mode p n gpioNum.toNat .input (Or.inl fun heq => hne ?_))
        exact_mod_cast heq
  | gpioSetModeOut gpioNum =>
      simp only [drive]
      split
      · rename_i hfirst
        show v.isOutput (g.setMode gpioNum.toNat .output p) n
        rw [hfirst.1]
        exact hdoc.output p n hn
      · exact h.keeps (hdoc.mode p n gpioNum.toNat .output (Or.inr rfl))
  | gpioSet_0_31_Low bitMask =>
      simp only [drive]
      split
      · rename_i hbit
        obtain ⟨hout, hlevel⟩ := hdoc.clear p n bitMask hn (h.isOutput hbit.2)
        refine ⟨hout, ?_⟩
        show v.level (g.writeBits_0_31_Clear bitMask p) n = false
        rw [hlevel, hbit.1, Bool.not_true, Bool.and_false]
      · rename_i hskip
        exact h.write (f := fun b bit => b && !bit) Bool.and_true (hdoc.clear p n bitMask hn) hskip
  | gpioSet_0_31_High bitMask =>
      simp only [drive]
      split
      · rename_i hbit
        obtain ⟨hout, hlevel⟩ := hdoc.set p n bitMask hn (h.isOutput hbit.2)
        refine ⟨hout, ?_⟩
        show v.level (g.writeBits_0_31_Set bitMask p) n = true
        rw [hlevel, hbit.1, Bool.or_true]
      · rename_i hskip
        exact h.write (f := fun b bit => b || bit) Bool.or_false (hdoc.set p n bitMask hn) hskip

/-! ### Requests and readings -/

/-- The requests among the commands that follow `before`, each as the commands in front of it. -/
def requests (before : List Command) : List Command → List (List Command)
  | [] => []
  | c :: cmds =>
      (if c = .gpioGet_0_31 then [before] else []) ++ requests (before ++ [c]) cmds

theorem requests_append (before cmds more : List Command) :
    requests before (cmds ++ more) =
      requests before cmds ++ requests (before ++ cmds) more := by
  induction cmds generalizing before with
  | nil => rw [List.append_nil]; rfl
  | cons c cmds ih =>
      rw [List.cons_append, requests, ih, requests, List.append_assoc, List.append_assoc]
      rfl

/-- The bank and the values in a message. -/
def reading : ServerFrame → Option (UInt32 × UInt32)
  | .gpio bank values => some (bank, values)
  | _ => none

def readings (fs : List ServerFrame) : List (UInt32 × UInt32) := fs.filterMap reading

/-- A reading of the first bank that shows what the commands in front of its request have set. -/
def Shows (before : List Command) (r : UInt32 × UInt32) : Prop :=
  r.1 = 1 ∧ ∀ n < 32, ∀ high, driven before n = .level high → r.2.toNat.testBit n = high

/-- The readings answer the first requests, one each and in their order. -/
def Answers (cmds : List Command) (rs : List (UInt32 × UInt32)) : Prop :=
  List.Forall₂ Shows (requests [] cmds) rs

/-! ### The machine -/

/-- Client, server and pins.  `sent` are the commands that the client has sent on its latest
connection, `inFlight` those that the server has not received. -/
structure Session (P : Type) where
  inner : Readings.Session
  pins : P
  sent : List Command
  inFlight : List Command

inductive Input
  | connect (ok : Bool)
  | disconnect
  | close
  | recieve (n : ℕ)
  | arrive (n : ℕ)
  | command (c : Command)
  | outside (levels : ℕ → Bool)
  /-- A step of the server, in which a receive from the client finds the first `arrived` commands
  in flight. -/
  | server (e : Env) (mine : Bool) (arrived : ℕ)

/-- The server has the client's connection. -/
def Serves (l : Line) : Prop := l.conn = .accepted l.server.sockPeer

instance (l : Line) : Decidable (Serves l) := inferInstanceAs (Decidable (_ = _))

namespace Session

def start (p : P) (d : Device) (now later : ℤ) : Session P where
  inner := .start true d now later
  pins := p
  sent := []
  inFlight := []

/-- The number of commands that a step receives. -/
def receives (s : Session P) (arrived : ℕ) : ℕ :=
  if Serves s.inner.line ∧ s.inner.line.server.phase = .receive then arrived else 0

/-- The environment of a step: the commands that arrive, and the pins. -/
def env (g : Pigpio P) (s : Session P) (e : Env) (arrived : ℕ) : Env :=
  { (if Serves s.inner.line then deliver (s.inFlight.take (s.receives arrived)) e else e) with
    gpioRead := g.read s.inner.line.server s.pins }

/-- The pins after a step. -/
def pinsAfter (g : Pigpio P) (s : Session P) : P :=
  match nextCall s.inner.line.server with
  | some c => g.call c s.pins
  | none => s.pins

def connect (s : Session P) (ok : Bool) : Session P :=
  if ok then { s with inner := s.inner.connect true, sent := [], inFlight := [] }
  else { s with inner := s.inner.connect false }

/-- `RemoteCommand`, which sends nothing if the client is not connected. -/
def command (s : Session P) (c : Command) : Session P :=
  if (c.remote s.inner.client).1 then
    { s with sent := s.sent ++ [c], inFlight := s.inFlight ++ [c] }
  else s

def step (g : Pigpio P) (s : Session P) : Input → Session P
  | .connect ok => s.connect ok
  | .disconnect => { s with inner := s.inner.step .disconnect }
  | .close => { s with inner := s.inner.step .close }
  | .recieve n => { s with inner := s.inner.step (.recieve n) }
  | .arrive n => { s with inner := s.inner.step (.arrive n) }
  | .command c => s.command c
  | .outside levels => { s with pins := g.outside levels s.pins }
  | .server e mine arrived =>
      { s with
        inner := s.inner.step (.server (s.env g e arrived) mine)
        pins := s.pinsAfter g
        inFlight := s.inFlight.drop (s.receives arrived) }

end Session

/-- The condition on a step is that on what the client and the network do in it. -/
def InPlace (g : Pigpio P) (s : Session P) : Input → Prop
  | .connect ok => Readings.InPlace s.inner (.connect ok)
  | .server e mine arrived => Readings.InPlace s.inner (.server (s.env g e arrived) mine)
  | _ => True

instance (g : Pigpio P) (s : Session P) : (i : Input) → Decidable (InPlace g s i)
  | .connect ok => inferInstanceAs (Decidable (Readings.InPlace s.inner (.connect ok)))
  | .server e mine arrived =>
      inferInstanceAs (Decidable (Readings.InPlace s.inner (.server (s.env g e arrived) mine)))
  | .disconnect | .close | .recieve _ | .arrive _ | .command _ | .outside _ =>
      inferInstanceAs (Decidable True)

/-! ### The invariant -/

/-- The commands split in those that have been executed, those received, and those in flight. -/
structure Serving (v : Levels P) (s : Session P) (executed received : List Command) : Prop where
  sent : s.sent = executed ++ received ++ s.inFlight
  left : callsLeft s.inner.line.server.phase = received.map Command.call
  answers : Answers executed (readings s.inner.line.messages)
  holds : ∀ n < 32, Holds v n s.pins (driven executed n)

structure Inv (v : Levels P) (s : Session P) : Prop where
  inner : Readings.Inv s.inner
  replies : Replies.Inv s.inner.line.server
  ready : s.inner.line.server.gpioReady = true
  opened : ∀ sock, s.inner.line.conn = .accepted sock → sock ∈ s.inner.line.server.opened
  waiting : s.inner.line.conn = .waiting → s.inFlight = s.sent
  answered : ∃ executed rest, s.sent = executed ++ rest ∧
    Answers executed (readings s.inner.line.messages)
  serving : Serves s.inner.line → ∃ executed received, Serving v s executed received

theorem inv_start (v : Levels P) (p : P) (d : Device) (now later : ℤ) :
    Inv v (Session.start p d now later) where
  inner := Readings.inv_start true d now later
  replies := Replies.inv_startup true d now later
  ready := rfl
  opened := fun _ h => by cases h
  waiting := fun _ => rfl
  answered := ⟨[], [], rfl, List.Forall₂.nil⟩
  serving := fun h => by cases h

/-! ### What a step of the server does -/

section Server

variable {s : RpiServer} {e : Env}

/-- A step makes a reading of the bank that its call asks for. -/
theorem made_reading (hready : s.gpioReady = true) :
    (made s e).bind reading = ((nextCall s).bind Replies.bank).map (·, e.gpioRead) := by
  cases hp : s.phase with
  | script k rest =>
      cases rest with
      | nil => simp only [made, nextCall, hp]; rfl
      | cons c rest =>
          cases c with
          | gpioGet_0_31 | gpioGet_32_53 =>
              simp only [made, nextCall, hp, hready]
              rfl
          | _ => simp only [made, nextCall, hp]; rfl
  | keepalive =>
      simp only [made, nextCall, hp]
      split <;> rfl
  | video =>
      have hnone : nextCall s = none := by simp only [nextCall, hp]
      rw [hnone]
      simp only [made, hp]
      split
      · cases (s.v4l2.grab e.device).2 with
        | none => rfl
        | some bytesused =>
            simp only [Option.map_some, Option.filter]
            split <;> rfl
      · rfl
  | poll | receive | ret | stopped | hung | crashed => simp only [made, nextCall, hp]; rfl

theorem callsLeft_of_nextCall {c : ScriptCall} (h : nextCall s = some c) :
    ∃ rest, callsLeft s.phase = c :: rest := by
  unfold nextCall at h
  split at h
  · rename_i k c' rest hp
    obtain rfl := Option.some.inj h
    exact ⟨rest, by rw [hp]; rfl⟩
  · cases h

/-- Outside of a receive a step makes the next of the calls that are left. -/
theorem callsLeft_step (hp : s.phase ≠ .receive)
    (hreg : ∀ c, nextCall s = some c → c.registered s.gpioReady = true) :
    callsLeft s.phase = (nextCall s).toList ++ callsLeft (s.step e).phase := by
  cases hphase : s.phase with
  | receive => exact absurd hphase hp
  | poll =>
      have hnone : nextCall s = none := by simp only [nextCall, hphase]
      rw [hnone]
      simp only [RpiServer.step, hphase]
      split
      · rename_i i ok haccept
        rcases s.completeAccept_phase i ok e.now with hsame | hcrash
        · rw [hsame, hphase]
          rfl
        · rw [hcrash]
          rfl
      · split <;> rfl
  | script k rest =>
      cases rest with
      | nil =>
          simp only [nextCall, RpiServer.step, hphase]
          rfl
      | cons c rest =>
          have hcall : nextCall s = some c := by simp only [nextCall, hphase]
          rw [hcall]
          simp only [RpiServer.step, hphase]
          rcases RpiServer.call_phase k c e { s with phase := .script k rest } with
            ⟨-, hsame⟩ | ⟨hfails, -⟩
          · rw [hsame]
            rfl
          · exact absurd ((hreg c hcall).symm.trans hfails) (by decide)
  | keepalive =>
      simp only [nextCall, RpiServer.step, hphase]
      rfl
  | video =>
      have hnone : nextCall s = none := by simp only [nextCall, hphase]
      rw [hnone]
      simp only [RpiServer.step, hphase]
      rcases RpiServer.v4l2Update_phase e { s with phase := .ret } with hsame | hcrash
      · rw [hsame]
        rfl
      · rw [hcrash]
        rfl
  | ret =>
      simp only [nextCall, RpiServer.step, hphase, RpiServer.ret]
      split <;> rfl
  | stopped | hung | crashed =>
      simp only [nextCall, RpiServer.step, hphase]
      rfl

/-- The commands that a receive finds are received, unless the peer is given up. -/
theorem callsLeft_deliver {cmds : List Command} {r : UInt32} (hp : s.phase = .receive)
    (hopen : s.sockPeer ∈ s.opened)
    (hkept : (s.step { deliver cmds e with gpioRead := r }).nextSock = s.nextSock) :
    callsLeft (s.step { deliver cmds e with gpioRead := r }).phase = cmds.map Command.call := by
  have havail : s.available { deliver cmds e with gpioRead := r } = stream cmds := if_pos hopen
  simp only [RpiServer.step, hp] at hkept ⊢
  rcases s.receiveCommands_cases { deliver cmds e with gpioRead := r } with
    ⟨hnothing, h⟩ | ⟨-, ⟨-, h⟩ | ⟨bytes, hall, h⟩⟩
  · rw [havail] at hnothing
    cases cmds with
    | nil =>
        rw [h]
        rfl
    | cons c cmds => simp [stream, Command.text] at hnothing
  · rw [h] at hkept
    exact absurd hkept (Nat.succ_ne_self _)
  · rw [havail] at hall
    obtain rfl : bytes = stream cmds := Scripts.eq_of_receiveAll (by simp [deliver]) hall
    rw [h, scriptText_eq (zero_not_mem_stream cmds)]
    exact if_pos rfl

theorem accepts_opened (h : Server.Video.accepts s e = true) :
    (s.step e).opened = s.sockPeer :: s.opened := by
  unfold Server.Video.accepts at h
  split at h
  · rename_i i hp haccept
    have hpending : s.pending[i]? = some s.sockPeer := eq_of_beq h
    simp [RpiServer.step, hp, haccept, RpiServer.completeAccept, hpending, RpiServer.handleAccept]
  · cases h

theorem nextCall_of_accepts (h : Server.Video.accepts s e = true) : nextCall s = none := by
  unfold Server.Video.accepts at h
  split at h
  · rename_i i hp haccept
    simp only [nextCall, hp]
  · cases h

theorem opened_subset (s : RpiServer) (e : Env) {sock : ℕ} (h : sock ∈ s.opened) :
    sock ∈ (s.step e).opened := by
  rcases s.peer_cases e with ⟨-, -, hopened, -⟩ | ⟨-, -, ⟨hopened, -⟩ | ⟨-, hopened, -⟩⟩ <;>
    rw [hopened]
  · exact h
  · exact h
  · exact List.mem_cons_of_mem _ h

end Server

/-! ### One step -/

/-- A request is answered by what the pins are when it is executed. -/
theorem Answers.execute (hdoc : Documented g v) {s : RpiServer} {p : P} {executed : List Command}
    {rs : List (UInt32 × UInt32)} (h : Answers executed rs)
    (hholds : ∀ n < 32, Holds v n p (driven executed n)) {c : Command}
    (hcall : nextCall s = some c.call) :
    Answers (executed ++ [c]) (rs ++ ((Replies.bank c.call).map (·, g.read s p)).toList) := by
  rw [Answers, requests_append]
  refine List.rel_append h ?_
  cases c with
  | gpioGet_0_31 =>
      have hread : g.read s p = g.readBits_0_31 p := by
        rw [Pigpio.read, hcall]
        rfl
      refine List.Forall₂.cons ⟨rfl, fun n hn high hdriven => ?_⟩ List.Forall₂.nil
      have hlevel := hholds n hn
      rw [List.nil_append] at hdriven
      rw [hdriven] at hlevel
      show (g.read s p).toNat.testBit n = high
      rw [hread, hdoc.read p n hn, hlevel.2]
  | _ => exact List.Forall₂.nil

/-- Commands arrive in a receive only. -/
theorem inFlight_drop {s : Session P} (hp : s.inner.line.server.phase ≠ .receive) (arrived : ℕ) :
    s.inFlight.drop (s.receives arrived) = s.inFlight := by
  rw [Session.receives, if_neg fun hboth => hp hboth.2, List.drop_zero]

section Steps

variable {s : Session P} (h : Inv v s)
include h

theorem readings_serve (e : Env) (mine : Bool) :
    readings (s.inner.line.serve e mine).messages = readings s.inner.line.messages ++
      if Serves s.inner.line then
        (((nextCall s.inner.line.server).bind Replies.bank).map (·, e.gpioRead)).toList
      else [] := by
  show (s.inner.line.messages ++ s.inner.line.added e).filterMap reading = _
  rw [List.filterMap_append]
  show readings s.inner.line.messages ++ List.filterMap reading
    (if Serves s.inner.line then (made s.inner.line.server e).toList else []) = _
  by_cases hserves : Serves s.inner.line
  · rw [if_pos hserves, if_pos hserves, ← made_reading h.ready]
    cases made s.inner.line.server e with
    | none => rfl
    | some f =>
        show _ ++ List.filterMap reading [f] = _ ++ (reading f).toList
        rw [List.filterMap_cons]
        cases reading f with
        | none => rfl
        | some r => rfl
  · rw [if_neg hserves, if_neg hserves]
    rfl

/-- The server has the connection after a step only if it had it before, or accepts it. -/
theorem serves_of_serve {e : Env} {mine : Bool}
    (haccepted : ¬ (Server.Video.accepts s.inner.line.server e = true ∧ mine = true ∧
      s.inner.line.conn = .waiting))
    (hserves : Serves (s.inner.line.serve e mine)) :
    Serves s.inner.line ∧
      (s.inner.line.server.step e).nextSock = s.inner.line.server.nextSock := by
  have hconn : s.inner.line.conn = .accepted (s.inner.line.server.step e).sockPeer :=
    (if_neg haccepted).symm.trans hserves
  rcases s.inner.line.server.peer_cases e with ⟨-, hpeer, -⟩ | ⟨hnext, hpeer, -⟩
  · rw [hpeer] at hconn
    exact absurd (h.replies.numbered.opened _ (h.opened _ hconn)) (lt_irrefl _)
  · rw [hpeer] at hconn
    exact ⟨hconn, hnext⟩

/-- A step of the server while it has the connection: it does not accept it in this step. -/
structure Turn (v : Levels P) (g : Pigpio P) (s : Session P) (e : Env) (mine : Bool) (arrived : ℕ)
    (executed received : List Command) : Prop where
  serves : Serves s.inner.line
  serving : Serving v s executed received
  notAccepted : ¬ (Server.Video.accepts s.inner.line.server (s.env g e arrived) = true ∧
    mine = true ∧ s.inner.line.conn = .waiting)

/-- After a step to `s'` the commands executed are a front of those sent, and are answered; those
received follow while the server has the connection. -/
def Served (v : Levels P) (s s' : Session P) : Prop :=
  ∃ executed rest, s.sent = executed ++ rest ∧
    Answers executed (readings s'.inner.line.messages) ∧
    (Serves s'.inner.line → ∃ received, Serving v s' executed received)

section Turns

variable {e : Env} {mine : Bool} {arrived : ℕ} {executed received : List Command}
  (hturn : Turn v g s e mine arrived executed received)
include hturn

/-- What a step makes is the answer to the call that it executes, if that is a request. -/
theorem readings_turn :
    readings (s.step g (.server e mine arrived)).inner.line.messages =
      readings s.inner.line.messages ++ (((nextCall s.inner.line.server).bind Replies.bank).map
        (·, (s.env g e arrived).gpioRead)).toList := by
  have hread := readings_serve h (s.env g e arrived) mine
  rwa [if_pos hturn.serves] at hread

/-- What is received is no longer in flight, and has still to be executed. -/
theorem served_receive (hp : s.inner.line.server.phase = .receive) :
    Served v s (s.step g (.server e mine arrived)) := by
  have hread := readings_turn h hturn
  obtain ⟨hserves, ⟨hsent, hleft, hanswers, hholds⟩, hnot⟩ := hturn
  have hnone : nextCall s.inner.line.server = none := by simp only [nextCall, hp]
  have hreceives : s.receives arrived = arrived := if_pos ⟨hserves, hp⟩
  obtain rfl : received = [] := by
    rw [hp] at hleft
    exact List.map_eq_nil_iff.mp hleft.symm
  have hsame : Answers executed
      (readings (s.step g (.server e mine arrived)).inner.line.messages) := by
    rw [hread, hnone]
    exact (List.append_nil (readings s.inner.line.messages)).symm ▸ hanswers
  have hpins : s.pinsAfter g = s.pins := by simp only [Session.pinsAfter, hnone]
  refine ⟨executed, s.inFlight, by rw [hsent, List.append_nil], hsame, fun hserves' => ?_⟩
  obtain ⟨-, hkept⟩ := serves_of_serve h hnot hserves'
  refine ⟨s.inFlight.take arrived, ?_, ?_, hsame, ?_⟩
  · show s.sent = executed ++ s.inFlight.take arrived ++ s.inFlight.drop (s.receives arrived)
    rw [hreceives, List.append_assoc, List.take_append_drop, hsent, List.append_nil]
  · show callsLeft (s.inner.line.server.step (s.env g e arrived)).phase = _
    rw [Session.env, if_pos hserves, hreceives] at hkept ⊢
    exact callsLeft_deliver hp (h.opened _ hserves) hkept
  · show ∀ n < 32, Holds v n (s.pinsAfter g) (driven executed n)
    rw [hpins]
    exact hholds

/-- A step without a call leaves the commands alone. -/
theorem served_between (hp : s.inner.line.server.phase ≠ .receive)
    (hcall : nextCall s.inner.line.server = none) :
    Served v s (s.step g (.server e mine arrived)) := by
  have hread := readings_turn h hturn
  obtain ⟨-, ⟨hsent, hleft, hanswers, hholds⟩, -⟩ := hturn
  have hsame : Answers executed
      (readings (s.step g (.server e mine arrived)).inner.line.messages) := by
    rw [hread, hcall]
    exact (List.append_nil (readings s.inner.line.messages)).symm ▸ hanswers
  have hpins : s.pinsAfter g = s.pins := by simp only [Session.pinsAfter, hcall]
  have hphase := callsLeft_step (e := s.env g e arrived) hp
    (fun _ hsome => by cases hcall.symm.trans hsome)
  rw [hcall, hleft] at hphase
  refine ⟨executed, received ++ s.inFlight, by rw [hsent, List.append_assoc], hsame,
    fun _ => ⟨received, ?_, hphase.symm, hsame, ?_⟩⟩
  · show s.sent = executed ++ received ++ s.inFlight.drop (s.receives arrived)
    rw [inFlight_drop hp, hsent]
  · show ∀ n < 32, Holds v n (s.pinsAfter g) (driven executed n)
    rw [hpins]
    exact hholds

/-- A call executes the next of the commands received. -/
theorem served_call (hdoc : Documented g v) (hp : s.inner.line.server.phase ≠ .receive)
    {c : ScriptCall} (hcall : nextCall s.inner.line.server = some c) :
    Served v s (s.step g (.server e mine arrived)) := by
  have hread := readings_turn h hturn
  obtain ⟨-, ⟨hsent, hleft, hanswers, hholds⟩, -⟩ := hturn
  have hreg : ∀ c, nextCall s.inner.line.server = some c →
      c.registered s.inner.line.server.gpioReady = true := by
    intro c hsome
    obtain ⟨rest, hrest⟩ := callsLeft_of_nextCall hsome
    obtain ⟨cmd, -, -, rfl, -⟩ := List.map_eq_cons_iff.mp (hleft.symm.trans hrest)
    rw [h.ready]
    exact cmd.call_registered
  have hphase := callsLeft_step (e := s.env g e arrived) hp hreg
  rw [hcall, hleft] at hphase
  obtain ⟨cmd, received', rfl, rfl, hrest⟩ := List.map_eq_cons_iff.mp hphase
  have hexecuted : Answers (executed ++ [cmd])
      (readings (s.step g (.server e mine arrived)).inner.line.messages) := by
    rw [hread, hcall]
    exact hanswers.execute hdoc hholds hcall
  have hpins : s.pinsAfter g = g.call cmd.call s.pins := by
    simp only [Session.pinsAfter, hcall]
  have hfront : s.sent = executed ++ [cmd] ++ (received' ++ s.inFlight) := by
    rw [hsent]
    simp only [List.append_assoc, List.cons_append, List.nil_append]
  refine ⟨executed ++ [cmd], received' ++ s.inFlight, hfront, hexecuted,
    fun _ => ⟨received', ?_, hrest.symm, hexecuted, ?_⟩⟩
  · show s.sent = executed ++ [cmd] ++ received' ++ s.inFlight.drop (s.receives arrived)
    rw [inFlight_drop hp, hfront, List.append_assoc (executed ++ [cmd])]
  · show ∀ n < 32, Holds v n (s.pinsAfter g) (driven (executed ++ [cmd]) n)
    intro n hn
    rw [hpins, driven_concat]
    exact (hholds n hn).call hdoc hn cmd

/-- **A step of the server that has the connection** executes the next of the commands received,
receives those that have arrived, or leaves them alone. -/
theorem served_turn (hdoc : Documented g v) : Served v s (s.step g (.server e mine arrived)) := by
  by_cases hp : s.inner.line.server.phase = .receive
  · exact served_receive h hturn hp
  · cases hcall : nextCall s.inner.line.server with
    | none => exact served_between h hturn hp hcall
    | some c => exact served_call h hturn hdoc hp hcall

end Turns

/-- **The connection begins to be served**: all commands sent are in flight. -/
theorem inv_accept {e : Env} {arrived : ℕ}
    (hplace : InPlace g s (.server e true arrived))
    (haccepts : Server.Video.accepts s.inner.line.server (s.env g e arrived) = true)
    (hconn : s.inner.line.conn = .waiting) :
    Inv v (s.step g (.server e true arrived)) := by
  have hidle : ¬ Serves s.inner.line := fun hserves => by cases hserves.symm.trans hconn
  have hconn' : (s.inner.line.serve (s.env g e arrived) true).conn =
      .accepted s.inner.line.server.sockPeer := if_pos ⟨haccepts, rfl, hconn⟩
  have hnone : nextCall s.inner.line.server = none := nextCall_of_accepts haccepts
  have hanswers :
      Answers [] (readings (s.inner.line.serve (s.env g e arrived) true).messages) := by
    rw [readings_serve h, if_neg hidle, h.inner.line.messages_eq_nil hconn]
    exact List.Forall₂.nil
  have hflight : s.inFlight.drop (s.receives arrived) = s.sent := by
    rw [Session.receives, if_neg fun hboth => hidle hboth.1, List.drop_zero, h.waiting hconn]
  have hinner : Readings.Inv (s.inner.step (.server (s.env g e arrived) true)) :=
    Readings.step_inv s.inner _ h.inner hplace
  refine ⟨hinner, Replies.step_inv h.replies _,
    (RpiServer.step_gpioReady _ _).trans h.ready, ?_, fun _ => hflight, ⟨[], s.sent, rfl, hanswers⟩,
    fun _ => ⟨[], [], ?_, ?_, hanswers, fun _ _ => trivial⟩⟩
  · intro sock hsock
    obtain rfl : s.inner.line.server.sockPeer = sock :=
      Connection.accepted.inj (hconn'.symm.trans hsock)
    show _ ∈ (s.inner.line.server.step (s.env g e arrived)).opened
    rw [accepts_opened haccepts]
    exact List.mem_cons_self
  · show s.sent = s.inFlight.drop (s.receives arrived)
    rw [hflight]
  · exact (CaptureFlag.accepts_step haccepts).2

theorem inv_server (hdoc : Documented g v) {e : Env} {mine : Bool} {arrived : ℕ}
    (hplace : InPlace g s (.server e mine arrived)) :
    Inv v (s.step g (.server e mine arrived)) := by
  have hinner : Readings.Inv (s.inner.step (.server (s.env g e arrived) mine)) :=
    Readings.step_inv s.inner _ h.inner hplace
  have hreplies : Replies.Inv (s.inner.line.server.step (s.env g e arrived)) :=
    Replies.step_inv h.replies _
  have hready : (s.inner.line.server.step (s.env g e arrived)).gpioReady = true :=
    (RpiServer.step_gpioReady _ _).trans h.ready
  have hread := readings_serve h (s.env g e arrived) mine
  by_cases haccepted : Server.Video.accepts s.inner.line.server (s.env g e arrived) = true ∧
      mine = true ∧ s.inner.line.conn = .waiting
  · -- the client's connection begins to be served
    obtain ⟨haccepts, rfl, hwait⟩ := haccepted
    exact inv_accept h hplace haccepts hwait
  · have hconn : (s.inner.line.serve (s.env g e arrived) mine).conn = s.inner.line.conn :=
      if_neg haccepted
    have hopened : ∀ sock, (s.inner.line.serve (s.env g e arrived) mine).conn = .accepted sock →
        sock ∈ (s.inner.line.server.step (s.env g e arrived)).opened := by
      intro sock hsock
      exact opened_subset _ _ (h.opened sock (hconn.symm.trans hsock))
    have hwaiting : (s.inner.line.serve (s.env g e arrived) mine).conn = .waiting →
        s.inFlight.drop (s.receives arrived) = s.sent := by
      intro hwait
      have hidle : ¬ Serves s.inner.line := fun hserves => by
        cases hserves.symm.trans (hconn.symm.trans hwait)
      rw [Session.receives, if_neg fun hboth => hidle hboth.1, List.drop_zero]
      exact h.waiting (hconn.symm.trans hwait)
    by_cases hserves : Serves s.inner.line
    · obtain ⟨executed, received, hserving⟩ := h.serving hserves
      obtain ⟨executed', rest, hsent, hanswers, hnext⟩ :=
        served_turn h ⟨hserves, hserving, haccepted⟩ hdoc
      exact ⟨hinner, hreplies, hready, hopened, hwaiting, ⟨executed', rest, hsent, hanswers⟩,
        fun hserves' => ⟨executed', hnext hserves'⟩⟩
    · rw [if_neg hserves, List.append_nil] at hread
      obtain ⟨executed, rest, hsent, hanswers⟩ := h.answered
      refine ⟨hinner, hreplies, hready, hopened, hwaiting, ⟨executed, rest, hsent, ?_⟩,
        fun hserves' => absurd (serves_of_serve h haccepted hserves').1 hserves⟩
      exact hread ▸ hanswers

/-- A step of the client alone. -/
theorem inv_inner {i : Readings.Session} (hinner : Readings.Inv i)
    (hserver : i.line.server = s.inner.line.server) (hconn : i.line.conn = s.inner.line.conn)
    (hmessages : i.line.messages = s.inner.line.messages) : Inv v { s with inner := i } := by
  refine ⟨hinner, hserver ▸ h.replies, (congrArg RpiServer.gpioReady hserver).trans h.ready, ?_,
    fun hwait => h.waiting (hconn.symm.trans hwait), hmessages ▸ h.answered, fun hserves => ?_⟩
  · intro sock hsock
    exact hserver ▸ h.opened sock (hconn.symm.trans hsock)
  · have hserves' : i.line.conn = .accepted i.line.server.sockPeer := hserves
    rw [hconn, hserver] at hserves'
    obtain ⟨executed, received, hsent, hleft, hanswers, hholds⟩ := h.serving hserves'
    exact ⟨executed, received, hsent, hserver ▸ hleft, hmessages ▸ hanswers, hholds⟩

theorem inv_connect {ok : Bool} (hplace : InPlace g s (.connect ok)) : Inv v (s.connect ok) := by
  have hinner : Readings.Inv (s.inner.connect ok) := Readings.inv_connect h.inner ok hplace
  cases ok with
  | false => exact inv_inner h hinner rfl rfl rfl
  | true =>
      refine ⟨hinner, h.replies, h.ready, fun _ hsock => ?_, fun _ => rfl,
        ⟨[], [], rfl, List.Forall₂.nil⟩, fun hserves => ?_⟩
      · cases hsock
      · cases hserves

theorem inv_recieve (n : ℕ) : Inv v { s with inner := s.inner.recieve n } := by
  have hline : (s.inner.recieve n).line = s.inner.line := by
    unfold Readings.Session.recieve
    split <;> rfl
  refine inv_inner h (Readings.inv_recieve h.inner n) ?_ ?_ ?_ <;> rw [hline]

theorem inv_arrive (n : ℕ) : Inv v { s with inner := s.inner.arrive n } := by
  have hinner := Readings.inv_arrive h.inner n
  unfold Readings.Session.arrive at hinner ⊢
  split at hinner
  · exact inv_inner h hinner rfl rfl rfl
  · exact h

/-- A command that is sent is the last one in flight. -/
theorem inv_command (c : Command) : Inv v (s.command c) := by
  unfold Session.command
  split
  · obtain ⟨executed, rest, hsent, hanswers⟩ := h.answered
    refine ⟨h.inner, h.replies, h.ready, h.opened, fun hwait => ?_,
      ⟨executed, rest ++ [c], ?_, hanswers⟩, fun hserves => ?_⟩
    · show s.inFlight ++ [c] = s.sent ++ [c]
      rw [h.waiting hwait]
    · show s.sent ++ [c] = executed ++ (rest ++ [c])
      rw [hsent, List.append_assoc]
    · obtain ⟨executed, received, hsent, hleft, hanswers, hholds⟩ := h.serving hserves
      refine ⟨executed, received, ?_, hleft, hanswers, hholds⟩
      show s.sent ++ [c] = executed ++ received ++ (s.inFlight ++ [c])
      rw [hsent, List.append_assoc _ s.inFlight]
  · exact h

/-- What others do to the pins leaves the outputs alone. -/
theorem inv_outside (hdoc : Documented g v) (levels : ℕ → Bool) :
    Inv v { s with pins := g.outside levels s.pins } := by
  refine ⟨h.inner, h.replies, h.ready, h.opened, h.waiting, h.answered, fun hserves => ?_⟩
  obtain ⟨executed, received, hsent, hleft, hanswers, hholds⟩ := h.serving hserves
  exact ⟨executed, received, hsent, hleft, hanswers,
    fun n hn => (hholds n hn).keeps (hdoc.outside s.pins n levels)⟩

end Steps

/-- **Every step keeps the readings in step with the commands**, if the condition is met. -/
theorem step_inv (hdoc : Documented g v) (s : Session P) (i : Input) (h : Inv v s)
    (hplace : InPlace g s i) : Inv v (s.step g i) := by
  cases i with
  | connect ok => exact inv_connect h hplace
  | disconnect => exact inv_inner h (Readings.inv_disconnect h.inner) rfl rfl rfl
  | close => exact inv_inner h (Readings.inv_close h.inner) rfl rfl rfl
  | recieve n => exact inv_recieve h n
  | arrive n => exact inv_arrive h n
  | command c => exact inv_command h c
  | outside levels => exact inv_outside h hdoc levels
  | server e mine arrived => exact inv_server h hdoc hplace

/-! ### What is raised -/

/-- The reading in an event. -/
def gpio : ClientUnity.Event → Option (ℕ × ℕ)
  | .gpio bank values => some (bank, values)
  | .jpeg _ => none

theorem gpio_events (fs : List ServerFrame) :
    (Readings.events fs).filterMap gpio =
      (readings fs).map fun r => (r.1.toNat, r.2.toNat) := by
  induction fs with
  | nil => rfl
  | cons f fs ih =>
      show (f.events ++ Readings.events fs).filterMap gpio = _
      rw [List.filterMap_append, ih]
      cases f <;> rfl

/-- The readings that are raised answer the first requests. -/
theorem Inv.shows {s : Session P} (h : Inv v s) {k bank values : ℕ}
    (hraised : (s.inner.raised.filterMap gpio)[k]? = some (bank, values)) :
    ∃ before, (requests [] s.sent)[k]? = some before ∧ bank = 1 ∧
      ∀ n < 32, ∀ high, driven before n = .level high → values.testBit n = high := by
  obtain ⟨later, hlater⟩ := h.inner.raised
  have hevents : (Readings.events s.inner.line.messages).filterMap gpio =
      s.inner.raised.filterMap gpio ++ later.filterMap gpio := by
    rw [← hlater, List.filterMap_append]
  rw [gpio_events] at hevents
  have hmade : ((readings s.inner.line.messages).map fun r => (r.1.toNat, r.2.toNat))[k]? =
      some (bank, values) := by
    rw [hevents]
    exact List.getElem?_append_left (List.getElem?_eq_some_iff.mp hraised).1 ▸ hraised
  rw [List.getElem?_map, Option.map_eq_some_iff] at hmade
  obtain ⟨r, hr, hvalues⟩ := hmade
  obtain ⟨rfl, rfl⟩ := Prod.mk.inj hvalues
  obtain ⟨executed, rest, hsent, hanswers⟩ := h.answered
  obtain ⟨hreading, hr⟩ := List.getElem?_eq_some_iff.mp hr
  have hrequest : k < (requests [] executed).length := hanswers.length_eq ▸ hreading
  obtain ⟨hbank, hshows⟩ := List.Forall₂.get hanswers hrequest hreading
  refine ⟨(requests [] executed)[k], ?_, ?_, fun n hn high hdriven => ?_⟩
  · rw [hsent, requests_append, List.getElem?_append_left hrequest, List.getElem?_eq_getElem]
  · exact congrArg UInt32.toNat ((congrArg Prod.fst hr).symm.trans hbank)
  · exact hr ▸ hshows n hn high hdriven

/-- **A reading shows what the client has set.**  In every run whose steps meet the condition, the
`k`-th reading raised on the latest connection answers the `k`-th request sent on it: it is of the
first bank, and of every pin that the commands in front of this request made an output and then
set it has the level set last. -/
theorem reading_shows (hdoc : Documented g v) (p : P) (d : Device) (now later : ℤ)
    (is : List Input)
    (hplace : Meets (Session.step g) (InPlace g) (.start p d now later) is) :
    Always (Session.step g)
      (fun s : Session P => ∀ k bank values : ℕ,
        (s.inner.raised.filterMap gpio)[k]? = some (bank, values) →
        ∃ before, (requests [] s.sent)[k]? = some before ∧ bank = 1 ∧
          ∀ n < 32, ∀ high, driven before n = .level high → values.testBit n = high)
      (.start p d now later) is :=
  (always_of_meets (step_inv hdoc) (inv_start v p d now later) hplace).imp
    fun _ h => by
      intro k bank values hraised
      exact h.shows hraised

/-- A client connects and sends commands, which the server receives and executes while the levels
outside change. -/
def sends (cmds : List Command) : List Input :=
  .connect true :: .server { Env.idle with accept := some (0, true) } true 0 ::
    .server .idle true 0 :: cmds.map .command ++
      .server .idle true cmds.length :: .outside (fun _ => true) ::
        List.replicate cmds.length (.server { Env.idle with send := some 16 } true 0)

def setsPin : List Command :=
  [.gpioSetModeOut 21, .gpioSet_0_31_Low 0x200000, .gpioGet_0_31]

theorem reading_shows_low :
    Always (Session.step Latches.pigpio)
        (fun s : Session Latches => ∀ k bank values : ℕ,
          (s.inner.raised.filterMap gpio)[k]? = some (bank, values) →
          ∃ before, (requests [] s.sent)[k]? = some before ∧ bank = 1 ∧
            ∀ n < 32, ∀ high, driven before n = .level high → values.testBit n = high)
        (.start Latches.low .camera 0 0) (sends setsPin ++ [.arrive 16, .recieve 100]) ∧
      (run (Session.step Latches.pigpio) (.start Latches.low .camera 0 0)
        (sends setsPin ++ [.arrive 16, .recieve 100])).inner.raised = [.gpio 1 0xFFDFFFFF] := by
  have hplace : Meets (Session.step Latches.pigpio) (InPlace Latches.pigpio)
      (.start Latches.low .camera 0 0) (sends setsPin ++ [.arrive 16, .recieve 100]) := by
    decide +kernel
  exact ⟨reading_shows Latches.documented Latches.low .camera 0 0 _ hplace, by decide +kernel⟩

theorem run_recieves (s : Session P) (reads : List ℕ) :
    (run (Session.step g) s (reads.map .recieve)).inner =
      run Readings.Session.step s.inner (reads.map .recieve) := by
  induction reads generalizing s with
  | nil => rfl
  | cons n reads ih => exact ih (s.step g (.recieve n))

/-- **Every request is answered.**  Once the server has executed all commands sent and everything
that it has made for the connection has arrived at a client that is still connected and served, one
call of `RecieveMessage` for each message and one for each byte that has not been read raise one
reading for each request, in their order, and each shows what the commands in front of its request
have set. -/
theorem all_answered (hdoc : Documented g v) (p : P) (d : Device) (now later : ℤ)
    (is : List Input) (reads : List ℕ)
    (hplace : Meets (Session.step g) (InPlace g) (.start p d now later) is)
    (available : List UInt8) :
    let s := run (Session.step g) (.start p d now later) is
    s.inner.client.tcpClient = some ⟨true, available⟩ → Serves s.inner.line →
      s.inFlight = [] → callsLeft s.inner.line.server.phase = [] → s.inner.line.Drained →
      s.inner.line.messages.length + available.length ≤ reads.length →
        List.Forall₂ (fun before r => r.1 = 1 ∧
            ∀ n < 32, ∀ high, driven before n = .level high → r.2.testBit n = high)
          (requests [] s.sent)
          ((run (Session.step g) s (reads.map .recieve)).inner.raised.filterMap gpio) := by
  intro s htcp hserves hflight hleft hdrained henough
  have h : Inv v s := (always_of_meets (step_inv hdoc) (inv_start v p d now later) hplace).last
  obtain ⟨executed, received, hsent, hcalls, hanswers, -⟩ := h.serving hserves
  obtain rfl : received = [] := List.map_eq_nil_iff.mp (hcalls.symm.trans hleft)
  have hall : s.sent = executed := by
    rw [hsent, hflight, List.append_nil, List.append_nil]
  rw [run_recieves, h.inner.raises_all htcp hdrained henough, gpio_events, hall,
    List.forall₂_map_right_iff]
  refine hanswers.imp fun before r hshows => ⟨?_, hshows.2⟩
  exact congrArg UInt32.toNat hshows.1

/-- The output is read back low, and high. -/
theorem all_answered_two :
    let s := run (Session.step Latches.pigpio) (.start Latches.low .camera 0 0)
      (sends (setsPin ++ [.gpioSet_0_31_High 0x200000, .gpioGet_0_31]) ++ [.arrive 32])
    List.Forall₂ (fun before r => r.1 = 1 ∧
        ∀ n < 32, ∀ high, driven before n = .level high → r.2.testBit n = high)
      (requests [] s.sent)
      ((run (Session.step Latches.pigpio) s
        ((List.replicate 34 100).map .recieve)).inner.raised.filterMap gpio) := by
  have hplace : Meets (Session.step Latches.pigpio) (InPlace Latches.pigpio)
      (.start Latches.low .camera 0 0)
      (sends (setsPin ++ [.gpioSet_0_31_High 0x200000, .gpioGet_0_31]) ++ [.arrive 32]) := by
    decide +kernel
  have h := all_answered Latches.documented Latches.low .camera 0 0 _ (List.replicate 34 100)
    hplace (gpioMessage 1 0xFFDFFFFF ++ gpioMessage 1 0xFFFFFFFF)
  refine h ?_ ?_ ?_ ?_ ?_ ?_
  · decide +kernel
  · decide +kernel
  · decide +kernel
  · decide +kernel
  · decide +kernel
  · decide +kernel

end MKart.System.Pins
