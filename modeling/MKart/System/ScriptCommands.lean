import MKart.ClientQt.Fpv
import MKart.ClientUnity.V4L2Client
import MKart.Lib.Delimited
import MKart.Server.Scripts
import Mathlib.Data.List.Forall2

/-!
# Script commands across TCP

Both clients control the server by sending it pieces of JavaScript, each a call and a
semicolon, with nothing around them.  The server evaluates whatever a `receive_commands` finds.
This module names the commands, relates them to what the clients write and to the calls the
server logs, and settles for which cuts of the byte stream every command is executed.

The interpreter enters as `Evaluates`.  A sequence of calls and semicolons is a program and makes
its calls, also without the last semicolon.  Any other text may fail.  Of it, be it no program or
one that fails on a name or a number it starts with, nothing more is used than that it makes no
calls but those that stand in it.  The server does not return from an evaluation that fails, so
that the pieces behind it are not received.
-/

namespace MKart.System

open MKart.Bytes MKart.Delimited MKart.Runs
open MKart.ClientQt MKart.ClientUnity
open MKart.Server MKart.Server.Scripts

/-- The commands that the clients send. -/
inductive Command
  | setCapturing (enabled : Bool)
  | exit
  | gpioSetModeIn (gpioNum : UInt32)
  | gpioSetModeOut (gpioNum : UInt32)
  | gpioSet_0_31_Low (gpioBitMask : UInt32)
  | gpioSet_0_31_High (gpioBitMask : UInt32)
  | gpioGet_0_31
  deriving DecidableEq, Repr

namespace Command

/-- The call that a command is to make, with the number it passes. -/
def call : Command → ScriptCall
  | setCapturing enabled => .v4l2SetCapturing enabled
  | exit => .exit
  | gpioSetModeIn gpioNum => .gpioPinModeIn gpioNum.toNat
  | gpioSetModeOut gpioNum => .gpioPinModeOut gpioNum.toNat
  | gpioSet_0_31_Low gpioBitMask => .gpioSet_0_31_Low gpioBitMask
  | gpioSet_0_31_High gpioBitMask => .gpioSet_0_31_High gpioBitMask
  | gpioGet_0_31 => .gpioGet_0_31

/-- The text of the call. -/
def callChars : Command → List Char
  | setCapturing true => "v4l2_set_capturing(true)".toList
  | setCapturing false => "v4l2_set_capturing(false)".toList
  | exit => "exit()".toList
  | gpioSetModeIn gpioNum => format "gpio_pin_mode_in(".toList gpioNum [')']
  | gpioSetModeOut gpioNum => format "gpio_pin_mode_out(".toList gpioNum [')']
  | gpioSet_0_31_Low gpioBitMask => format "gpio_set_0_31_low(".toList gpioBitMask [')']
  | gpioSet_0_31_High gpioBitMask => format "gpio_set_0_31_high(".toList gpioBitMask [')']
  | gpioGet_0_31 => "gpio_get_0_31()".toList

def callText (c : Command) : List UInt8 := cstr c.callChars

def semicolon : UInt8 := 59

/-- What a client sends for the command. -/
def text (c : Command) : List UInt8 := c.callText ++ [semicolon]

/-- The call of the Unity client that sends the command. -/
def remote : Command → V4L2Client → Bool × List UInt8
  | setCapturing enabled => remoteCapture enabled
  | exit => remoteExit
  | gpioSetModeIn gpioNum => remoteGPIOSetModeIn gpioNum
  | gpioSetModeOut gpioNum => remoteGPIOSetModeOut gpioNum
  | gpioSet_0_31_Low gpioBitMask => remoteGPIOSet_0_31_Low gpioBitMask
  | gpioSet_0_31_High gpioBitMask => remoteGPIOSet_0_31_High gpioBitMask
  | gpioGet_0_31 => remoteGPIOGet_0_31

theorem call_injective : Function.Injective call := by
  intro a b h
  cases a <;> cases b <;> simp_all [call, UInt32.toNat_inj]

/-- Where the functions of `gpio.cpp` are registered, every command finds its function. -/
theorem call_registered (c : Command) : c.call.registered true = true := by
  cases c <;> rfl

/-! ### The texts -/

/-- The characters of a call: neither a semicolon nor a zero, and one byte each. -/
def Plain (ch : Char) : Prop := ch ≠ ';' ∧ 0 < ch.toNat ∧ ch.toNat < 128

instance (ch : Char) : Decidable (Plain ch) := inferInstanceAs (Decidable (_ ∧ _))

theorem plain_of_mem_toDigits {n : ℕ} {ch : Char} (h : ch ∈ Nat.toDigits 10 n) : Plain ch := by
  have hdigit := Nat.isDigit_of_mem_toDigits (by decide) (by decide) h
  obtain ⟨hlow, hhigh⟩ := Char.isDigit_iff_toNat.mp hdigit
  refine ⟨?_, lt_of_lt_of_le (by decide) hlow, lt_of_le_of_lt hhigh (by decide)⟩
  rintro rfl
  exact absurd hhigh (by decide)

theorem plain_of_mem_format {front back : List Char} {n : UInt32} {ch : Char}
    (hfront : ∀ x ∈ front, Plain x) (hback : ∀ x ∈ back, Plain x)
    (h : ch ∈ format front n back) : Plain ch := by
  rw [format, List.append_assoc] at h
  rcases List.mem_append.mp h with h | h
  · exact hfront ch h
  · rcases List.mem_append.mp h with h | h
    · exact plain_of_mem_toDigits h
    · exact hback ch h

theorem plain_of_all {s : List Char} (h : s.all (fun ch => decide (Plain ch)) = true) :
    ∀ ch ∈ s, Plain ch := by
  intro ch hch
  exact of_decide_eq_true (List.all_eq_true.mp h ch hch)

theorem plain_of_mem_callChars {c : Command} : ∀ ch ∈ c.callChars, Plain ch := by
  have hback : ∀ ch ∈ [')'], Plain ch := plain_of_all (by decide)
  cases c with
  | setCapturing enabled => cases enabled <;> exact plain_of_all (by decide)
  | exit | gpioGet_0_31 => exact plain_of_all (by decide)
  | gpioSetModeIn n | gpioSetModeOut n | gpioSet_0_31_Low n | gpioSet_0_31_High n =>
      intro ch h
      exact plain_of_mem_format (plain_of_all (by decide)) hback h

theorem ofNat_ne_of_plain {ch : Char} (h : Plain ch) :
    UInt8.ofNat ch.toNat ≠ semicolon ∧ UInt8.ofNat ch.toNat ≠ 0 := by
  obtain ⟨hsemicolon, hpos, hlt⟩ := h
  have hnat : (UInt8.ofNat ch.toNat).toNat = ch.toNat :=
    UInt8.toNat_ofNat_of_lt' (Nat.lt_trans hlt (by decide))
  constructor
  · intro heq
    have h59 : ch.toNat = 59 := hnat ▸ congrArg UInt8.toNat heq
    exact hsemicolon (Char.toNat_inj.mp h59)
  · intro heq
    have h0 : ch.toNat = 0 := hnat ▸ congrArg UInt8.toNat heq
    omega

theorem semicolon_not_mem_callText (c : Command) : semicolon ∉ c.callText := by
  intro h
  obtain ⟨ch, hch, heq⟩ := List.mem_map.mp h
  exact (ofNat_ne_of_plain (plain_of_mem_callChars ch hch)).1 heq

theorem zero_not_mem_callText (c : Command) : 0 ∉ c.callText := by
  intro h
  obtain ⟨ch, hch, heq⟩ := List.mem_map.mp h
  exact (ofNat_ne_of_plain (plain_of_mem_callChars ch hch)).2 heq

theorem callText_ne_nil (c : Command) : c.callText ≠ [] := by
  cases c with
  | setCapturing enabled => cases enabled <;> decide
  | exit | gpioGet_0_31 => decide
  | gpioSetModeIn n | gpioSetModeOut n | gpioSet_0_31_Low n | gpioSet_0_31_High n =>
      exact List.cons_ne_nil _ _

/-! ### What the clients write -/

theorem getBytes_eq_cstr {s : List Char} (h : ∀ ch ∈ s, ch.toNat < 128) : getBytes s = cstr s := by
  induction s with
  | nil => rfl
  | cons ch s ih =>
      have hlow : ch.val.toNat ≤ 127 := Nat.le_of_lt_succ (h ch List.mem_cons_self)
      have hone : String.utf8EncodeChar ch = [UInt8.ofNat ch.toNat] := if_pos hlow
      rw [getBytes, List.flatMap_cons, hone, cstr, List.map_cons]
      exact congrArg _ (ih fun x hx => h x (List.mem_cons_of_mem _ hx))

theorem format_semicolon (front : List Char) (n : UInt32) :
    format front n [')'] ++ [';'] = format front n ");".toList := by
  have hback : [')'] ++ [';'] = ");".toList := by decide
  rw [format, List.append_assoc, hback, format]

theorem remote_chars (c : Command) : c.remote = remoteCommand (c.callChars ++ [';']) := by
  cases c with
  | setCapturing enabled => cases enabled <;> rfl
  | exit | gpioGet_0_31 => rfl
  | gpioSetModeIn n | gpioSetModeOut n | gpioSet_0_31_Low n | gpioSet_0_31_High n =>
      exact (congrArg remoteCommand (format_semicolon _ n)).symm

/-- The Unity client writes the text of the command. -/
theorem remote_text (c : Command) {client : V4L2Client} {tcp : TcpClient}
    (htcp : client.tcpClient = some tcp) (hconn : tcp.connected = true) :
    c.remote client = (true, c.text) := by
  have hascii : ∀ ch ∈ c.callChars ++ [';'], ch.toNat < 128 := by
    intro ch hch
    rcases List.mem_append.mp hch with h | h
    · exact (plain_of_mem_callChars ch h).2.2
    · rw [List.mem_singleton.mp h]
      decide
  have hbytes : getBytes (c.callChars ++ [';']) = c.text := by
    rw [getBytes_eq_cstr hascii, cstr, List.map_append]
    rfl
  rw [remote_chars, remoteCommand, htcp, ← hbytes]
  exact if_pos hconn

theorem msg_text (enabled : Bool) :
    (if enabled then FpvContext.msgTrue else FpvContext.msgFalse) =
      (setCapturing enabled).text := by
  cases enabled <;> rfl

/-- The Qt client writes the text of the command, if its state is connected and the socket has not
been closed since. -/
theorem setCapturing_text (enabled : Bool) {c : FpvContext} (hstate : c.tcp.state = .connected)
    (hsock : c.tcp.sock.state ≠ .unconnectedState) :
    (c.setCapturing QTcpSocket.write enabled).2.2 = (setCapturing enabled).text := by
  simp [FpvContext.setCapturing, Tcp.sendRaw, hstate, QTcpSocket.write, hsock, msg_text]

theorem remoteExit_text {c : FpvContext} (hstate : c.tcp.state = .connected)
    (hsock : c.tcp.sock.state ≠ .unconnectedState) :
    (c.remoteExit QTcpSocket.write).2 = exit.text := by
  simp [FpvContext.remoteExit, Tcp.sendRaw, hstate, QTcpSocket.write, hsock]
  rfl

end Command

/-! ### The stream and its pieces -/

open Command

/-- The bytes of a sequence of commands on one connection. -/
def stream (cmds : List Command) : List UInt8 := cmds.flatMap text

/-- What the interpreter is relied on to do with pieces of the stream of `cmds`. -/
structure Evaluates (evaluate : List UInt8 → List ScriptCall) (cmds : List Command) : Prop where
  /-- A text of whole calls and semicolons makes its calls. -/
  runs : ∀ ts, ts <:+: tokens cmds → evaluate (textOf callText semicolon ts) = (wordsOf ts).map call
  /-- No text makes calls but ones that stand in it, in the order in which they stand there.  It may
  fail before any of them and behind the last. -/
  only : ∀ t, t <:+: stream cmds →
    ∃ (found : List Command) (failure : List ScriptCall), evaluate t = found.map call ++ failure ∧
      (failure = [] ∨ failure = [.fatal]) ∧ OccurIn callText found t

/-- The pieces have been received on `sock`, one by each `receive_commands`, and evaluated, or the
evaluation of one of them has failed. -/
def Processed (sock : ℕ) (pieces : List (List UInt8)) (s : RpiServer) (es : List Env) : Prop :=
  ((receipts sock s es).map (·.2) = pieces ∧ toCall sock (run RpiServer.step s es).phase = []) ∨
    ((receipts sock s es).map (·.2) <+: pieces ∧
      ∃ c ∈ called sock (run RpiServer.step s es).log, c.registered s.gpioReady = false)

instance (sock : ℕ) (pieces : List (List UInt8)) (s : RpiServer) (es : List Env) :
    Decidable (Processed sock pieces s es) := inferInstanceAs (Decidable (_ ∨ _))

/-- The calls that scripts received on `sock` have made of functions that they found. -/
def executed (gpioReady : Bool) (sock : ℕ) (log : List Server.Event) : List ScriptCall :=
  (called sock log).filter (·.registered gpioReady)

/-- The pieces are sequences of whole calls and semicolons: a cut can separate a call from its
semicolon, but no call is cut. -/
def NoCallCut (cmds : List Command) (pieces : List (List UInt8)) : Prop :=
  ∃ tss : List (List (Token Command)),
    tss.flatten = tokens cmds ∧ pieces = tss.map (textOf callText semicolon)

theorem stream_eq_textOf (cmds : List Command) :
    stream cmds = textOf callText semicolon (tokens cmds) := by
  induction cmds with
  | nil => rfl
  | cons c cmds ih =>
      have htokens : tokens (c :: cmds) = .word c :: .sep :: tokens cmds := rfl
      rw [stream, List.flatMap_cons, ← stream, ih, htokens, textOf, textOf, text, List.append_assoc]
      rfl

theorem zero_not_mem_stream (cmds : List Command) : 0 ∉ stream cmds := by
  intro h
  obtain ⟨c, -, hc⟩ := List.mem_flatMap.mp h
  rcases List.mem_append.mp hc with hc | hc
  · exact zero_not_mem_callText c hc
  · exact absurd hc (by decide)

/-- Without a zero byte the interpreter gets what was received. -/
theorem scriptText_eq {t : List UInt8} (h : 0 ∉ t) : RpiServer.scriptText t = t := by
  have hall : ∀ b ∈ t, decide (b ≠ 0) = true := fun b hb => decide_eq_true fun h0 => h (h0 ▸ hb)
  rw [RpiServer.scriptText, List.takeWhile_append_of_pos hall]
  simp

theorem flatMap_eq_of_map_eq {α β γ δ : Type*} {f : α → γ} {f' : β → γ} {g : α → List δ}
    {g' : β → List δ} {l : List α} {l' : List β} (hmap : l.map f = l'.map f')
    (h : ∀ a ∈ l, ∀ b ∈ l', f a = f' b → g a = g' b) : l.flatMap g = l'.flatMap g' := by
  induction l generalizing l' with
  | nil =>
      rw [List.map_nil] at hmap
      rw [List.map_eq_nil_iff.mp hmap.symm]
      rfl
  | cons a l ih =>
      cases l' with
      | nil => exact absurd hmap (List.cons_ne_nil _ _)
      | cons b l' =>
          obtain ⟨hhead, htail⟩ := List.cons_eq_cons.mp hmap
          rw [List.flatMap_cons, List.flatMap_cons,
            h a List.mem_cons_self b List.mem_cons_self hhead,
            ih htail fun x hx y hy =>
              h x (List.mem_cons_of_mem _ hx) y (List.mem_cons_of_mem _ hy)]

section Receipts

variable {cmds : List Command} {rs : List (Env × List UInt8)} {pieces rest : List (List UInt8)}
  (hpieces : rs.map (·.2) ++ rest = pieces) (htext : pieces.flatten = stream cmds)
  (heval : ∀ r ∈ rs, Evaluates r.1.evaluate cmds)
include hpieces

theorem mem_pieces {r : Env × List UInt8} (hr : r ∈ rs) : r.2 ∈ pieces :=
  hpieces ▸ List.mem_append_left _ (List.mem_map_of_mem hr)

include htext

/-- What is evaluated is a piece of the stream. -/
theorem evaluated_eq {r : Env × List UInt8} (hr : r ∈ rs) :
    r.2 <:+: stream cmds ∧ evaluated r = r.1.evaluate r.2 := by
  have hpiece : r.2 <:+: stream cmds := htext ▸ List.infix_of_mem_flatten (mem_pieces hpieces hr)
  refine ⟨hpiece, congrArg r.1.evaluate (scriptText_eq ?_)⟩
  intro h0
  exact zero_not_mem_stream cmds (hpiece.subset h0)

include heval

/-- What is executed of a piece are registered calls that stand in it. -/
theorem executed_found (gpioReady : Bool) {r : Env × List UInt8} (hr : r ∈ rs) :
    ∃ found : List Command,
      (tried gpioReady (evaluated r)).filter (·.registered gpioReady) = found.map call ∧
        (∀ c ∈ found, c.call.registered gpioReady = true) ∧ OccurIn callText found r.2 := by
  obtain ⟨hpiece, hevaluated⟩ := evaluated_eq hpieces htext hr
  obtain ⟨found, failure, hfound, hfailure, hoccur⟩ := (heval r hr).only r.2 hpiece
  have hstop : failure.takeWhile (·.registered gpioReady) = [] := by
    rcases hfailure with rfl | rfl <;> rfl
  refine ⟨found.takeWhile fun c => c.call.registered gpioReady, ?_, fun c hc => ?_,
    hoccur.of_prefix _ (List.takeWhile_prefix _)⟩
  · rw [filter_tried, hevaluated, hfound]
    clear hfound hoccur
    induction found with
    | nil => exact hstop
    | cons c found ih => cases hreg : c.call.registered gpioReady <;> simp [hreg, ih]
  · exact List.all_eq_true.mp List.all_takeWhile c hc

/-- If all calls are executed, no call is cut: what is found in the pieces already makes up the
length of the stream. -/
theorem noCallCut_of_executed {gpioReady : Bool}
    (h : (rs.flatMap fun r => (tried gpioReady (evaluated r)).filter (·.registered gpioReady)) =
      cmds.map call) :
    NoCallCut cmds pieces ∧ ∀ c ∈ cmds, c.call.registered gpioReady = true := by
  have hex : ∀ r, ∃ found : List Command, r ∈ rs →
      (tried gpioReady (evaluated r)).filter (·.registered gpioReady) = found.map call ∧
        (∀ c ∈ found, c.call.registered gpioReady = true) ∧ OccurIn callText found r.2 := by
    intro r
    by_cases hr : r ∈ rs
    · obtain ⟨found, hfound⟩ := executed_found hpieces htext heval gpioReady hr
      exact ⟨found, fun _ => hfound⟩
    · exact ⟨[], fun h => absurd h hr⟩
  choose found hfound using hex
  have hcalls : (rs.flatMap found).map call = cmds.map call := by
    rw [← h, List.map_flatMap]
    exact List.flatMap_congr fun r hr => ((hfound r hr).1).symm
  have hcmds : rs.flatMap found = cmds := List.map_injective_iff.mpr call_injective hcalls
  constructor
  · -- nothing is found in the pieces that are not received
    have hoccur : List.Forall₂ (fun b ws => OccurIn callText ws b) (rs.map (·.2))
        (rs.map found) := by
      rw [List.forall₂_map_left_iff, List.forall₂_map_right_iff, List.forall₂_same]
      intro r hr
      exact (hfound r hr).2.2
    have hnone : List.Forall₂ (fun b ws => OccurIn callText ws b) rest
        (rest.map fun _ => ([] : List Command)) := by
      rw [List.forall₂_map_right_iff, List.forall₂_same]
      exact fun _ _ => trivial
    have hflatten : (rs.map found ++ rest.map fun _ => ([] : List Command)).flatten = cmds := by
      rw [List.flatten_append, ← List.flatMap_def, hcmds]
      simp
    have hall : List.Forall₂ (fun b ws => OccurIn callText ws b) (rs.map (·.2) ++ rest)
        (rs.map found ++ rest.map fun _ => ([] : List Command)) := List.rel_append hoccur hnone
    obtain ⟨tss, htss, htexts⟩ := exists_tokens_of_found semicolon_not_mem_callText
      callText_ne_nil hall (by rw [hpieces, htext, hflatten, stream_eq_textOf])
    exact ⟨tss, htss.trans (by rw [hflatten]), hpieces ▸ htexts⟩
  · intro c hc
    rw [← hcmds] at hc
    obtain ⟨r, hr, hmem⟩ := List.mem_flatMap.mp hc
    exact (hfound r hr).2.1 c hmem

/-- A piece of whole calls and semicolons makes its calls. -/
theorem evaluated_of_tokens {ts : List (Token Command)} (hts : ts <:+: tokens cmds)
    {r : Env × List UInt8} (hr : r ∈ rs) (hr2 : r.2 = textOf callText semicolon ts) :
    evaluated r = (wordsOf ts).map call := by
  rw [(evaluated_eq hpieces htext hr).2, hr2]
  exact (heval r hr).runs ts hts

/-- If no call is cut and all functions are registered, no evaluation fails. -/
theorem registered_of_noCallCut {gpioReady : Bool} (h : NoCallCut cmds pieces)
    (hreg : ∀ c ∈ cmds, c.call.registered gpioReady = true) {r : Env × List UInt8} (hr : r ∈ rs) :
    ∀ c ∈ evaluated r, c.registered gpioReady = true := by
  obtain ⟨tss, htss, hpieces'⟩ := h
  obtain ⟨ts, hts, hr2⟩ := List.mem_map.mp (hpieces' ▸ mem_pieces hpieces hr)
  have hinfix : ts <:+: tokens cmds := htss ▸ List.infix_of_mem_flatten hts
  rw [evaluated_of_tokens hpieces htext heval hinfix hr hr2.symm]
  intro c hc
  obtain ⟨cmd, hcmd, rfl⟩ := List.mem_map.mp hc
  apply hreg
  rw [← wordsOf_tokens cmds, ← htss, wordsOf_flatten]
  exact List.mem_flatten_of_mem (List.mem_map_of_mem hts) hcmd

end Receipts

theorem evaluated_of_noCallCut {cmds : List Command} {rs : List (Env × List UInt8)}
    (htext : (rs.map (·.2)).flatten = stream cmds) (heval : ∀ r ∈ rs, Evaluates r.1.evaluate cmds)
    (h : NoCallCut cmds (rs.map (·.2))) : rs.flatMap evaluated = cmds.map call := by
  obtain ⟨tss, htss, hpieces⟩ := h
  have hruns : ∀ r ∈ rs, ∀ ts ∈ tss, r.2 = textOf callText semicolon ts →
      evaluated r = (wordsOf ts).map call := fun r hr ts hts hr2 =>
    evaluated_of_tokens (List.append_nil _) htext heval
      (htss ▸ List.infix_of_mem_flatten hts) hr hr2
  calc
    rs.flatMap evaluated = tss.flatMap fun ts => (wordsOf ts).map call :=
      flatMap_eq_of_map_eq hpieces hruns
    _ = (wordsOf tss.flatten).map call := by
      rw [wordsOf_flatten, List.map_flatten, List.map_map]
      rfl
    _ = cmds.map call := by rw [htss, wordsOf_tokens]

theorem mem_receipts {sock : ℕ} {s : RpiServer} {es : List Env} {r : Env × List UInt8}
    (h : r ∈ receipts sock s es) : r.1 ∈ es := by
  induction es generalizing s with
  | nil => exact absurd h List.not_mem_nil
  | cons e es ih =>
      rcases List.mem_append.mp h with h | h
      · obtain ⟨bytes, -, rfl⟩ := Option.map_eq_some_iff.mp (Option.mem_toList.mp h)
        exact List.mem_cons_self
      · exact List.mem_cons_of_mem _ (ih h)

/-- The calls made on a connection whose pieces have been processed, and the pieces that have not
been received. -/
theorem Processed.called_eq {gpioReady : Bool} {d : Device} {now later : ℤ} {es : List Env}
    {sock : ℕ} {pieces : List (List UInt8)}
    (h : Processed sock pieces (RpiServer.startup gpioReady d now later) es) :
    (∃ rest, (receipts sock (RpiServer.startup gpioReady d now later) es).map (·.2) ++ rest =
        pieces) ∧
      called sock (run RpiServer.step (RpiServer.startup gpioReady d now later) es).log =
        (receipts sock (RpiServer.startup gpioReady d now later) es).flatMap fun r =>
          tried gpioReady (evaluated r) := by
  have hrun := called_run sock (RpiServer.startup gpioReady d now later) es
  rcases h with ⟨hall, hdone⟩ | ⟨⟨rest, hrest⟩, c, hc, hfailed⟩
  · rw [hdone] at hrun
    exact ⟨⟨[], (List.append_nil _).trans hall⟩, (List.append_nil _).symm.trans hrun⟩
  · obtain ⟨ev, hev, hcall⟩ := List.mem_filterMap.mp hc
    have hcalled : .called sock c ∈
        (run RpiServer.step (RpiServer.startup gpioReady d now later) es).log := by
      cases ev with
      | called k c' =>
          obtain ⟨rfl, rfl⟩ : k = sock ∧ c' = c := by simpa using hcall
          exact hev
      | _ => cases hcall
    rw [hung_of_failed es rfl hcalled hfailed] at hrun
    exact ⟨⟨rest, hrest⟩, (List.append_nil _).symm.trans hrun⟩

/-- **Commands survive batching exactly if no call is cut.**  On a connection on which the server
processes the stream of `cmds`, in whatever pieces, it executes the calls of `cmds`, each once and
in order, if and only if every piece is a sequence of whole calls and semicolons and the functions
are registered. -/
theorem executed_iff_noCallCut (gpioReady : Bool) (d : Device) (now later : ℤ) (es : List Env)
    (sock : ℕ) (cmds : List Command) (pieces : List (List UInt8))
    (htext : pieces.flatten = stream cmds) (heval : ∀ e ∈ es, Evaluates e.evaluate cmds)
    (hdone : Processed sock pieces (RpiServer.startup gpioReady d now later) es) :
    executed gpioReady sock
        (run RpiServer.step (RpiServer.startup gpioReady d now later) es).log = cmds.map call ↔
      NoCallCut cmds pieces ∧ ∀ c ∈ cmds, c.call.registered gpioReady = true := by
  have heval' : ∀ r ∈ receipts sock (RpiServer.startup gpioReady d now later) es,
      Evaluates r.1.evaluate cmds := fun r hr => heval r.1 (mem_receipts hr)
  obtain ⟨⟨rest, hpieces⟩, hcalled⟩ := hdone.called_eq
  constructor
  · intro h
    rw [executed, hcalled, List.filter_flatMap] at h
    exact noCallCut_of_executed hpieces htext heval' h
  · rintro ⟨hcut, hreg⟩
    have hregistered : ∀ r ∈ receipts sock (RpiServer.startup gpioReady d now later) es,
        ∀ c ∈ evaluated r, c.registered gpioReady = true := fun r hr =>
      registered_of_noCallCut hpieces htext heval' hcut hreg hr
    have hevaluated : called sock
        (run RpiServer.step (RpiServer.startup gpioReady d now later) es).log =
          (receipts sock (RpiServer.startup gpioReady d now later) es).flatMap evaluated := by
      rw [hcalled]
      exact List.flatMap_congr fun r hr => tried_of_registered (hregistered r hr)
    rcases hdone with ⟨hall, -⟩ | ⟨-, c, hc, hfailed⟩
    · rw [executed, hevaluated, List.filter_eq_self.mpr ?_]
      · exact evaluated_of_noCallCut (hall.symm ▸ htext) heval' (hall.symm ▸ hcut)
      · intro c hc
        obtain ⟨r, hr, hmem⟩ := List.mem_flatMap.mp hc
        exact hregistered r hr c hmem
    · rw [hevaluated] at hc
      obtain ⟨r, hr, hmem⟩ := List.mem_flatMap.mp hc
      exact absurd ((hregistered r hr c hmem).symm.trans hfailed) (by decide)

/-- An interpreter for the pieces of a stream: it takes each for the calls and semicolons that it
is, and fails on every piece in which a call is cut. -/
def evaluatePiece (cmds : List Command) (t : List UInt8) : List ScriptCall :=
  match ((tokens cmds).tails.flatMap List.inits).find? fun ts =>
      textOf callText semicolon ts == t with
  | some ts => (wordsOf ts).map call
  | none => [.fatal]

theorem evaluates_evaluatePiece {cmds : List Command}
    (hruns : ∀ ts ∈ (tokens cmds).tails.flatMap List.inits,
      evaluatePiece cmds (textOf callText semicolon ts) = (wordsOf ts).map call) :
    Evaluates (evaluatePiece cmds) cmds where
  runs := by
    rintro ts ⟨front, back, hts⟩
    refine hruns ts (List.mem_flatMap.mpr ⟨ts ++ back, ?_, ?_⟩)
    · exact (List.mem_tails _ _).mpr ⟨front, by rw [← hts, List.append_assoc]⟩
    · exact (List.mem_inits _ _).mpr (List.prefix_append _ _)
  only := by
    intro t _
    rw [evaluatePiece]
    cases hfind : ((tokens cmds).tails.flatMap List.inits).find? fun ts =>
        textOf callText semicolon ts == t with
    | none => exact ⟨[], [.fatal], rfl, Or.inr rfl, trivial⟩
    | some ts =>
        have htext : textOf callText semicolon ts = t := by simpa using List.find?_some hfind
        exact ⟨wordsOf ts, [], (List.append_nil _).symm, Or.inl rfl,
          htext ▸ occurIn_textOf _ _ _⟩

/-- The steps of an update that receives `piece` and then runs a script of `calls` calls. -/
def receives (cmds : List Command) (piece : List Char) (calls : ℕ) : List Env :=
  [{ Env.idle with evaluate := evaluatePiece cmds },
    { Env.idle with evaluate := evaluatePiece cmds, inbox := cstr piece }] ++
    List.replicate (calls + 4) { Env.idle with evaluate := evaluatePiece cmds }

/-- A client is accepted, and its commands arrive in two pieces. -/
def twoPieces (cmds : List Command) (piece : List Char) (calls : ℕ) (piece' : List Char)
    (calls' : ℕ) : List Env :=
  { Env.idle with evaluate := evaluatePiece cmds, accept := some (0, true) } ::
    (receives cmds piece calls ++ receives cmds piece' calls')

theorem evaluate_twoPieces {cmds : List Command} {piece piece' : List Char} {calls calls' : ℕ}
    {e : Env} (he : e ∈ twoPieces cmds piece calls piece' calls') :
    e.evaluate = evaluatePiece cmds := by
  simp only [twoPieces, receives, List.mem_cons, List.mem_append, List.mem_replicate,
    List.not_mem_nil, or_false] at he
  rcases he with rfl | ((rfl | rfl) | ⟨-, rfl⟩) | ((rfl | rfl) | ⟨-, rfl⟩) <;> rfl

/-- A cut in front of a semicolon does no harm. -/
theorem executed_iff_noCallCut_two :
    executed true 1 (run RpiServer.step (RpiServer.startup true .absent 0 0)
      (twoPieces [.setCapturing true, .exit] "v4l2_set_capturing(true)".toList 1
        ";exit();".toList 1)).log = [.v4l2SetCapturing true, .exit] := by
  have heval : Evaluates (evaluatePiece [.setCapturing true, .exit]) [.setCapturing true, .exit] :=
    evaluates_evaluatePiece (by decide +kernel)
  refine (executed_iff_noCallCut true .absent 0 0 _ 1 [.setCapturing true, .exit]
    [cstr "v4l2_set_capturing(true)".toList, cstr ";exit();".toList] ?_ ?_ ?_).mpr ⟨?_, ?_⟩
  · decide +kernel
  · intro e he
    exact evaluate_twoPieces he ▸ heval
  · exact Or.inl (by decide +kernel)
  · exact ⟨[[.word (.setCapturing true)], [.sep, .word .exit, .sep]], rfl, by decide +kernel⟩
  · decide

/-- The network cuts a command between its name and its argument.  The first piece is no program;
its evaluation ends in the fatal handler, the command is lost and the server hangs. -/
theorem executed_loses_cut_call :
    let cmds : List Command := [.setCapturing true]
    let pieces := [cstr "v4l2_set_capturing(".toList, cstr "true);".toList]
    let es := twoPieces cmds "v4l2_set_capturing(".toList 0 "true);".toList 0
    let start := RpiServer.startup true .absent 0 0
    pieces.flatten = stream cmds ∧ (∀ e ∈ es, Evaluates e.evaluate cmds) ∧
      Processed 1 pieces start es ∧ (run RpiServer.step start es).phase = .hung ∧
      executed true 1 (run RpiServer.step start es).log ≠ cmds.map call := by
  intro cmds pieces es start
  have heval : Evaluates (evaluatePiece cmds) cmds := evaluates_evaluatePiece (by decide +kernel)
  refine ⟨by decide +kernel, ?_, by decide +kernel, by decide +kernel, by decide +kernel⟩
  intro e he
  exact evaluate_twoPieces he ▸ heval

end MKart.System
