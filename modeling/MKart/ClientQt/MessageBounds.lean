import MKart.Lib.ShortCircuit
import MKart.ClientQt.Fpv
import MKart.ClientQt.Representation

/-!
# The bytes that a frame handler touches

`FpvContext::update` compares the front of a message with `JPEG` without looking at the length of
the message, and hands on everything behind the first four bytes.  `accesses` is what one update
touches of a message: the offsets read by `is_4cc` and the range passed to `on_recieve_jpeg`.

They lie inside the message unless the message is a proper prefix of `JPEG`.  Whether the next
update completes such a message can be seen from the bytes stored and the bytes available before
it (`ShortTag`), and a run stays inside its messages exactly if no update of it does.
-/

namespace MKart.ClientQt.MessageBounds

open MKart.Bytes MKart.Runs MKart.ShortCircuit MKart.ClientQt.Representation

def jpegTag : List UInt8 := cstr "JPEG".toList

/-- What one update touches of a message of `msgLen` bytes. -/
structure Accesses where
  msgLen : ℕ
  /-- The offsets that `is_4cc` reads. -/
  reads : List ℕ
  /-- The offset and the length passed to `on_recieve_jpeg`. -/
  handed : Option (ℕ × ℕ)
  deriving DecidableEq, Repr

structure Accesses.Inside (a : Accesses) : Prop where
  reads : ∀ i ∈ a.reads, i < a.msgLen
  handed : ∀ r ∈ a.handed, 4 ≤ a.msgLen ∧ r.1 + r.2 ≤ a.msgLen

/-- The offsets read by `c[0] == a && c[1] == b && c[2] == c' && c[3] == d`. -/
def is4ccReads (p : ℕ → UInt8) (a b c' d : Char) : List ℕ :=
  touched (cstr [a, b, c', d]) p

/-- What an update does with a message. -/
def accesses (env : FpvEnv) (msg : List UInt8) : Accesses where
  msgLen := msg.length
  reads := is4ccReads (FpvContext.msgPtr env msg) 'J' 'P' 'E' 'G'
  handed :=
    if FpvContext.is4cc (FpvContext.msgPtr env msg) 'J' 'P' 'E' 'G' then
      some (4, (((msg.length : ℤ) - 4) % 2 ^ 32).toNat)
    else none

theorem is4cc_eq_equal (p : ℕ → UInt8) (a b c' d : Char) :
    FpvContext.is4cc p a b c' d = equal (cstr [a, b, c', d]) p := by
  simp only [FpvContext.is4cc, equal, cstr, List.map_cons, List.map_nil, Bool.and_true,
    Bool.and_assoc]

/-- `is_4cc` depends on no other byte than those at `is4ccReads`. -/
theorem is4cc_congr {p q : ℕ → UInt8} {a b c' d : Char}
    (h : ∀ i ∈ is4ccReads p a b c' d, p i = q i) :
    FpvContext.is4cc p a b c' d = FpvContext.is4cc q a b c' d := by
  rw [is4cc_eq_equal, is4cc_eq_equal, equal_congr _ h]

theorem accesses_inside_iff (env : FpvEnv) (msg : List UInt8) :
    (accesses env msg).Inside ↔ ¬ ProperPrefix msg jpegTag := by
  have hreads : (∀ i ∈ (accesses env msg).reads, i < msg.length) ↔ ¬ ProperPrefix msg jpegTag :=
    touched_inside_iff jpegTag msg env.heap
  constructor
  · intro h
    exact hreads.mp h.reads
  · intro h
    refine ⟨hreads.mpr h, ?_⟩
    intro r hr
    unfold accesses at hr ⊢
    dsimp only at hr ⊢
    split at hr
    · rename_i h4cc
      rw [is4cc_eq_equal] at h4cc
      have hfour : 3 < msg.length := hreads.mpr h 3 (mem_touched_of_equal h4cc (by decide))
      obtain rfl : (4, (((msg.length : ℤ) - 4) % 2 ^ 32).toNat) = r := Option.some.inj hr
      have hle : ((msg.length : ℤ) - 4) % 2 ^ 32 ≤ (msg.length : ℤ) - 4 := by omega
      dsimp only
      omega
    · cases hr

/-- The range recorded is the one that `update` passes on. -/
theorem update_handed (env : FpvEnv) (c : FpvContext) {msg : List UInt8}
    (h : (c.update env).2 = some msg) :
    (c.update env).1 =
      let c := { c with tcp := (Tcp.readMessage (Tcp.update QTcpSocket.read c.tcp)).1 }
      match (accesses env msg).handed with
      | none => c
      | some r => c.onRecieveJpeg env (fun i => FpvContext.msgPtr env msg (r.1 + i)) r.2 := by
  unfold FpvContext.update at h ⊢
  generalize Tcp.readMessage (Tcp.update QTcpSocket.read c.tcp) = r at h
  obtain ⟨tcp, result⟩ := r
  cases result with
  | none => cases h
  | some msg' =>
      dsimp only at h ⊢
      obtain rfl : msg' = msg := by
        split at h
        · exact Option.some.inj h
        · exact Option.some.inj h
      unfold accesses
      dsimp only
      split
      · rfl
      · rfl

/-! ### Runs -/

inductive Event
  /-- Whatever happens on the network, and connecting and disconnecting: the socket changes. -/
  | socket (sock : QTcpSocket)
  | update (env : FpvEnv)

/-- The context and what its updates have touched. -/
structure Monitor where
  ctx : FpvContext
  log : List Accesses

def init : Monitor where
  ctx := FpvContext.init
  log := []

def step (s : Monitor) : Event → Monitor
  | .socket sock => { s with ctx := { s.ctx with tcp := { s.ctx.tcp with sock := sock } } }
  | .update env =>
      { ctx := (s.ctx.update env).1
        log := s.log ++ ((s.ctx.update env).2.map (accesses env)).toList }

def Monitor.AccessesInside (s : Monitor) : Prop := ∀ a ∈ s.log, a.Inside

/-- The message that the next poll completes: what is stored of it, and the bytes available up to
its end. -/
def nextMessage (d : TcpPrivate) : Option (List UInt8) :=
  if d.sock.state = .connectedState ∧ 0 < d.messageRemain ∧
      d.messageRemain.toNat ≤ d.sock.buf.length then
    some (d.messageBuffer.take (d.messageBuffer.length - d.messageRemain.toNat) ++
      d.sock.buf.take d.messageRemain.toNat)
  else none

/-- The update does not complete a message that is a proper prefix of `JPEG`. -/
def NoShortTag (s : Monitor) : Event → Prop
  | .socket _ => True
  | .update _ => ∀ msg ∈ nextMessage s.ctx.tcp, ¬ ProperPrefix msg jpegTag

/-- Between updates no message is waiting, and the parser's fields are in order. -/
structure Settled (s : Monitor) : Prop where
  unready : s.ctx.tcp.messageReady = false
  inv : ∃ since, Inv ⟨s.ctx.tcp, since⟩

/-- The documented `read`, which stores no more than was asked for. -/
def documentedRead : BoundedRead where
  read := QTcpSocket.read
  length_le := by
    intro sock maxlen bytes h
    obtain rfl : sock.buf.take maxlen = bytes := Option.some.inj h
    exact List.length_take_le _ _

theorem readMessage_unready (d : TcpPrivate) : (Tcp.readMessage d).1.messageReady = false := by
  unfold Tcp.readMessage
  split
  · assumption
  · rfl

theorem settled_init : Settled init where
  unready := rfl
  inv := ⟨[], inv_init []⟩

theorem settled_step {s : Monitor} (h : Settled s) (ev : Event) : Settled (step s ev) := by
  obtain ⟨since, hinv⟩ := h.inv
  cases ev with
  | socket sock => exact ⟨h.unready, since, hinv.socket sock s.ctx.tcp.state⟩
  | update env =>
      have htcp := (FpvContext.update_tcp env s.ctx).1
      constructor
      · show (s.ctx.update env).1.tcp.messageReady = false
        rw [htcp]
        exact readMessage_unready _
      · have hpolled := inv_readMessage (inv_update hinv documentedRead)
        refine ⟨(Representation.step ⟨s.ctx.tcp, since⟩ (.update documentedRead)).since, ?_⟩
        show Inv ⟨(s.ctx.update env).1.tcp, _⟩
        rw [htcp]
        exact hpolled

/-- A poll that is inside a body and finds the rest of it completes the message. -/
theorem update_completes {d : TcpPrivate} (hconn : d.sock.state = .connectedState)
    (hpos : 0 < d.messageRemain) (hle : d.messageRemain ≤ d.messageBuffer.length)
    (hrest : d.messageRemain.toNat ≤ d.sock.buf.length) :
    (Tcp.readMessage (d.update QTcpSocket.read)).2 =
      some (d.messageBuffer.take (d.messageBuffer.length - d.messageRemain.toNat) ++
        d.sock.buf.take d.messageRemain.toNat) := by
  have hne : d.sock.buf ≠ [] := List.ne_nil_of_length_pos (by omega)
  have hget : (d.sock.buf.take d.messageRemain.toNat).length = d.messageRemain.toNat := by
    rw [List.length_take]
    omega
  have hdone : d.messageRemain - ((d.sock.buf.take d.messageRemain.toNat).length : ℕ) = 0 := by
    rw [hget]
    omega
  have hoff : ((d.messageBuffer.length : ℤ) - d.messageRemain).toNat =
      d.messageBuffer.length - d.messageRemain.toNat := by
    omega
  have hbehind : d.messageBuffer.drop (d.messageBuffer.length - d.messageRemain.toNat +
      (d.sock.buf.take d.messageRemain.toNat).length) = [] :=
    List.drop_of_length_le (by omega)
  rw [TcpPrivate.update_body hconn hpos hne]
  simp only [hdone, if_true, hoff, Tcp.readMessage, overwrite, hbehind, List.append_nil,
    Bool.true_eq_false, if_false]

/-- Any other poll leaves a reader without a message as it is. -/
theorem update_silent {d : TcpPrivate} (hunready : d.messageReady = false)
    (h : nextMessage d = none) : (d.update QTcpSocket.read).messageReady = false := by
  by_cases hconn : d.sock.state = .connectedState
  · by_cases hbuf : d.sock.buf = []
    · rw [TcpPrivate.update_idle _ hconn hbuf]
      exact hunready
    · by_cases hpos : 0 < d.messageRemain
      · have hshort : d.sock.buf.length < d.messageRemain.toNat := by
          by_contra hrest
          rw [nextMessage, if_pos ⟨hconn, hpos, by omega⟩] at h
          cases h
        have hmore : d.messageRemain -
            ((d.sock.buf.take d.messageRemain.toNat).length : ℕ) ≠ 0 := by
          rw [List.length_take]
          omega
        rw [TcpPrivate.update_body hconn hpos hbuf]
        simp only [hmore, if_false, hunready]
      · by_cases hlen : 4 ≤ d.sock.buf.length
        · rw [TcpPrivate.update_length hconn (by omega) hlen]
        · rw [TcpPrivate.update_short hconn (by omega) hbuf (by omega)]
          exact hunready
  · rw [TcpPrivate.update_not_connected _ hconn]
    exact hunready

/-- **An update handles the message that can be seen coming**, and no other. -/
theorem update_message {s : Monitor} (h : Settled s) (env : FpvEnv) :
    (s.ctx.update env).2 = nextMessage s.ctx.tcp := by
  obtain ⟨since, hinv⟩ := h.inv
  rw [(FpvContext.update_tcp env s.ctx).2]
  cases hnext : nextMessage s.ctx.tcp with
  | none =>
      have hsilent := update_silent h.unready hnext
      rw [Tcp.readMessage, if_pos hsilent]
  | some msg =>
      have hnext' := hnext
      unfold nextMessage at hnext'
      split at hnext'
      · rename_i hcomes
        obtain ⟨hconn, hpos, hrest⟩ := hcomes
        rw [update_completes hconn hpos hinv.le_size hrest]
        exact hnext'
      · cases hnext'

theorem step_inside_iff {s : Monitor} (h : Settled s) (hlog : s.AccessesInside) (ev : Event) :
    (step s ev).AccessesInside ↔ NoShortTag s ev := by
  cases ev with
  | socket sock => exact iff_of_true hlog trivial
  | update env =>
      have hmsg := update_message h env
      simp only [step, Monitor.AccessesInside, NoShortTag, hmsg, List.forall_mem_append]
      cases hnext : nextMessage s.ctx.tcp with
      | none =>
          simp only [Option.map_none, Option.toList_none, List.not_mem_nil, Option.mem_def]
          exact iff_of_true ⟨hlog, fun a ha => absurd ha not_false⟩ fun msg hm => by cases hm
      | some msg =>
          simp only [Option.map_some, Option.toList_some, List.forall_mem_singleton,
            Option.mem_def, Option.some.injEq, forall_eq']
          rw [accesses_inside_iff]
          exact and_iff_right hlog

/-- **A run stays inside its messages exactly if none of its updates completes a proper prefix of
`JPEG`.** -/
theorem accesses_inside_run_iff (events : List Event) :
    Always step Monitor.AccessesInside init events ↔ Meets step NoShortTag init events := by
  have hinit : Settled init ∧ init.AccessesInside := ⟨settled_init, by simp [init,
    Monitor.AccessesInside]⟩
  have hkeep : ∀ s ev, (Settled s ∧ s.AccessesInside) → NoShortTag s ev →
      Settled (step s ev) ∧ (step s ev).AccessesInside := fun s ev h hshort =>
    ⟨settled_step h.1 ev, (step_inside_iff h.1 h.2 ev).mpr hshort⟩
  constructor
  · exact meets_of_always hkeep (fun s ev h hshort hinside =>
      hshort ((step_inside_iff h.1 h.2 ev).mp hinside)) hinit
  · intro h
    exact (always_of_meets hkeep hinit h).imp fun s hs => hs.2

/-- The server sends the frame of the one byte `J`: the comparison goes on to the byte behind it. -/
def oneCharacter : List Event :=
  let env : FpvEnv := ⟨fun _ => 0, fun _ _ => none⟩
  [.socket ⟨.connectedState, [1, 0, 0, 0, 74]⟩, .update env, .update env]

theorem oneCharacter_outside : ¬ Always step Monitor.AccessesInside init oneCharacter := by
  intro h
  have hlog : (⟨1, [0, 1], none⟩ : Accesses) ∈ (run step init oneCharacter).log := by decide
  have hinside := (h.last _ hlog).reads 1 (by decide)
  exact absurd hinside (by decide)

end MKart.ClientQt.MessageBounds
