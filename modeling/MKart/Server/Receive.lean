import MKart.Lib.Loops
import MKart.ClientQt.Archive
import MKart.Server.RpiServer

/-!
# Receiving commands

The loop of `RpiServer::receive_commands`, with its buffer and its archive, over a socket of which
only the functions are known that it calls.  The loop receives the sizes of `readSizes`, one after
another (`gather`); `RpiServer.receiveCommands` is what becomes of that on the socket that the step
machine sees.

`calls`, `evaluated` and `resets` record what the call does and are read by no step.
-/

namespace MKart.Server.Receive

open MKart.ClientQt MKart.Loops

/-- `sizeof(m_read_buf)`. -/
def bufSize : ℕ := 8

/-- `*m_sock_peer`, whose states are the `ω`. -/
structure Socket (ω : Type*) where
  available : ω → ℕ
  /-- The bytes that a `receive` of at most this many yields; `none` for an error. -/
  receive : ℕ → ω → Option (List UInt8) × ω
  /-- The bytes that the peer has sent or is going to send, and that have not been received. -/
  unread : ω → List UInt8

/-- What is promised of a socket: with enough bytes available a `receive` fails or yields the next
ones, and what remains of them stays available. -/
structure Socket.Delivers {ω : Type*} (net : Socket ω) : Prop where
  available_le : ∀ w, net.available w ≤ (net.unread w).length
  receive : ∀ k w, 0 < k → k ≤ net.available w → (net.receive k w).1 = none ∨
    ((net.receive k w).1 = some ((net.unread w).take k) ∧
      net.unread (net.receive k w).2 = (net.unread w).drop k ∧
      net.available w - k ≤ net.available (net.receive k w).2)

/-- The fields that `receive_commands` uses, and what it has done. -/
structure Batch (ω : Type*) where
  sock : ω
  readBuf : List UInt8
  outArch : MemOutputArchive
  /-- The sizes passed to `receive`, each with whether it worked. -/
  calls : List (ℕ × Bool)
  /-- What has been passed to `duk_peval_string_noresult`. -/
  evaluated : List (List UInt8)
  /-- The calls of `handle_error`. -/
  resets : ℕ

variable {ω : Type*}

namespace Batch

def start (sock : ω) (readBuf : List UInt8) (outArch : MemOutputArchive) : Batch ω where
  sock := sock
  readBuf := readBuf
  outArch := outArch
  calls := []
  evaluated := []
  resets := 0

def handleError (b : Batch ω) : Batch ω := { b with resets := b.resets + 1 }

/-- `m_sock_peer->receive(asio::buffer(m_read_buf, k), 0, err)`. -/
def receive (net : Socket ω) (k : ℕ) (b : Batch ω) : Batch ω × Option ℕ :=
  match net.receive k b.sock with
  | (none, sock) => ({ b with sock := sock, calls := b.calls ++ [(k, false)] }, none)
  | (some bytes, sock) =>
      ({ b with
          sock := sock
          readBuf := bytes ++ b.readBuf.drop bytes.length
          calls := b.calls ++ [(k, true)] }, some bytes.length)

/-- The loop that writes the received bytes to the archive. -/
def writeBytes (recv : ℕ) (b : Batch ω) : Batch ω :=
  { b with outArch := (b.readBuf.take recv).foldl (fun a x => a.write .uint8 x) b.outArch }

/-- The terminator, and the call of the interpreter with the whole buffer. -/
def evaluate (b : Batch ω) : Batch ω :=
  let outArch := b.outArch.write .uint8 (0 : UInt8)
  { b with outArch := outArch, evaluated := b.evaluated ++ [outArch.bytes] }

end Batch

/-- One pass of the `while`.  It stops with the batch where the function returns, and with the
batch and the rest of `avail` where the condition fails. -/
def chunk (net : Socket ω) (s : ℕ × Batch ω) : (ℕ × Batch ω) ⊕ (Batch ω ⊕ ℕ × Batch ω) :=
  if bufSize < s.1 then
    match s.2.receive net bufSize with
    | (b, some recv) => .inl (s.1 - bufSize, b.writeBytes recv)
    | (b, none) => .inr (.inl b.handleError)
  else .inr (.inr s)

/-- What follows the `while`. -/
def remainder (net : Socket ω) (avail : ℕ) (b : Batch ω) : Batch ω :=
  if 0 < avail then
    match b.receive net avail with
    | (b, some recv) => (b.writeBytes recv).evaluate
    | (b, none) => b.handleError
  else b.evaluate

/-- `RpiServer::receive_commands`, with a bound on the passes of its loop. -/
def receiveCommands (net : Socket ω) (passes : ℕ) (b : Batch ω) : Option (Batch ω) :=
  let avail := net.available b.sock
  if avail = 0 then some b
  else
    (loop (chunk net) passes (avail, { b with outArch := b.outArch.reset })).map fun
      | .inl b => b
      | .inr (avail, b) => remainder net avail b

/-! ### Single operations -/

variable {net : Socket ω} {b : Batch ω}

theorem writes_bytes (xs : List UInt8) (a : MemOutputArchive) :
    (xs.foldl (fun a x => a.write .uint8 x) a).bytes = a.bytes ++ xs := by
  induction xs generalizing a with
  | nil => exact (List.append_nil _).symm
  | cons x xs ih =>
      rw [List.foldl_cons, ih, MemOutputArchive.write_bytes, IntType.bytes_uint8,
        List.append_assoc]
      rfl

theorem receive_none {k : ℕ} {sock : ω} (h : net.receive k b.sock = (none, sock)) :
    ∃ b', b.receive net k = (b', none) ∧ b'.calls = b.calls ++ [(k, false)] ∧
      b'.evaluated = b.evaluated ∧ b'.resets = b.resets := by
  rw [Batch.receive, h]
  exact ⟨_, rfl, rfl, rfl, rfl⟩

/-- The bytes that a `receive` yields are those that end up in the archive. -/
theorem receive_some {k : ℕ} {sock : ω} {bytes : List UInt8}
    (h : net.receive k b.sock = (some bytes, sock)) :
    ∃ b', b.receive net k = (b', some bytes.length) ∧ b'.calls = b.calls ++ [(k, true)] ∧
      b'.evaluated = b.evaluated ∧ b'.resets = b.resets ∧ b'.sock = sock ∧
      (b'.writeBytes bytes.length).outArch.bytes = b.outArch.bytes ++ bytes := by
  rw [Batch.receive, h]
  refine ⟨_, rfl, rfl, rfl, rfl, rfl, ?_⟩
  rw [Batch.writeBytes, writes_bytes, List.take_left]

/-- A `receive` of no more than is available fails, or appends the next bytes. -/
theorem receive_cases (hnet : net.Delivers) {k : ℕ} (hpos : 0 < k)
    (hk : k ≤ net.available b.sock) :
    (∃ b', b.receive net k = (b', none) ∧ b'.calls = b.calls ++ [(k, false)] ∧
      b'.evaluated = b.evaluated ∧ b'.resets = b.resets) ∨
    ∃ b', b.receive net k = (b', some k) ∧ b'.calls = b.calls ++ [(k, true)] ∧
      b'.evaluated = b.evaluated ∧ b'.resets = b.resets ∧
      (b'.writeBytes k).outArch.bytes = b.outArch.bytes ++ (net.unread b.sock).take k ∧
      net.unread b'.sock = (net.unread b.sock).drop k ∧
      net.available b.sock - k ≤ net.available b'.sock := by
  rcases hreceive : net.receive k b.sock with ⟨result, sock⟩
  have hdelivers := hnet.receive k b.sock hpos hk
  rw [hreceive] at hdelivers
  rcases hdelivers with rfl | ⟨rfl, hunread, hstays⟩
  · exact Or.inl (receive_none hreceive)
  · have hlen : ((net.unread b.sock).take k).length = k :=
      List.length_take_of_le (hk.trans (hnet.available_le b.sock))
    obtain ⟨b', hb', hcalls, hevaluated, hresets, rfl, hbytes⟩ := receive_some hreceive
    rw [hlen] at hb' hbytes
    exact Or.inr ⟨b', hb', hcalls, hevaluated, hresets, hbytes, hunread, hstays⟩

/-! ### The loop -/

theorem readSizes_of_lt {n : ℕ} (h : bufSize < n) :
    RpiServer.readSizes n = bufSize :: RpiServer.readSizes (n - bufSize) := by
  have h : 8 < n := h
  have hq : (n - 1) / 8 = (n - 8 - 1) / 8 + 1 := by omega
  have hr : n - ((n - 8 - 1) / 8 + 1) * 8 = n - 8 - (n - 8 - 1) / 8 * 8 := by omega
  show List.replicate ((n - 1) / 8) 8 ++ [n - (n - 1) / 8 * 8] =
    8 :: (List.replicate ((n - 8 - 1) / 8) 8 ++ [n - 8 - (n - 8 - 1) / 8 * 8])
  rw [hq, hr, List.replicate_succ, List.cons_append]

theorem readSizes_of_le {n : ℕ} (hpos : 0 < n) (h : n ≤ bufSize) :
    RpiServer.readSizes n = [n] := by
  have h : n ≤ 8 := h
  have hq : (n - 1) / 8 = 0 := by omega
  rw [RpiServer.readSizes, hq, Nat.zero_mul, Nat.sub_zero]
  rfl

/-- The `receive` calls of these sizes, each followed by the writing of what it yields. -/
def gather (net : Socket ω) : List ℕ → Batch ω → Batch ω
  | [], b => b.evaluate
  | k :: ks, b =>
      match b.receive net k with
      | (b, some recv) => gather net ks (b.writeBytes recv)
      | (b, none) => b.handleError

/-- One pass takes the first size: it goes on with those of what is left, or stops where `remainder`
takes the last one. -/
theorem chunk_gather (net : Socket ω) {avail : ℕ} (hpos : 0 < avail) (b : Batch ω) :
    (∃ s, chunk net (avail, b) = .inl s ∧ 0 < s.1 ∧ s.1 < avail ∧
      gather net (RpiServer.readSizes s.1) s.2 = gather net (RpiServer.readSizes avail) b) ∨
    ∃ r, chunk net (avail, b) = .inr r ∧
      r.elim id (fun s => remainder net s.1 s.2) = gather net (RpiServer.readSizes avail) b := by
  by_cases hmore : bufSize < avail
  · rw [chunk, if_pos hmore, readSizes_of_lt hmore, gather]
    rcases b.receive net bufSize with ⟨b', _ | recv⟩
    · exact Or.inr ⟨_, rfl, rfl⟩
    · exact Or.inl ⟨_, rfl, Nat.sub_pos_of_lt hmore, Nat.sub_lt hpos (by decide), rfl⟩
  · rw [chunk, if_neg hmore, readSizes_of_le hpos (not_lt.mp hmore), gather]
    refine Or.inr ⟨_, rfl, ?_⟩
    show remainder net avail b = _
    rw [remainder, if_pos hpos]
    rfl

/-- **The loop ends, and has made the calls of `readSizes`.** -/
theorem receiveCommands_eq_gather (net : Socket ω) (b : Batch ω)
    (havail : 0 < net.available b.sock) {passes : ℕ} (hpasses : net.available b.sock < passes) :
    receiveCommands net passes b =
      some (gather net (RpiServer.readSizes (net.available b.sock))
        { b with outArch := b.outArch.reset }) := by
  set final := gather net (RpiServer.readSizes (net.available b.sock))
    { b with outArch := b.outArch.reset } with hfinal
  have hon : ∀ s s' : ℕ × Batch ω,
      0 < s.1 ∧ gather net (RpiServer.readSizes s.1) s.2 = final → chunk net s = .inl s' →
      (0 < s'.1 ∧ gather net (RpiServer.readSizes s'.1) s'.2 = final) ∧ s'.1 < s.1 := by
    intro s s' ⟨hpos, hgather⟩ hchunk
    rcases chunk_gather net hpos s.2 with ⟨t, ht, hleft, hlt, hrest⟩ | ⟨r, hr, -⟩
    · obtain rfl := Sum.inl.inj (ht.symm.trans hchunk)
      exact ⟨⟨hleft, hrest.trans hgather⟩, hlt⟩
    · cases hr.symm.trans hchunk
  have hstop : ∀ (s : ℕ × Batch ω) (r : Batch ω ⊕ ℕ × Batch ω),
      0 < s.1 ∧ gather net (RpiServer.readSizes s.1) s.2 = final → chunk net s = .inr r →
      r.elim id (fun s => remainder net s.1 s.2) = final := by
    intro s r ⟨hpos, hgather⟩ hchunk
    rcases chunk_gather net hpos s.2 with ⟨t, ht, -⟩ | ⟨r', hr, hrest⟩
    · cases ht.symm.trans hchunk
    · obtain rfl := Sum.inr.inj (hr.symm.trans hchunk)
      exact hrest.trans hgather
  obtain ⟨r, hr, hloop⟩ := loop_total Prod.fst hon hstop
    (s := (net.available b.sock, { b with outArch := b.outArch.reset })) ⟨havail, hfinal.symm⟩
  rw [receiveCommands, if_neg havail.ne', hloop passes hpasses, ← hr]
  cases r with
  | inl b => rfl
  | inr s => rfl

/-! ### What is assembled -/

/-- The calls so far have all worked, and were of sizes that fit the buffer. -/
def Working (b : Batch ω) : Prop :=
  (∀ c ∈ b.calls, (0 < c.1 ∧ c.1 ≤ bufSize) ∧ c.2 = true) ∧ b.evaluated = [] ∧ b.resets = 0

/-- A `receive` has failed. -/
structure Aborted (b : Batch ω) : Prop where
  calls : ∀ c ∈ b.calls, 0 < c.1 ∧ c.1 ≤ bufSize
  failure : ∃ c ∈ b.calls, c.2 = false
  evaluated : b.evaluated = []
  resets : b.resets = 1

/-- The batch has been evaluated as `text`, and `rest` is left to be received. -/
structure Evaluated (net : Socket ω) (text rest : List UInt8) (b : Batch ω) : Prop where
  calls : ∀ c ∈ b.calls, (0 < c.1 ∧ c.1 ≤ bufSize) ∧ c.2 = true
  evaluated : b.evaluated = [text]
  unread : net.unread b.sock = rest
  resets : b.resets = 0

/-- One `receive`: the batch is given up, or has so much more of the stream. -/
theorem Working.receive (hnet : net.Delivers) (h : Working b) {k : ℕ} (hpos : 0 < k)
    (hbuf : k ≤ bufSize) (hk : k ≤ net.available b.sock) :
    (∃ b', b.receive net k = (b', none) ∧ Aborted b'.handleError) ∨
    ∃ b', b.receive net k = (b', some k) ∧ Working (b'.writeBytes k) ∧
      (b'.writeBytes k).outArch.bytes = b.outArch.bytes ++ (net.unread b.sock).take k ∧
      net.unread b'.sock = (net.unread b.sock).drop k ∧
      net.available b.sock - k ≤ net.available b'.sock := by
  obtain ⟨hworked, hnothing, hkept⟩ := h
  rcases receive_cases hnet hpos hk with
    ⟨b', hreceive, hcalls, hevaluated, hresets⟩ |
    ⟨b', hreceive, hcalls, hevaluated, hresets, hbytes, hunread, hstays⟩
  · refine Or.inl ⟨b', hreceive, ?_, ⟨(k, false), ?_, rfl⟩, hevaluated.trans hnothing, ?_⟩
    · intro c hc
      have hc : c ∈ b'.calls := hc
      rw [hcalls, List.mem_append, List.mem_singleton] at hc
      rcases hc with hc | rfl
      · exact (hworked c hc).1
      · exact ⟨hpos, hbuf⟩
    · show (k, false) ∈ b'.calls
      rw [hcalls]
      exact List.mem_append_right _ (List.mem_singleton_self _)
    · show b'.resets + 1 = 1
      rw [hresets, hkept]
  · refine Or.inr ⟨b', hreceive, ⟨?_, hevaluated.trans hnothing, hresets.trans hkept⟩, hbytes,
      hunread, hstays⟩
    intro c hc
    have hc : c ∈ b'.calls := hc
    rw [hcalls, List.mem_append, List.mem_singleton] at hc
    rcases hc with hc | rfl
    · exact hworked c hc
    · exact ⟨⟨hpos, hbuf⟩, rfl⟩

theorem Working.evaluate (h : Working b) :
    Evaluated net (b.outArch.bytes ++ [0]) (net.unread b.sock) b.evaluate := by
  obtain ⟨hworked, hnothing, hkept⟩ := h
  refine ⟨hworked, ?_, rfl, hkept⟩
  show b.evaluated ++ [b.outArch.bytes ++ IntType.bytes .uint8 (0 : UInt8)] = _
  rw [hnothing, IntType.bytes_uint8, List.nil_append]

/-- The sizes of `readSizes` take exactly `n` bytes, by induction on the full buffers in them. -/
theorem gather_readSizes (hnet : net.Delivers) {n : ℕ} (hpos : 0 < n) (h : Working b)
    (hn : n ≤ net.available b.sock) :
    Aborted (gather net (RpiServer.readSizes n) b) ∨
      Evaluated net (b.outArch.bytes ++ (net.unread b.sock).take n ++ [0])
        ((net.unread b.sock).drop n) (gather net (RpiServer.readSizes n) b) := by
  induction n using Nat.strong_induction_on generalizing b with
  | _ n ih =>
      by_cases hmore : bufSize < n
      · rw [readSizes_of_lt hmore, gather]
        have hbuf : 0 < bufSize := by decide
        rcases h.receive hnet hbuf le_rfl (hmore.le.trans hn) with ⟨b', hreceive, haborted⟩ |
          ⟨b', hreceive, hworking, hbytes, hunread, hstays⟩
        · rw [hreceive]
          exact Or.inl haborted
        · rw [hreceive]
          have hsplit : n = bufSize + (n - bufSize) := by omega
          have hrest := ih (n - bufSize) (Nat.sub_lt hpos hbuf) (Nat.sub_pos_of_lt hmore) hworking
            ((Nat.sub_le_sub_right hn bufSize).trans hstays)
          have hsock : (b'.writeBytes bufSize).sock = b'.sock := rfl
          rw [hbytes, hsock, hunread, List.append_assoc b.outArch.bytes, ← List.take_add,
            List.drop_drop, ← hsplit] at hrest
          exact hrest
      · rw [readSizes_of_le hpos (not_lt.mp hmore), gather]
        rcases h.receive hnet hpos (not_lt.mp hmore) hn with ⟨b', hreceive, haborted⟩ |
          ⟨b', hreceive, hworking, hbytes, hunread, -⟩
        · rw [hreceive]
          exact Or.inl haborted
        · rw [hreceive, ← hbytes, ← hunread]
          exact Or.inr hworking.evaluate

/-- What a call makes of the bytes available on a socket. -/
structure Assembled (net : Socket ω) (w : ω) (b : Batch ω) : Prop where
  sizes : ∀ c ∈ b.calls, 0 < c.1 ∧ c.1 ≤ bufSize
  /-- If no `receive` fails, the available bytes are evaluated, and the later ones are unread. -/
  complete : (∀ c ∈ b.calls, c.2 = true) →
    b.evaluated = [(net.unread w).take (net.available w) ++ [0]] ∧
      net.unread b.sock = (net.unread w).drop (net.available w) ∧ b.resets = 0
  failed : (∃ c ∈ b.calls, c.2 = false) → b.evaluated = [] ∧ b.resets = 1

theorem Aborted.assembled {w : ω} (h : Aborted b) : Assembled net w b where
  sizes := h.calls
  complete := fun hall => by
    obtain ⟨c, hc, hfalse⟩ := h.failure
    rw [hall c hc] at hfalse
    cases hfalse
  failed := fun _ => ⟨h.evaluated, h.resets⟩

theorem Evaluated.assembled {w : ω}
    (h : Evaluated net ((net.unread w).take (net.available w) ++ [0])
      ((net.unread w).drop (net.available w)) b) : Assembled net w b where
  sizes := fun c hc => (h.calls c hc).1
  complete := fun _ => ⟨h.evaluated, h.unread, h.resets⟩
  failed := fun ⟨c, hc, hfalse⟩ => by
    rw [(h.calls c hc).2] at hfalse
    cases hfalse

/-- **A call returns, and has assembled exactly what was available.** -/
theorem receiveCommands_assembles (net : Socket ω) (hnet : net.Delivers) (w : ω)
    (readBuf : List UInt8) (outArch : MemOutputArchive) (havail : 0 < net.available w) :
    ∃ b, Assembled net w b ∧ ∀ passes, net.available w < passes →
      receiveCommands net passes (Batch.start w readBuf outArch) = some b := by
  refine ⟨_, ?_, fun passes hpasses =>
    receiveCommands_eq_gather net (Batch.start w readBuf outArch) havail hpasses⟩
  have hworking : Working { Batch.start w readBuf outArch with outArch := outArch.reset } :=
    ⟨fun c hc => absurd hc List.not_mem_nil, rfl, rfl⟩
  rcases gather_readSizes hnet havail hworking le_rfl with haborted | hevaluated
  · exact haborted.assembled
  · exact hevaluated.assembled

/-- A connection on which some bytes have arrived and others are coming, and the outcomes of the
next calls of `receive`. -/
structure Line where
  arrived : List UInt8
  coming : List UInt8
  works : List Bool

def line : Socket Line where
  available l := l.arrived.length
  receive k l :=
    match l.works with
    | false :: works => (none, { l with works := works })
    | works => (some (l.arrived.take k), ⟨l.arrived.drop k, l.coming, works.tail⟩)
  unread l := l.arrived ++ l.coming

theorem line_delivers : line.Delivers where
  available_le := fun l => by
    show l.arrived.length ≤ (l.arrived ++ l.coming).length
    rw [List.length_append]
    exact Nat.le_add_right _ _
  receive := fun k l _ hk => by
    have hk : k ≤ l.arrived.length := hk
    have hworks : line.receive k l =
          (some (l.arrived.take k), ⟨l.arrived.drop k, l.coming, l.works.tail⟩) ∨
        (line.receive k l).1 = none := by
      obtain ⟨arrived, coming, works⟩ := l
      cases works with
      | nil => exact Or.inl rfl
      | cons work works => cases work <;> simp [line]
    rcases hworks with hworks | hfails
    · rw [hworks]
      refine Or.inr ⟨?_, ?_, ?_⟩
      · exact congrArg some (List.take_append_of_le_length hk).symm
      · exact (List.drop_append_of_le_length hk).symm
      · show l.arrived.length - k ≤ (l.arrived.drop k).length
        rw [List.length_drop]
    · exact Or.inl hfails

/-- Nine bytes of a line on which the second `receive` fails. -/
theorem receiveCommands_assembles_line :
    ∃ b, Assembled line ⟨[49, 43, 49, 59, 50, 43, 50, 59, 51], [59], [true, false]⟩ b ∧
      ∀ passes, 9 < passes → receiveCommands line passes
        (Batch.start ⟨[49, 43, 49, 59, 50, 43, 50, 59, 51], [59], [true, false]⟩
          (List.replicate bufSize 0) ⟨[7]⟩) = some b :=
  receiveCommands_assembles line line_delivers _ _ _ (by decide)

/-! ### The step machine -/

/-- The peer socket as a step of the machine finds it. -/
def peer : Socket (List UInt8 × List (Option ℕ)) where
  available w := w.1.length
  receive k w :=
    match w.2 with
    | [] => (some (w.1.take k), (w.1.drop k, []))
    | none :: rest => (none, (w.1, rest))
    | some n :: rest =>
        let recv := max 1 (min n k)
        (some (w.1.take recv), (w.1.drop recv, rest))
  unread w := w.1

theorem receiveAll_cons (k : ℕ) (ks : List ℕ) (w : List UInt8 × List (Option ℕ)) :
    RpiServer.receiveAll (k :: ks) w.2 w.1 =
      (peer.receive k w).1.bind fun bytes =>
        (RpiServer.receiveAll ks (peer.receive k w).2.2 (peer.receive k w).2.1).map
          (bytes ++ ·) := by
  obtain ⟨inbox, receives⟩ := w
  cases receives with
  | nil => rfl
  | cons r rest =>
      cases r with
      | none => rfl
      | some n => rfl

/-- What `receive` calls that yield these bytes, or fail, make of a batch. -/
def Becomes (b b' : Batch ω) : Option (List UInt8) → Prop
  | none => b'.evaluated = [] ∧ b'.resets = b.resets + 1
  | some bytes => b'.evaluated = [b.outArch.bytes ++ bytes ++ [0]] ∧ b'.resets = b.resets

/-- On the machine's socket the calls yield what `receiveAll` says. -/
theorem gather_peer (ks : List ℕ) {b : Batch (List UInt8 × List (Option ℕ))}
    (hnothing : b.evaluated = []) :
    Becomes b (gather peer ks b) (RpiServer.receiveAll ks b.sock.2 b.sock.1) := by
  induction ks generalizing b with
  | nil =>
      refine ⟨?_, rfl⟩
      show b.evaluated ++ [b.outArch.bytes ++ IntType.bytes .uint8 (0 : UInt8)] = _
      rw [hnothing, IntType.bytes_uint8, List.append_nil, List.nil_append]
  | cons k ks ih =>
      rw [receiveAll_cons, gather]
      rcases hreceive : peer.receive k b.sock with ⟨_ | bytes, sock⟩
      · obtain ⟨b', hb', -, hevaluated, hresets⟩ := receive_none hreceive
        rw [hb']
        exact ⟨hevaluated.trans hnothing, congrArg (· + 1) hresets⟩
      · obtain ⟨b', hb', -, hevaluated, hresets, rfl, hbytes⟩ := receive_some hreceive
        have hrest := ih (b := b'.writeBytes bytes.length) (hevaluated.trans hnothing)
        rw [hb', Option.bind_some]
        have hsock : (b'.writeBytes bytes.length).sock = b'.sock := rfl
        rw [hsock] at hrest
        cases hall : RpiServer.receiveAll ks b'.sock.2 b'.sock.1 with
        | none =>
            rw [hall] at hrest
            exact ⟨hrest.1, hrest.2.trans (congrArg (· + 1) hresets)⟩
        | some rest =>
            rw [hall] at hrest
            refine ⟨?_, hrest.2.trans hresets⟩
            rw [hrest.1, hbytes, List.append_assoc b.outArch.bytes]

/-- **The step of the machine is a call of `receive_commands` on the peer's socket**: it resets the
connection as often as the call does, and evaluates what the call passes to the interpreter, up to
the first zero. -/
theorem step_receiveCommands (e : Env) (s : RpiServer) (readBuf : List UInt8)
    (outArch : MemOutputArchive) {passes : ℕ} (hpasses : (s.available e).length < passes) :
    ∃ b, receiveCommands peer passes
        (Batch.start (s.available e, e.receives) readBuf outArch) = some b ∧
      ((b.evaluated = [] ∧ s.receiveCommands e =
          { (RpiServer.handleError e.now)^[b.resets] s with phase := .keepalive }) ∨
        ∃ text, b.evaluated = [text] ∧ b.resets = 0 ∧ s.receiveCommands e =
          { s with phase := .script s.sockPeer (e.evaluate (text.takeWhile (· ≠ 0))) }) := by
  by_cases havail : (s.available e).length = 0
  · refine ⟨Batch.start (s.available e, e.receives) readBuf outArch, ?_, Or.inl ⟨rfl, ?_⟩⟩
    · exact if_pos havail
    · rw [RpiServer.receiveCommands, if_pos havail]
      rfl
  · have hcall := receiveCommands_eq_gather peer
      (Batch.start (s.available e, e.receives) readBuf outArch) (Nat.pos_of_ne_zero havail) hpasses
    have hpeer := gather_peer (RpiServer.readSizes (s.available e).length)
      (b := Batch.start (s.available e, e.receives) readBuf ⟨[]⟩) rfl
    refine ⟨gather peer (RpiServer.readSizes (s.available e).length)
      (Batch.start (s.available e, e.receives) readBuf ⟨[]⟩), hcall, ?_⟩
    generalize gather peer (RpiServer.readSizes (s.available e).length)
      (Batch.start (s.available e, e.receives) readBuf ⟨[]⟩) = b at hpeer
    rw [RpiServer.receiveCommands, if_neg havail]
    dsimp only [Batch.start] at hpeer
    cases hall : RpiServer.receiveAll (RpiServer.readSizes (s.available e).length) e.receives
        (s.available e) with
    | none =>
        rw [hall] at hpeer
        refine Or.inl ⟨hpeer.1, ?_⟩
        rw [show b.resets = 1 from hpeer.2]
        rfl
    | some bytes =>
        rw [hall] at hpeer
        exact Or.inr ⟨bytes ++ [0], hpeer.1, hpeer.2, rfl⟩

/-- Nine bytes are available, and the second `receive` fails. -/
theorem step_receiveCommands_nine :
    let s := (RpiServer.startup true .absent 0 0).step { Env.idle with accept := some (0, true) }
    let e := { Env.idle with
      inbox := [49, 43, 49, 59, 50, 43, 50, 59, 51]
      receives := [some 8, none] }
    ∃ b, receiveCommands peer 10
        (Batch.start (s.available e, e.receives) (List.replicate bufSize 0) ⟨[7]⟩) = some b ∧
      ((b.evaluated = [] ∧ s.receiveCommands e =
          { (RpiServer.handleError e.now)^[b.resets] s with phase := .keepalive }) ∨
        ∃ text, b.evaluated = [text] ∧ b.resets = 0 ∧ s.receiveCommands e =
          { s with phase := .script s.sockPeer (e.evaluate (text.takeWhile (· ≠ 0))) }) := by
  intro s e
  exact step_receiveCommands e s _ _ (by decide +kernel)

end MKart.Server.Receive
