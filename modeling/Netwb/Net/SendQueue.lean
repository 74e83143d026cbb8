import Netwb.Lib.Heap
import Netwb.Lib.Run
import Netwb.Net.Cipher
import Mathlib.Analysis.SpecialFunctions.Log.Base

/-!
# The send queue of a connection

`sendDataAsync`, `doSendData` and the buffers of `net/NetConnection.cpp`.  What is accepted is
copied behind `m_waitingBuf[0..m_waitingPos)`; a write takes all of it at once, without a cipher by
exchanging the two buffers, with one by encrypting into `m_sendBuf`.

`Choice` is what the environment decides during one call: what fresh memory holds, whether
`realloc` moves a block, the running average `m_sendAveSize` (floating point in the source, any
value here) and what `encrypt` answers.  The inner loop of `doSendData` asks the cipher until it
gets an answer other than `BUFFER_ERROR`; it has not come back as long as the answers last (`none`).

`writes` are the `async_write`s whose handler has not run.  Three histories are kept beside the
fields of the source: the bytes of all writes (`written`), the bytes of all accepted sends
(`accepted`), and whether a rejected send has thrown accepted bytes away (`dropped`).
-/

namespace Netwb
open Wire Memory

def MAX_SEND_BUF_SIZE : Int := 1024 * 1024 * 64
def MIN_SEND_BUF_SIZE : Int := 1024 * 64

/-- one call of `encrypt`, and whether the `realloc` behind a `BUFFER_ERROR` moves -/
structure EncryptCall where
  answer : ByteArray → Nat → CIPHER_STATUS × ByteArray
  moves : Bool

structure Choice where
  junk : Nat → BYTE
  growMoves : Bool
  shrinkMoves : Bool
  ave : Nat
  encrypts : List EncryptCall

/-- an `async_write`: the buffer it was given and what it held then -/
structure Write where
  buf : Nat
  bytes : ByteArray

structure SendQueue where
  heap : Heap BYTE
  m_waitingBuf : Nat
  m_waitingBufLen : Int
  m_sendBuf : Nat
  m_sendBufLen : Int
  m_waitingPos : Int
  m_bSending : Bool
  m_sendAveSize : Int
  /-- whether `m_cipher` is set -/
  m_cipher : Bool
  writes : List Write
  written : List ByteArray
  accepted : ByteArray
  dropped : Bool

namespace SendQueue

/-- the fields as `NetConnection::init` sets them -/
def init (m_cipher : Bool) : SendQueue where
  heap := .empty
  m_waitingBuf := 0
  m_waitingBufLen := 0
  m_sendBuf := 0
  m_sendBufLen := 0
  m_waitingPos := 0
  m_bSending := false
  m_sendAveSize := 0
  m_cipher := m_cipher
  writes := []
  written := []
  accepted := []
  dropped := false

/-- `m_socket->async_write(m_sendBuf, bytesSend, ..)`, after which nothing is waiting -/
def asyncWrite (q : SendQueue) (junk : Nat → BYTE) (bytesSend : Nat) : SendQueue :=
  { q with
    writes := q.writes ++ [⟨q.m_sendBuf, q.heap.load junk q.m_sendBuf bytesSend⟩]
    written := q.written ++ [q.heap.load junk q.m_sendBuf bytesSend]
    m_waitingPos := 0
    m_bSending := true }

/-- the exchange of the two buffers -/
def swap (q : SendQueue) : SendQueue :=
  { q with
    m_sendBuf := q.m_waitingBuf
    m_sendBufLen := q.m_waitingBufLen
    m_waitingBuf := q.m_sendBuf
    m_waitingBufLen := q.m_sendBufLen }

/-- the branch of `doSendData` without a cipher -/
def plainSend (q : SendQueue) (junk : Nat → BYTE) : SendQueue :=
  q.swap.asyncWrite junk (toSize q.m_waitingPos)

/-- the send buffer is made before its first use -/
def makeSendBuf (q : SendQueue) (junk : Nat → BYTE) : SendQueue :=
  if q.m_sendBufLen = 0 then
    let r := q.heap.malloc MIN_SEND_BUF_SIZE.toNat junk
    { q with heap := r.1, m_sendBuf := r.2, m_sendBufLen := MIN_SEND_BUF_SIZE }
  else q

/-- `m_cipher->encrypt(m_waitingBuf, m_waitingPos, m_sendBuf + 8, &bytesSend)`: the status and what
it has put into the send buffer -/
def encrypt (q : SendQueue) (junk : Nat → BYTE) (e : EncryptCall) :
    CIPHER_STATUS × ByteArray × SendQueue :=
  let r := e.answer (q.heap.load junk q.m_waitingBuf (toSize q.m_waitingPos))
    (toSize (q.m_sendBufLen - 8))
  (r.1, r.2, { q with heap := q.heap.store q.m_sendBuf 8 r.2 })

/-- the case `CIPHER_STATUS_OK`: the two lengths before the ciphertext, and the write -/
def sendFrame (q : SendQueue) (junk : Nat → BYTE) (out : Nat) : SendQueue :=
  let netLen := be32 (BitVec.ofNat 32 (8 + out))
  let realLen := be32 (BitVec.ofNat 32 (toSize q.m_waitingPos))
  asyncWrite { q with
    heap := (q.heap.store q.m_sendBuf 0 netLen).store q.m_sendBuf 4 realLen } junk (8 + out)

/-- the case `CIPHER_STATUS_BUFFER_ERROR`: the size that is recorded is not the one that
`realloc` gets -/
def growSendBuf (q : SendQueue) (junk : Nat → BYTE) (moves : Bool) : SendQueue :=
  let r := q.heap.realloc q.m_sendBuf (toSize q.m_waitingBufLen) moves junk
  { q with
    heap := r.1, m_sendBuf := r.2, m_sendBufLen := toInt32 (q.m_waitingBufLen * 3 / 2) }

/-- the branch with a cipher -/
def cipherSend (junk : Nat → BYTE) : SendQueue → List EncryptCall → Option SendQueue
  | _, [] => none
  | q, e :: es =>
    match (q.makeSendBuf junk).encrypt junk e with
    | (.OK, out, q) => some (q.sendFrame junk out.length)
    | (.BUFFER_ERROR, _, q) => cipherSend junk (q.growSendBuf junk e.moves) es
    | (.UNKNOWN_ERROR, _, q) => some q

/-- the waiting buffer at a new place, with a new size -/
def rehome (q : SendQueue) (r : Heap BYTE × Nat) (size : Int) : SendQueue :=
  { q with heap := r.1, m_waitingBuf := r.2, m_waitingBufLen := size }

/-- the end of `doSendData`: the waiting buffer is halved if the average send is small -/
def control (q : SendQueue) (c : Choice) : SendQueue :=
  let q := { q with m_sendAveSize := c.ave }
  if q.m_sendAveSize > MIN_SEND_BUF_SIZE ∧ q.m_waitingBufLen > 2 * MIN_SEND_BUF_SIZE ∧
      q.m_sendAveSize < q.m_waitingBufLen / 4 then
    let size := q.m_waitingBufLen / 2
    q.rehome (q.heap.realloc q.m_waitingBuf (toSize size) c.shrinkMoves c.junk) size
  else q

def doSendData (q : SendQueue) (c : Choice) : Option SendQueue :=
  if q.m_waitingPos = 0 then some { q with m_bSending := false }
  else if q.m_cipher then (cipherSend c.junk q c.encrypts).map (·.control c)
  else some ((q.plainSend c.junk).control c)

/-- `ceil(log(needSize * 1.0 / MIN_SEND_BUF_SIZE) / log(2.0))` for `needSize > 0`
(`growExponent_ceil`) -/
def growExponent (needSize : Int) : Nat := Nat.clog 2 ((needSize.toNat + 65535) / 65536)

def resizeLen (needSize : Int) : Int :=
  if needSize ≤ MIN_SEND_BUF_SIZE then MIN_SEND_BUF_SIZE
  else toInt32 (toInt32 (2 ^ growExponent needSize) * MIN_SEND_BUF_SIZE)

/-- the waiting buffer for `needSize` bytes -/
def grow (q : SendQueue) (c : Choice) (needSize : Int) : SendQueue :=
  let size := resizeLen needSize
  q.rehome
    (if q.m_waitingBufLen = 0 then q.heap.malloc (toSize size) c.junk
    else q.heap.realloc q.m_waitingBuf (toSize size) c.growMoves c.junk) size

/-- the bytes that `memcpy` takes from `data` -/
def source (c : Choice) (data : ByteArray) (len : Int) : ByteArray :=
  Vec.peeks (fun i => c.junk i.toNat) data 0 (toSize len)

/-- the body of `sendDataAsync` under the lock, for data that is not empty and a positive length:
whether the data is accepted; if not, the queue is emptied and the caller posts an error -/
def append (q : SendQueue) (c : Choice) (data : ByteArray) (len : Int) :
    Option (SendQueue × Bool) :=
  let needSize := toInt32 (len + q.m_waitingPos)
  if needSize > MAX_SEND_BUF_SIZE then
    some ({ q with m_waitingPos := 0, dropped := q.dropped || q.m_waitingPos != 0 }, false)
  else
    let q := if needSize > q.m_waitingBufLen then q.grow c needSize else q
    let q := { q with
      heap := q.heap.store q.m_waitingBuf q.m_waitingPos (source c data len)
      m_waitingPos := toInt32 (q.m_waitingPos + len)
      accepted := q.accepted ++ source c data len }
    (if q.m_bSending then some q else q.doSendData c).map fun q => (q, true)

/-- a write has succeeded: its handler runs -/
def handleSendData (q : SendQueue) (i : Nat) (c : Choice) : Option SendQueue :=
  if i < q.writes.length then { q with writes := q.writes.eraseIdx i }.doSendData c else none

/-! ## the buffers -/

/-- the two blocks, their recorded sizes and the position -/
structure Layout (q : SendQueue) : Prop where
  waiting : (q.heap.size q.m_waitingBuf : Int) = q.m_waitingBufLen
  send : (q.heap.size q.m_sendBuf : Int) = q.m_sendBufLen
  apart : q.m_waitingBuf ≠ q.m_sendBuf ∨ q.heap.blocks q.m_waitingBuf = none
  waiting_lt : q.m_waitingBuf < q.heap.next
  send_lt : q.m_sendBuf < q.heap.next
  pos_nonneg : 0 ≤ q.m_waitingPos
  pos_le : q.m_waitingPos ≤ q.m_waitingBufLen
  waiting_le : q.m_waitingBufLen ≤ MAX_SEND_BUF_SIZE
  send_le : q.m_sendBufLen ≤ MAX_SEND_BUF_SIZE

theorem layout_init (m_cipher : Bool) : Layout (init m_cipher) := by
  refine ⟨rfl, rfl, .inr rfl, Nat.zero_lt_one, Nat.zero_lt_one, Int.le_refl _, Int.le_refl _, ?_, ?_⟩
  · show (0 : Int) ≤ MAX_SEND_BUF_SIZE
    decide
  · show (0 : Int) ≤ MAX_SEND_BUF_SIZE
    decide

/-- the layout is about the buffers and the position only -/
theorem Layout.same {q : SendQueue} (h : Layout q) {pos : Int} (hp : 0 ≤ pos)
    (hpl : pos ≤ q.m_waitingBufLen) (sending : Bool) (ave : Int) (ws : List Write)
    (wr : List ByteArray) (acc : ByteArray) (dropped : Bool) :
    Layout { q with
      m_waitingPos := pos, m_bSending := sending, m_sendAveSize := ave, writes := ws,
      written := wr, accepted := acc, dropped := dropped } :=
  ⟨h.waiting, h.send, h.apart, h.waiting_lt, h.send_lt, hp, hpl, h.waiting_le, h.send_le⟩

/-- the bytes that wait -/
def waitingBytes (q : SendQueue) (junk : Nat → BYTE) : ByteArray :=
  q.heap.load junk q.m_waitingBuf q.m_waitingPos.toNat

theorem Layout.waiting_size {q : SendQueue} (h : Layout q) :
    toSize q.m_waitingPos = q.m_waitingPos.toNat := by
  have hp := h.pos_nonneg
  have hpl := h.pos_le
  have hwl := h.waiting_le
  unfold MAX_SEND_BUF_SIZE at hwl
  exact toSize_eq (by omega) (by omega)

theorem Layout.load_waiting {q : SendQueue} (h : Layout q) (junk junk' : Nat → BYTE) :
    q.heap.load junk q.m_waitingBuf (q.waitingBytes junk').length = q.waitingBytes junk' := by
  have hw := h.waiting
  have hpl := h.pos_le
  rw [waitingBytes, Heap.load_length]
  exact Heap.load_inside q.heap junk junk' _ _ (by omega)

/-- the send buffer is where it was and holds what it held -/
structure SendKept (q q' : SendQueue) : Prop where
  buf : q'.m_sendBuf = q.m_sendBuf
  block : q'.heap.blocks q.m_sendBuf = q.heap.blocks q.m_sendBuf

theorem SendKept.trans {q q' q'' : SendQueue} (h : SendKept q q') (h' : SendKept q' q'') :
    SendKept q q'' :=
  ⟨h'.buf.trans h.buf, by rw [← h.block, ← h.buf]; exact h'.block⟩

/-- **The waiting buffer can be resized: the waiting bytes and the send buffer stay.** -/
theorem rehome_spec {q : SendQueue} (h : Layout q) {r : Heap BYTE × Nat} {size : Int}
    (hr : Heap.Resized q.heap q.m_waitingBuf r.1 r.2 size.toNat) (hpos : q.m_waitingPos ≤ size)
    (hmax : size ≤ MAX_SEND_BUF_SIZE) :
    Layout (q.rehome r size) ∧ SendKept q (q.rehome r size) ∧
      ∀ junk, (q.rehome r size).waitingBytes junk = q.waitingBytes junk := by
  have hw := h.waiting
  have hp := h.pos_nonneg
  have hpl := h.pos_le
  obtain ⟨hblock, hne⟩ := hr.frame q.m_sendBuf h.send_lt (h.apart.imp_left Ne.symm)
  refine ⟨⟨?_, ?_, .inl (Ne.symm hne), hr.lt, Nat.lt_of_lt_of_le h.send_lt hr.next_le, hp, hpos,
    hmax, h.send_le⟩, ⟨rfl, hblock⟩, ?_⟩
  · show (r.1.size r.2 : Int) = size
    rw [hr.size]
    omega
  · show (r.1.size q.m_sendBuf : Int) = q.m_sendBufLen
    rw [Heap.size_congr hblock]
    exact h.send
  · intro junk
    exact hr.kept junk q.m_waitingPos.toNat (by omega) (by omega)

/-- **Bytes stored behind the position join the waiting ones.** -/
theorem store_spec {q : SendQueue} (h : Layout q) (src : ByteArray) (pos : Int)
    (hpos : pos = q.m_waitingPos + src.length) (hin : pos ≤ q.m_waitingBufLen) (acc : ByteArray) :
    let q' := { q with
      heap := q.heap.store q.m_waitingBuf q.m_waitingPos src, m_waitingPos := pos, accepted := acc }
    Layout q' ∧ SendKept q q' ∧ ∀ junk, q'.waitingBytes junk = q.waitingBytes junk ++ src := by
  intro q'
  have hw := h.waiting
  have hp := h.pos_nonneg
  have hsize := q.heap.size_store q.m_waitingBuf q.m_waitingPos src
  have hcast : q.m_waitingPos = ((q.m_waitingPos.toNat : Nat) : Int) := by omega
  have hblock : q'.heap.blocks q.m_sendBuf = q.heap.blocks q.m_sendBuf := by
    rcases h.apart with hne | hnone
    · exact q.heap.blocks_store_other (Ne.symm hne) _ src
    · by_cases e : q.m_sendBuf = q.m_waitingBuf
      · show (if q.m_sendBuf = q.m_waitingBuf then _ else _) = _
        rw [if_pos e, hnone, e, hnone]
        rfl
      · exact q.heap.blocks_store_other e _ src
  have hapart : q'.m_waitingBuf ≠ q'.m_sendBuf ∨ q'.heap.blocks q'.m_waitingBuf = none := by
    refine h.apart.imp_right fun hnone => ?_
    show (if q.m_waitingBuf = q.m_waitingBuf then (q.heap.blocks q.m_waitingBuf).bind _ else _)
      = none
    rw [if_pos rfl, hnone]
    rfl
  refine ⟨⟨?_, ?_, hapart, h.waiting_lt, h.send_lt, by show 0 ≤ pos; omega, hin,
    h.waiting_le, h.send_le⟩, ⟨rfl, hblock⟩, ?_⟩
  · show ((q.heap.store _ _ src).size q.m_waitingBuf : Int) = _
    rw [hsize]
    exact hw
  · show ((q.heap.store _ _ src).size q.m_sendBuf : Int) = _
    rw [hsize]
    exact h.send
  · intro junk
    have hl := q.heap.load_store junk q.m_waitingBuf q.m_waitingPos.toNat src (by omega)
    rw [← hcast] at hl
    show (q.heap.store q.m_waitingBuf q.m_waitingPos src).load junk q.m_waitingBuf pos.toNat = _
    rw [show pos.toNat = q.m_waitingPos.toNat + src.length by omega]
    exact hl

/-! ## growing -/

/-- the exponent is the one of the source, computed exactly -/
theorem growExponent_ceil {n : Int} (hn : MIN_SEND_BUF_SIZE < n) :
    (growExponent n : Int)
      = ⌈Real.log ((n : ℝ) * 1.0 / (MIN_SEND_BUF_SIZE : ℝ)) / Real.log 2.0⌉ := by
  obtain ⟨k, rfl⟩ : ∃ k : Nat, n = k := ⟨n.toNat, by unfold MIN_SEND_BUF_SIZE at hn; omega⟩
  have hk : 65536 < k := by
    unfold MIN_SEND_BUF_SIZE at hn
    omega
  have h1 : (1 : ℝ) ≤ (k : ℝ) / 65536 := by
    rw [one_le_div (by norm_num)]
    exact_mod_cast hk.le
  have hceil : ⌈(k : ℝ) / 65536⌉₊ = (k + 65535) / 65536 := by
    apply le_antisymm
    · rw [Nat.ceil_le, div_le_iff₀ (by norm_num)]
      have : k ≤ (k + 65535) / 65536 * 65536 := by omega
      exact_mod_cast this
    · have h2 : (k : ℝ) / 65536 ≤ (⌈(k : ℝ) / 65536⌉₊ : ℝ) := Nat.le_ceil _
      rw [div_le_iff₀ (by norm_num)] at h2
      have h3 : k ≤ ⌈(k : ℝ) / 65536⌉₊ * 65536 := by exact_mod_cast h2
      omega
  have harg : ((k : Int) : ℝ) * 1.0 / ((MIN_SEND_BUF_SIZE : Int) : ℝ) = (k : ℝ) / 65536 := by
    unfold MIN_SEND_BUF_SIZE
    norm_num
  have htwo : (2.0 : ℝ) = ((2 : Nat) : ℝ) := by norm_num
  rw [harg, htwo]
  show _ = ⌈Real.logb ((2 : Nat) : ℝ) ((k : ℝ) / 65536)⌉
  rw [Real.ceil_logb_natCast (by positivity), Int.clog_of_one_le_right _ h1, hceil]
  rfl
theorem growExponent_spec {n : Int} (h0 : 0 < n) (hn : n ≤ MAX_SEND_BUF_SIZE) :
    n ≤ (2 ^ growExponent n : Nat) * MIN_SEND_BUF_SIZE ∧ growExponent n ≤ 10 := by
  unfold MAX_SEND_BUF_SIZE at hn
  have hle : (n.toNat + 65535) / 65536 ≤ 2 ^ growExponent n :=
    Nat.le_pow_clog Nat.one_lt_two _
  refine ⟨?_, ?_⟩
  · unfold MIN_SEND_BUF_SIZE
    have := Nat.div_add_mod (n.toNat + 65535) 65536
    have := Nat.mod_lt (n.toNat + 65535) (show 65536 > 0 by decide)
    omega
  · have hc : (n.toNat + 65535) / 65536 ≤ 2 ^ 10 := by omega
    exact Nat.clog_le_of_le_pow hc

/-- the new size holds what is needed and is not larger than the largest buffer -/
theorem resizeLen_spec {n : Int} (h0 : 0 < n) (hn : n ≤ MAX_SEND_BUF_SIZE) :
    n ≤ resizeLen n ∧ resizeLen n ≤ MAX_SEND_BUF_SIZE ∧ MIN_SEND_BUF_SIZE ≤ resizeLen n := by
  obtain ⟨h1, h2⟩ := growExponent_spec h0 hn
  have hpow : 2 ^ growExponent n ≤ 2 ^ 10 := Nat.pow_le_pow_right (by decide) h2
  have hpos : 0 < 2 ^ growExponent n := Nat.pow_pos (by decide)
  unfold resizeLen
  unfold MAX_SEND_BUF_SIZE at hn ⊢
  unfold MIN_SEND_BUF_SIZE at h1 ⊢
  split
  · omega
  · have e : ((2 : Int) ^ growExponent n) = ((2 ^ growExponent n : Nat) : Int) := by norm_cast
    have i1 : toInt32 ((2 : Int) ^ growExponent n) = ((2 ^ growExponent n : Nat) : Int) := by
      rw [e, toInt32_eq (by omega) (by omega)]
    rw [i1, toInt32_eq (by omega) (by omega)]
    omega

theorem grow_rehome {q : SendQueue} (h : Layout q) (c : Choice) {n : Int} (h0 : 0 < n)
    (hn : n ≤ MAX_SEND_BUF_SIZE) : ∃ r, q.grow c n = q.rehome r (resizeLen n) ∧
      Heap.Resized q.heap q.m_waitingBuf r.1 r.2 (resizeLen n).toNat := by
  have hw := h.waiting
  obtain ⟨_, g2, g3⟩ := resizeLen_spec h0 hn
  have hsize : toSize (resizeLen n) = (resizeLen n).toNat := by
    unfold MAX_SEND_BUF_SIZE at g2
    unfold MIN_SEND_BUF_SIZE at g3
    exact toSize_eq (by omega) (by omega)
  refine ⟨_, rfl, ?_⟩
  rw [hsize]
  split
  · exact Heap.malloc_resized q.heap _ c.junk (by omega)
  · exact Heap.realloc_resized q.heap _ _ c.growMoves c.junk h.waiting_lt

theorem grow_spec {q : SendQueue} (h : Layout q) (c : Choice) {n : Int}
    (hmore : q.m_waitingBufLen < n) (hn : n ≤ MAX_SEND_BUF_SIZE) :
    Layout (q.grow c n) ∧ SendKept q (q.grow c n) ∧
      (∀ junk, (q.grow c n).waitingBytes junk = q.waitingBytes junk) ∧
      n ≤ (q.grow c n).m_waitingBufLen := by
  have hw := h.waiting
  have hp := h.pos_le
  obtain ⟨g1, g2, _⟩ := resizeLen_spec (by omega) hn
  obtain ⟨r, hr, hsized⟩ := grow_rehome h c (by omega) hn
  obtain ⟨s1, s2, s3⟩ := rehome_spec h hsized (by omega) g2
  rw [hr]
  exact ⟨s1, s2, s3, g1⟩

/-- nothing but the buffers and the average has changed -/
structure Same (q q' : SendQueue) : Prop where
  writes : q'.writes = q.writes
  written : q'.written = q.written
  accepted : q'.accepted = q.accepted
  sending : q'.m_bSending = q.m_bSending
  cipher : q'.m_cipher = q.m_cipher
  dropped : q'.dropped = q.dropped
  pos : q'.m_waitingPos = q.m_waitingPos

theorem Same.refl (q : SendQueue) : Same q q := ⟨rfl, rfl, rfl, rfl, rfl, rfl, rfl⟩

theorem Same.trans {q q' q'' : SendQueue} (h : Same q q') (h' : Same q' q'') : Same q q'' where
  writes := h'.writes.trans h.writes
  written := h'.written.trans h.written
  accepted := h'.accepted.trans h.accepted
  sending := h'.sending.trans h.sending
  cipher := h'.cipher.trans h.cipher
  dropped := h'.dropped.trans h.dropped
  pos := h'.pos.trans h.pos

theorem grow_same (q : SendQueue) (c : Choice) (n : Int) : Same q (q.grow c n) :=
  ⟨rfl, rfl, rfl, rfl, rfl, rfl, rfl⟩

/-- the averaging rule halves the waiting buffer -/
def Halves (q : SendQueue) (c : Choice) : Prop :=
  (c.ave : Int) > MIN_SEND_BUF_SIZE ∧ q.m_waitingBufLen > 2 * MIN_SEND_BUF_SIZE ∧
    (c.ave : Int) < q.m_waitingBufLen / 4

instance (q : SendQueue) (c : Choice) : Decidable (Halves q c) :=
  inferInstanceAs (Decidable (_ ∧ _ ∧ _))

/-- the end of `doSendData` leaves the waiting buffer alone or halves it -/
theorem control_rehome {q : SendQueue} (h : Layout q) (c : Choice) :
    q.control c = { q with m_sendAveSize := c.ave } ∨
    Halves q c ∧ ∃ r, q.control c
        = { q with m_sendAveSize := c.ave }.rehome r (q.m_waitingBufLen / 2) ∧
      Heap.Resized q.heap q.m_waitingBuf r.1 r.2 (q.m_waitingBufLen / 2).toNat := by
  unfold control
  dsimp only
  split
  · rename_i hc
    have hbig := hc.2.1
    have hw := h.waiting_le
    have hsize : toSize (q.m_waitingBufLen / 2) = (q.m_waitingBufLen / 2).toNat := by
      unfold MIN_SEND_BUF_SIZE at hbig
      unfold MAX_SEND_BUF_SIZE at hw
      exact toSize_eq (by omega) (by omega)
    refine .inr ⟨hc, _, rfl, ?_⟩
    rw [hsize]
    exact Heap.realloc_resized q.heap _ _ c.shrinkMoves c.junk h.waiting_lt
  · exact .inl rfl

theorem control_spec {q : SendQueue} (h : Layout q) (hz : q.m_waitingPos = 0) (c : Choice) :
    Layout (q.control c) ∧ SendKept q (q.control c) ∧ Same q (q.control c) := by
  have h' : Layout { q with m_sendAveSize := c.ave } := h.same h.pos_nonneg h.pos_le _ _ _ _ _ _
  rcases control_rehome h c with e | ⟨hc, r, e, hr⟩
  · rw [e]
    exact ⟨h', ⟨rfl, rfl⟩, rfl, rfl, rfl, rfl, rfl, rfl, rfl⟩
  · have hbig := hc.2.1
    have hw := h.waiting_le
    unfold MIN_SEND_BUF_SIZE at hbig
    obtain ⟨s1, s2, _⟩ := rehome_spec h' hr (by show q.m_waitingPos ≤ _; omega) (by omega)
    rw [e]
    exact ⟨s1, ⟨s2.buf, s2.block⟩, rfl, rfl, rfl, rfl, rfl, rfl, rfl⟩

/-! ## sending -/

/-- without a cipher: what was written and what waits is what was accepted -/
structure Fifo (q : SendQueue) : Prop where
  layout : Layout q
  plain : q.m_cipher = false
  fifo : ∀ junk, q.written.flatten ++ q.waitingBytes junk = q.accepted

/-- at most one write is under way, from the send buffer, which holds what it was given -/
structure Flight (q : SendQueue) : Prop where
  one : q.writes.length ≤ 1
  sending : q.m_bSending = true ↔ q.writes ≠ []
  drained : q.writes = [] → q.m_waitingPos = 0
  intact : ∀ w ∈ q.writes, w.buf = q.m_sendBuf ∧ w.bytes.length ≤ q.heap.size q.m_sendBuf ∧
    ∀ junk, q.heap.load junk q.m_sendBuf w.bytes.length = w.bytes

theorem waitingBytes_empty {q : SendQueue} (hz : q.m_waitingPos = 0) (junk : Nat → BYTE) :
    q.waitingBytes junk = [] := by
  rw [waitingBytes, hz]
  rfl

/-- the writes stay intact when the send buffer is kept -/
theorem Flight.kept {q q' : SendQueue} (h : Flight q) (hk : SendKept q q')
    (hw : q'.writes = q.writes) (hs : q'.m_bSending = q.m_bSending)
    (hd : q.writes = [] → q'.m_waitingPos = 0) : Flight q' := by
  refine ⟨by rw [hw]; exact h.one, by rw [hs, hw]; exact h.sending, by rw [hw]; exact hd, ?_⟩
  intro w hmem
  obtain ⟨w1, w2, w3⟩ := h.intact w (hw ▸ hmem)
  rw [hk.buf]
  exact ⟨w1, by rw [Heap.size_congr hk.block]; exact w2,
    fun junk => (Heap.load_congr hk.block junk _).trans (w3 junk)⟩

/-- the branch without a cipher, in one record -/
theorem plainSend_eq {q : SendQueue} (h : Layout q) (junk : Nat → BYTE) :
    q.plainSend junk = { q.swap with
      writes := q.writes ++ [⟨q.m_waitingBuf, q.waitingBytes junk⟩]
      written := q.written ++ [q.waitingBytes junk]
      m_waitingPos := 0
      m_bSending := true } := by
  rw [plainSend, h.waiting_size]
  rfl

theorem Layout.plainSend {q : SendQueue} (h : Layout q) (junk : Nat → BYTE) :
    Layout (q.plainSend junk) := by
  refine ⟨h.send, h.waiting, ?_, h.send_lt, h.waiting_lt, Int.le_refl _, ?_, h.send_le,
    h.waiting_le⟩
  · by_cases e : q.m_sendBuf = q.m_waitingBuf
    · refine .inr ?_
      show q.heap.blocks q.m_sendBuf = none
      rw [e]
      exact h.apart.resolve_left fun hne => hne e.symm
    · exact .inl e
  · show 0 ≤ q.m_sendBufLen
    have := h.send
    omega

theorem flight_plainSend {q : SendQueue} (h : Layout q) (junk : Nat → BYTE)
    (hidle : q.writes = []) : Flight (q.plainSend junk) := by
  have hw := h.waiting
  have hpl := h.pos_le
  rw [plainSend_eq h, hidle]
  refine ⟨Nat.le_refl _, ⟨fun _ => List.cons_ne_nil _ _, fun _ => rfl⟩, fun _ => rfl, ?_⟩
  intro w hmem
  rw [List.mem_singleton.mp hmem]
  refine ⟨rfl, ?_, fun junk' => h.load_waiting junk' junk⟩
  show (q.waitingBytes junk).length ≤ q.heap.size q.m_waitingBuf
  rw [waitingBytes, Heap.load_length]
  omega

theorem flight_idle {q : SendQueue} (hz : q.m_waitingPos = 0) (hidle : q.writes = []) :
    Flight { q with m_bSending := false } := by
  refine ⟨?_, ?_, fun _ => hz, ?_⟩
  · show q.writes.length ≤ 1
    rw [hidle]
    exact Nat.zero_le _
  · show false = true ↔ q.writes ≠ []
    rw [hidle]
    exact ⟨fun e => Bool.noConfusion e, fun e => absurd rfl e⟩
  · intro w hw
    rw [hidle] at hw
    cases hw

/-- **`doSendData` without a cipher: everything that waits is written.** -/
theorem doSendData_plain {q : SendQueue} (h : Fifo q) (c : Choice) :
    ∃ q', q.doSendData c = some q' ∧ Fifo q' ∧ (q.writes = [] → Flight q') ∧
      q'.accepted = q.accepted ∧ q'.dropped = q.dropped ∧ q'.m_waitingPos = 0 := by
  have hl := h.layout
  by_cases hz : q.m_waitingPos = 0
  · exact ⟨{ q with m_bSending := false }, by rw [doSendData, if_pos hz],
      ⟨hl.same hl.pos_nonneg hl.pos_le _ _ _ _ _ _, h.plain, h.fifo⟩, flight_idle hz, rfl, rfl, hz⟩
  · have hsent := plainSend_eq hl c.junk
    obtain ⟨c1, c2, c3⟩ := control_spec (hl.plainSend c.junk) (by rw [hsent]) c
    have hz' : ((q.plainSend c.junk).control c).m_waitingPos = 0 := by
      rw [c3.pos, hsent]
    refine ⟨(q.plainSend c.junk).control c, ?_, ⟨c1, ?_, fun junk => ?_⟩, fun hidle =>
      (flight_plainSend hl c.junk hidle).kept c2 c3.writes c3.sending fun _ => hz', ?_, ?_, hz'⟩
    · rw [doSendData, if_neg hz, h.plain]
      rfl
    · rw [c3.cipher, hsent]
      exact h.plain
    · rw [c3.written, c3.accepted, waitingBytes_empty hz', hsent, List.append_nil]
      show (q.written ++ [q.waitingBytes c.junk]).flatten = q.accepted
      rw [List.flatten_append, List.flatten_singleton]
      exact h.fifo c.junk
    · rw [c3.accepted, hsent]
      rfl
    · rw [c3.dropped, hsent]
      rfl

/-! ## accepting -/

theorem source_eq (c : Choice) {data : ByteArray} {len : Int} (h0 : 0 < len)
    (hlen : len ≤ data.length) (h32 : len ≤ INT32_MAX) :
    source c data len = data.take len.toNat ∧ ((source c data len).length : Int) = len := by
  have hsize : toSize len = len.toNat := by
    unfold INT32_MAX at h32
    exact toSize_eq (by omega) (by omega)
  have hp := Vec.peeks_front (fun i => c.junk i.toNat) data len.toNat (by omega)
  refine ⟨by rw [source, hsize]; exact hp, ?_⟩
  rw [source, Vec.peeks_length, hsize]
  omega

/-- the overflow branch: what waits is thrown away -/
theorem append_rejected (q : SendQueue) (c : Choice) (data : ByteArray) (len : Int)
    (hrej : toInt32 (len + q.m_waitingPos) > MAX_SEND_BUF_SIZE) :
    q.append c data len
      = some ({ q with m_waitingPos := 0, dropped := q.dropped || q.m_waitingPos != 0 }, false) :=
  if_pos hrej

/-- **An accepted send joins the waiting bytes, and is written at once if no write is under way.** -/
theorem append_accepted {q : SendQueue} (h : Fifo q) (c : Choice) {data : ByteArray} {len : Int}
    (h0 : 0 < len) (hlen : len ≤ data.length) (hnowrap : q.m_waitingPos + len ≤ INT32_MAX)
    (hacc : ¬ toInt32 (len + q.m_waitingPos) > MAX_SEND_BUF_SIZE) :
    ∃ q', q.append c data len = some (q', true) ∧ Fifo q' ∧ (Flight q → Flight q') ∧
      q'.accepted = q.accepted ++ data.take len.toNat ∧ q'.dropped = q.dropped := by
  have hl := h.layout
  have hp := hl.pos_nonneg
  have hneed : toInt32 (len + q.m_waitingPos) = q.m_waitingPos + len := by
    unfold INT32_MAX at hnowrap
    rw [toInt32_eq (by omega) (by omega)]
    omega
  rw [hneed] at hacc
  have hpos' : toInt32 (q.m_waitingPos + len) = q.m_waitingPos + len := by
    unfold INT32_MAX at hnowrap
    exact toInt32_eq (by omega) (by omega)
  obtain ⟨hsrc, hsl⟩ := source_eq c h0 hlen (by omega)
  obtain ⟨g, hg, hgl, hgk, hgb, hgs, hgn⟩ : ∃ g, (if q.m_waitingPos + len > q.m_waitingBufLen then
      q.grow c (q.m_waitingPos + len) else q) = g ∧ Layout g ∧ SendKept q g ∧
      (∀ junk, g.waitingBytes junk = q.waitingBytes junk) ∧ Same q g ∧
      q.m_waitingPos + len ≤ g.m_waitingBufLen := by
    split
    · obtain ⟨g1, g2, g3, g4⟩ := grow_spec hl c (by assumption) (by omega)
      exact ⟨_, rfl, g1, g2, g3, grow_same q c _, g4⟩
    · exact ⟨q, rfl, hl, ⟨rfl, rfl⟩, fun _ => rfl, .refl q, by omega⟩
  obtain ⟨s1, s2, s3⟩ := store_spec hgl (source c data len) (toInt32 (g.m_waitingPos + len))
    (by rw [hgs.pos, hpos', hsl]) (by rw [hgs.pos, hpos']; exact hgn)
    (g.accepted ++ source c data len)
  generalize hq1 : ({ g with
      heap := g.heap.store g.m_waitingBuf g.m_waitingPos (source c data len)
      m_waitingPos := toInt32 (g.m_waitingPos + len)
      accepted := g.accepted ++ source c data len } : SendQueue) = q1 at s1 s2 s3
  have hfifo : Fifo q1 := by
    refine ⟨s1, ?_, fun junk => ?_⟩
    · rw [← hq1]
      exact hgs.cipher.trans h.plain
    · rw [s3, hgb, ← List.append_assoc, ← hq1]
      show g.written.flatten ++ _ ++ _ = g.accepted ++ _
      rw [hgs.written, hgs.accepted, h.fifo]
  have hacc1 : q1.accepted = q.accepted ++ data.take len.toNat := by
    rw [← hq1, ← hsrc, ← hgs.accepted]
  have hdrop1 : q1.dropped = q.dropped := by
    rw [← hq1]
    exact hgs.dropped
  have hwr1 : q1.writes = q.writes := by
    rw [← hq1]
    exact hgs.writes
  have hsend1 : q1.m_bSending = q.m_bSending := by
    rw [← hq1]
    exact hgs.sending
  have hstep : q.append c data len
      = (if q1.m_bSending then some q1 else q1.doSendData c).map fun q => (q, true) := by
    subst hq1
    rw [append, hneed]
    dsimp only
    rw [if_neg hacc, hg]
  by_cases hb : q.m_bSending = true
  · refine ⟨q1, ?_, hfifo, fun hf => ?_, hacc1, hdrop1⟩
    · rw [hstep, hsend1, hb]
      rfl
    · have hne := hf.sending.mp hb
      exact hf.kept (hgk.trans s2) hwr1 hsend1 fun e => absurd e hne
  · obtain ⟨q2, e2, f2, fl2, a2, d2, _⟩ := doSendData_plain hfifo c
    refine ⟨q2, ?_, f2, fun hf => fl2 ?_, a2.trans hacc1, d2.trans hdrop1⟩
    · rw [hstep, hsend1, if_neg hb, e2]
      rfl
    · rw [hwr1]
      exact Decidable.not_not.mp fun hne => hb (hf.sending.mpr hne)

/-! ## the frame of the cipher branch -/

theorem load_frame (h : Heap BYTE) (junk : Nat → BYTE) (a : Nat) (w1 w2 : BitVec 32)
    (out : ByteArray) (hin : 8 + out.length ≤ h.size a) :
    ((((h.store a 8 out).store a 0 (be32 w1)).store a 4 (be32 w2)).load junk a (8 + out.length))
      = be32 w1 ++ be32 w2 ++ out := by
  have s1 : (h.store a 8 out).size a = h.size a := h.size_store a 8 out a
  have s2 : ((h.store a 8 out).store a 0 (be32 w1)).size a = h.size a := by
    rw [Heap.size_store, s1]
  have hlen := Heap.load_length h junk a 8
  have l1 : (h.store a 8 out).load junk a (8 + out.length) = h.load junk a 8 ++ out :=
    h.load_store junk a 8 out hin
  have l2 : ((h.store a 8 out).store a 0 (be32 w1)).load junk a (8 + out.length)
      = be32 w1 ++ (h.load junk a 8 ++ out).drop 4 := by
    have l := (h.store a 8 out).load_store_inside junk a 0 (4 + out.length) (be32 w1)
      (by rw [be32_length, s1]; omega)
    rw [be32_length, Heap.load_zero, List.nil_append,
      show 0 + 4 + (4 + out.length) = 8 + out.length by omega, l1] at l
    exact l
  have l3 : (((h.store a 8 out).store a 0 (be32 w1)).store a 4 (be32 w2)).load junk a
      (8 + out.length) = be32 w1 ++ be32 w2 ++ (be32 w1 ++ (h.load junk a 8 ++ out).drop 4).drop 8 := by
    have l := ((h.store a 8 out).store a 0 (be32 w1)).load_store_inside junk a 4 out.length
      (be32 w2) (by rw [be32_length, s2]; omega)
    have htake := Heap.load_take ((h.store a 8 out).store a 0 (be32 w1)) junk a
      (show 4 ≤ 8 + out.length by omega)
    rw [l2, List.take_left' (be32_length w1)] at htake
    rw [be32_length, show 4 + 4 + out.length = 8 + out.length by omega, l2, ← htake] at l
    exact l
  rw [l3, show 8 = 4 + 4 from rfl, ← List.drop_drop, List.drop_left' (be32_length w1),
    List.drop_drop, List.drop_left' hlen]

/-- **With room in the send buffer the cipher branch writes the sealed frame of what waits.** -/
theorem cipherSend_sealed {q : SendQueue} (h : Layout q) {c : BaseCipher} (m : c.Matching)
    (junk : Nat → BYTE) (hroom : q.m_waitingPos + 24 ≤ q.m_sendBufLen) {e : EncryptCall}
    (he : e.answer = c.encrypt) (es : List EncryptCall) :
    ∃ q', cipherSend junk q (e :: es) = some q' ∧
      q'.written = q.written ++ [m.sealed (q.waitingBytes junk)] ∧
      q'.writes = q.writes ++ [⟨q.m_sendBuf, m.sealed (q.waitingBytes junk)⟩] ∧
      q'.m_waitingPos = 0 ∧ q'.m_bSending = true := by
  have hp := h.pos_nonneg
  have hw := h.waiting_le
  have hs := h.send
  have hsl := h.send_le
  unfold MAX_SEND_BUF_SIZE at hw hsl
  have hsize := h.waiting_size
  have hroomsize : toSize (q.m_sendBufLen - 8) = (q.m_sendBufLen - 8).toNat :=
    toSize_eq (by omega) (by omega)
  have hbl : (q.waitingBytes junk).length = q.m_waitingPos.toNat := Heap.load_length ..
  have henc : c.encrypt (q.waitingBytes junk) (q.m_sendBufLen - 8).toNat
      = (.OK, m.cipherOf (q.waitingBytes junk)) :=
    m.encrypt_ok _ _ (by unfold AES_BLOCK_SIZE; omega)
  have hcl := m.cipher_length (q.waitingBytes junk)
  have hframe := load_frame q.heap junk q.m_sendBuf
    (BitVec.ofNat 32 (8 + (m.cipherOf (q.waitingBytes junk)).length))
    (BitVec.ofNat 32 q.m_waitingPos.toNat) (m.cipherOf (q.waitingBytes junk)) (by omega)
  have hsealed : be32 (BitVec.ofNat 32 (8 + (m.cipherOf (q.waitingBytes junk)).length)) ++
      be32 (BitVec.ofNat 32 q.m_waitingPos.toNat) ++ m.cipherOf (q.waitingBytes junk)
      = m.sealed (q.waitingBytes junk) := by
    rw [BaseCipher.Matching.sealed, hbl]
  rw [hsealed] at hframe
  have hraw : q.heap.load junk q.m_waitingBuf (toSize q.m_waitingPos) = q.waitingBytes junk := by
    rw [hsize]
    rfl
  have hcall : (q.makeSendBuf junk).encrypt junk e = (.OK, m.cipherOf (q.waitingBytes junk),
      { q with heap := q.heap.store q.m_sendBuf 8 (m.cipherOf (q.waitingBytes junk)) }) := by
    rw [makeSendBuf, if_neg (by omega), encrypt, he, hraw, hroomsize, henc]
  refine ⟨_, by rw [cipherSend, hcall], ?_, ?_, rfl, rfl⟩
  · show q.written ++ [_] = _
    rw [← hframe, hsize]
  · show q.writes ++ [Write.mk q.m_sendBuf _] = _
    rw [← hframe, hsize]

/-! ## any sends and completions -/

inductive Event where
  | sendDataAsync (data : ByteArray) (len : Int) (c : Choice)
  | handleSendData (i : Nat) (c : Choice)

/-- one event of a connected connection -/
def step : SendQueue → Event → Option SendQueue
  | q, .sendDataAsync data len c => (q.append c data len).map (·.1)
  | q, .handleSendData i c => q.handleSendData i c

/-- the data of a send, or nothing -/
def Event.data : Event → ByteArray
  | .sendDataAsync data len _ => data.take len.toNat
  | .handleSendData _ _ => []

/-- a send of a positive `r_int32` length within its data -/
def Event.WellFormed : Event → Prop
  | .sendDataAsync data len _ => 0 < len ∧ len ≤ data.length ∧ len ≤ INT32_MAX
  | .handleSendData _ _ => True

instance : ∀ e, Decidable (Event.WellFormed e)
  | .sendDataAsync _ _ _ => inferInstanceAs (Decidable (_ ∧ _))
  | .handleSendData _ _ => .isTrue trivial

/-- the send is not rejected -/
def Unrejected (q : SendQueue) : Event → Prop
  | .sendDataAsync _ len _ => ¬ toInt32 (len + q.m_waitingPos) > MAX_SEND_BUF_SIZE
  | .handleSendData _ _ => True

instance : ∀ q e, Decidable (Unrejected q e)
  | _, .sendDataAsync _ _ _ => inferInstanceAs (Decidable (¬ _))
  | _, .handleSendData _ _ => .isTrue trivial

/-- the sum that `sendDataAsync` computes is an `r_int32` -/
def SumFits (q : SendQueue) : Event → Prop
  | .sendDataAsync _ len _ => q.m_waitingPos + len ≤ INT32_MAX
  | .handleSendData _ _ => True

instance : ∀ q e, Decidable (SumFits q e)
  | _, .sendDataAsync _ _ _ => inferInstanceAs (Decidable (_ ≤ _))
  | _, .handleSendData _ _ => .isTrue trivial

/-- first in, first out, nothing lost, and the write under way left alone -/
structure LosslessFifo (q : SendQueue) (data : ByteArray) : Prop where
  fifo : ∀ junk, q.written.flatten ++ q.waitingBytes junk = data
  one : q.writes.length ≤ 1
  sending : q.m_bSending = true ↔ q.writes ≠ []
  drained : q.writes = [] → q.m_waitingPos = 0
  pos_nonneg : 0 ≤ q.m_waitingPos
  pos_le : q.m_waitingPos ≤ q.m_waitingBufLen
  intact : ∀ w ∈ q.writes, ∀ junk, q.heap.load junk w.buf w.bytes.length = w.bytes

theorem step_fifo {q q' : SendQueue} {e : Event} (hf : Fifo q) (hl : Flight q)
    (hw : e.WellFormed) (ha : Unrejected q e) (hs : SumFits q e) (h : q.step e = some q') :
    Fifo q' ∧ Flight q' ∧ q'.accepted = q.accepted ++ e.data := by
  cases e with
  | sendDataAsync data len c =>
    obtain ⟨h0, hlen, _⟩ := hw
    obtain ⟨q1, e1, f1, l1, a1, _⟩ := append_accepted hf c h0 hlen hs ha
    rw [step, e1] at h
    cases h
    exact ⟨f1, l1 hl, a1⟩
  | handleSendData i c =>
    rw [step, SendQueue.handleSendData] at h
    split at h
    · rename_i hi
      have hidle : q.writes.eraseIdx i = [] := by
        have hlen := List.length_eraseIdx_of_lt hi
        have hone := hl.one
        exact List.eq_nil_of_length_eq_zero (by omega)
      have hf' : Fifo { q with writes := q.writes.eraseIdx i } :=
        ⟨hf.layout.same hf.layout.pos_nonneg hf.layout.pos_le _ _ _ _ _ _, hf.plain, hf.fifo⟩
      obtain ⟨q1, e1, f1, l1, a1, _⟩ := doSendData_plain hf' c
      rw [e1] at h
      cases h
      exact ⟨f1, l1 hidle, by rw [a1]; exact (List.append_nil _).symm⟩
    · cases h

theorem run_fifo {es : List Event} : ∀ {q q' : SendQueue}, Fifo q → Flight q →
    (∀ e ∈ es, e.WellFormed) → Machine.Along step Unrejected q es →
    Machine.Along step SumFits q es → Machine.run step q es = some q' →
    Fifo q' ∧ Flight q' ∧ q'.accepted = q.accepted ++ es.flatMap Event.data := by
  induction es with
  | nil =>
    intro q q' hf hl _ _ _ h
    cases h
    exact ⟨hf, hl, (List.append_nil _).symm⟩
  | cons e es ih =>
    intro q q' hf hl hw ha hs h
    obtain ⟨q1, h1, h2⟩ := Machine.run_cons h
    obtain ⟨f1, l1, a1⟩ := step_fifo hf hl (hw e (List.mem_cons_self ..)) ha.1 hs.1 h1
    obtain ⟨f2, l2, a2⟩ := ih f1 l1 (fun x hx => hw x (List.mem_cons_of_mem _ hx))
      (Machine.along_tail ha h1) (Machine.along_tail hs h1) h2
    refine ⟨f2, l2, ?_⟩
    rw [a2, a1, List.flatMap_cons, List.append_assoc]

theorem fifo_init : Fifo (init false) := ⟨layout_init false, rfl, fun _ => rfl⟩

theorem flight_init (m_cipher : Bool) : Flight (init m_cipher) :=
  ⟨Nat.zero_le _, ⟨fun e => Bool.noConfusion e, fun e => absurd rfl e⟩, fun _ => rfl,
    fun _ hw => nomatch hw⟩

/-- **In every run without a rejected send whose sums are `r_int32` values the queue is lossless
and first in, first out.** -/
theorem send_queue_lossless {es : List Event} {q : SendQueue}
    (hwf : ∀ e ∈ es, e.WellFormed)
    (hacc : Machine.Along step Unrejected (init false) es)
    (hsum : Machine.Along step SumFits (init false) es)
    (h : Machine.run step (init false) es = some q) :
    LosslessFifo q (es.flatMap Event.data) := by
  obtain ⟨hf, hl, ha⟩ := run_fifo fifo_init (flight_init false) hwf hacc hsum h
  refine ⟨fun junk => (hf.fifo junk).trans ha, hl.one, hl.sending, hl.drained,
    hf.layout.pos_nonneg, hf.layout.pos_le, fun w hw junk => ?_⟩
  obtain ⟨w1, _, w3⟩ := hl.intact w hw
  rw [w1]
  exact w3 junk

/-- an environment for runs on fixed data -/
def still : Choice := ⟨fun _ => 0, false, false, 0, []⟩

/-- two sends, the first of which is written at once -/
theorem send_queue_lossless_two : ∃ q,
    Machine.run step (init false) [.sendDataAsync [1] 1 still, .sendDataAsync [2] 1 still] = some q ∧
      LosslessFifo q [1, 2] := by
  have hrun : (Machine.run step (init false)
      [.sendDataAsync [1] 1 still, .sendDataAsync [2] 1 still]).isSome = true := by
    decide +kernel
  obtain ⟨q, h⟩ := Option.isSome_iff_exists.mp hrun
  exact ⟨q, h, send_queue_lossless (by decide) (by decide +kernel) (by decide +kernel) h⟩

/-- the largest data an `r_int32` length can name -/
def largest : ByteArray := List.replicate 2147483647 0

theorem largest_length : largest.length = 2147483647 := List.length_replicate

/-- a byte is written, a byte waits, and the sum for the next send wraps around -/
def wrapRun : List Event :=
  [.sendDataAsync [1] 1 still, .sendDataAsync [2] 1 still, .sendDataAsync largest 2147483647 still]

theorem send_queue_wraps :
    (∀ e ∈ wrapRun, e.WellFormed) ∧ Machine.Along step Unrejected (init false) wrapRun ∧
      ∃ q, Machine.run step (init false) wrapRun = some q ∧
        ¬ LosslessFifo q (wrapRun.flatMap Event.data) := by
  have hwf : ∀ e ∈ wrapRun, e.WellFormed := by
    have h : (2147483647 : Int) ≤ (largest.length : Nat) := by rw [largest_length]; decide
    simp only [wrapRun, List.forall_mem_cons]
    exact ⟨by decide, by decide, ⟨by decide, h, by decide⟩, fun _ h => nomatch h⟩
  have hrun : (Machine.run step (init false) wrapRun).map (·.m_waitingPos)
      = some (-2147483648) := by
    decide +kernel
  obtain ⟨q, hq, hpos⟩ := Option.map_eq_some_iff.mp hrun
  refine ⟨hwf, by decide +kernel, q, hq, fun h => ?_⟩
  have := h.pos_nonneg
  omega

end SendQueue

end Netwb
