import Netwb.Net.SendLimits
import Netwb.Net.Password

/-!
# The retries of the cipher loop

`doSendData` asks the cipher again while it answers `BUFFER_ERROR`, with a send buffer that is
recorded as half as large again as the waiting buffer.  `AESCipher::encrypt` answers so exactly if
it is offered less than the plain length rounded up to whole blocks (`AESSized`).

The position is within the waiting buffer whenever the loop is entered (`Holds`), whatever came
before.  A send makes room for its data first.  `UNKNOWN_ERROR` leaves the data waiting, and the
waiting buffer may be halved below it; but then no write is under way, so that the next call comes
from a send (`Holding`).

* `aes_sized`         the rule is the one of `AESCipher::encrypt`;
* `encryptCalls_eq`   a loop that is entered so asks once, or twice if the send buffer is too small;
* `step_holding`      every step of a connection with a cipher keeps `Holding`;
* `encrypt_twice`     so no loop of any run asks more than twice.
-/

namespace Netwb
open Wire Memory

/-! ## the sizing rule -/

/-- a plain length rounded up to whole blocks -/
def wholeBlocks (rawLen : Nat) : Nat :=
  if rawLen % AES_BLOCK_SIZE = 0 then rawLen else (rawLen / AES_BLOCK_SIZE + 1) * AES_BLOCK_SIZE

theorem wholeBlocks_lt (n : Nat) : wholeBlocks n < n + AES_BLOCK_SIZE := by
  unfold wholeBlocks AES_BLOCK_SIZE
  split <;> omega

/-- `BUFFER_ERROR` exactly if less is offered, for lengths that round up to an `int` -/
def AESSized (answer : ByteArray → Nat → CIPHER_STATUS × ByteArray) : Prop :=
  ∀ p room, (wholeBlocks p.length : Int) ≤ INT32_MAX →
    ((answer p room).1 = .BUFFER_ERROR ↔ room < wholeBlocks p.length)

/-- `AESCipher::encrypt` with a key, as the sender calls it: the status, and what is written -/
def aesAnswer (evp : Evp) (wild : Int → BYTE) (key p : ByteArray) (room : Nat) :
    CIPHER_STATUS × ByteArray :=
  Prod.map id Prod.fst (AESCipher.encrypt evp wild key p p.length room)

theorem aes_buffer_error (evp : Evp) (wild : Int → BYTE) (key p : ByteArray) (n room : Nat) :
    (AESCipher.encrypt evp wild key p n room).1 = .BUFFER_ERROR ↔
      room < toSize (toInt32 (wholeBlocks n : Nat)) := by
  rw [AESCipher.encrypt, ← wholeBlocks]
  -- the comparison alone decides
  generalize toSize (toInt32 (wholeBlocks n : Nat)) = c_len
  generalize evpUpdate wild (evp.encrypt key) p (toInt32 n) = written
  split
  · rename_i hroom
    exact iff_of_true rfl hroom
  · rename_i hroom
    refine iff_of_false ?_ hroom
    cases written with
    | none => exact CIPHER_STATUS.noConfusion
    | some out => exact CIPHER_STATUS.noConfusion

theorem toSize_int32 {n : Nat} (h : (n : Int) ≤ INT32_MAX) : toSize (toInt32 (n : Nat)) = n := by
  unfold INT32_MAX at h
  rw [toInt32_eq (by omega) (by omega), toSize_eq (by omega) (by omega), Int.toNat_natCast]

/-- **The rule is the one of `AESCipher::encrypt`.** -/
theorem aes_sized (evp : Evp) (wild : Int → BYTE) (key : ByteArray) :
    AESSized (aesAnswer evp wild key) := by
  intro p room hlen
  rw [aesAnswer, Prod.map_fst, id, aes_buffer_error, toSize_int32 hlen]

/-! ## one loop -/

namespace SendQueue

/-- the room that the cipher is offered first -/
def offered (q : SendQueue) (junk : Nat → BYTE) : Nat :=
  toSize ((q.makeSendBuf junk).m_sendBufLen - 8)

/-- the room that it asks for -/
def needed (q : SendQueue) : Nat := wholeBlocks (toSize q.m_waitingPos)

/-- how often the loop of `doSendData` calls `encrypt` -/
def encryptCalls (junk : Nat → BYTE) : SendQueue → List EncryptCall → Nat
  | _, [] => 0
  | q, e :: es =>
    match (q.makeSendBuf junk).encrypt junk e with
    | (.BUFFER_ERROR, _, q) => encryptCalls junk (q.growSendBuf junk e.moves) es + 1
    | _ => 1

/-- the recorded size of the waiting buffer is one of those that `sendDataAsync` and the halving
give it -/
structure Recorded (q : SendQueue) : Prop where
  made : q.m_waitingBufLen = 0 ∨ MIN_SEND_BUF_SIZE ≤ q.m_waitingBufLen
  le : q.m_waitingBufLen ≤ MAX_SEND_BUF_SIZE

/-- the queue as the loop finds it -/
structure Holds (q : SendQueue) : Prop extends Recorded q where
  cipher : q.m_cipher = true
  fits : q.m_waitingPos ≤ q.m_waitingBufLen

theorem makeSendBuf_waitingBufLen (q : SendQueue) (junk : Nat → BYTE) :
    (q.makeSendBuf junk).m_waitingBufLen = q.m_waitingBufLen := by
  unfold makeSendBuf
  split
  · rfl
  · rfl

theorem pos_toSize {q : SendQueue} (hq : Holds q) (hp : 0 < q.m_waitingPos) :
    toSize q.m_waitingPos = q.m_waitingPos.toNat := by
  have hfits := hq.fits
  have hle := hq.le
  unfold MAX_SEND_BUF_SIZE at hle
  exact toSize_eq (by omega) (by omega)

theorem needed_lt {q : SendQueue} (hq : Holds q) (hp : 0 < q.m_waitingPos) :
    (q.needed : Int) < q.m_waitingBufLen + 16 := by
  have hblocks := wholeBlocks_lt (toSize q.m_waitingPos)
  have hfits := hq.fits
  rw [pos_toSize hq hp] at hblocks
  unfold AES_BLOCK_SIZE at hblocks
  rw [needed, pos_toSize hq hp]
  omega

/-- the cipher asks for more room exactly if it is offered too little -/
theorem first_answer {q : SendQueue} (hq : Holds q) (hp : 0 < q.m_waitingPos)
    (junk : Nat → BYTE) {e : EncryptCall} (he : AESSized e.answer) :
    ((q.makeSendBuf junk).encrypt junk e).1 = .BUFFER_ERROR ↔ q.offered junk < q.needed := by
  have hlt := needed_lt hq hp
  have hle := hq.le
  unfold MAX_SEND_BUF_SIZE at hle
  have hint : (q.needed : Int) ≤ INT32_MAX := by
    unfold INT32_MAX
    omega
  have hpos := (makeSendBuf_same q junk).pos
  have hroom : toSize ((q.makeSendBuf junk).m_sendBufLen - 8) = q.offered junk := rfl
  have hanswer := he ((q.makeSendBuf junk).heap.load junk (q.makeSendBuf junk).m_waitingBuf
    (toSize q.m_waitingPos)) (q.offered junk)
  rw [Heap.load_length, ← needed] at hanswer
  rw [encrypt, hroom, hpos]
  exact hanswer hint

/-! ## the second call -/

theorem waiting_made {q : SendQueue} (hq : Holds q) (hp : 0 < q.m_waitingPos) :
    MIN_SEND_BUF_SIZE ≤ q.m_waitingBufLen := by
  have hfits := hq.fits
  have hmade := hq.made
  omega

/-- the queue with which the loop asks again -/
def again (q : SendQueue) (junk : Nat → BYTE) (e : EncryptCall) : SendQueue :=
  ((q.makeSendBuf junk).encrypt junk e).2.2.growSendBuf junk e.moves

theorem again_pos (q : SendQueue) (junk : Nat → BYTE) (e : EncryptCall) :
    (q.again junk e).m_waitingPos = q.m_waitingPos := (makeSendBuf_same q junk).pos

theorem again_waitingBufLen (q : SendQueue) (junk : Nat → BYTE) (e : EncryptCall) :
    (q.again junk e).m_waitingBufLen = q.m_waitingBufLen := makeSendBuf_waitingBufLen q junk

theorem Holds.again {q : SendQueue} (hq : Holds q) (junk : Nat → BYTE) (e : EncryptCall) :
    Holds (q.again junk e) := by
  have hlen := again_waitingBufLen q junk e
  refine ⟨⟨?_, ?_⟩, (makeSendBuf_same q junk).cipher.trans hq.cipher, ?_⟩
  · rw [hlen]
    exact hq.made
  · rw [hlen]
    exact hq.le
  · rw [hlen, again_pos]
    exact hq.fits

theorem again_sendBufLen {q : SendQueue} (hq : Holds q) (junk : Nat → BYTE) (e : EncryptCall) :
    (q.again junk e).m_sendBufLen = q.m_waitingBufLen * 3 / 2 := by
  have hmade := hq.made
  have hle := hq.le
  unfold MIN_SEND_BUF_SIZE at hmade
  unfold MAX_SEND_BUF_SIZE at hle
  show toInt32 ((q.makeSendBuf junk).m_waitingBufLen * 3 / 2) = _
  rw [makeSendBuf_waitingBufLen]
  exact toInt32_eq (by omega) (by omega)

/-- **What is recorded at a `BUFFER_ERROR` is enough.** -/
theorem again_room {q : SendQueue} (hq : Holds q) (hp : 0 < q.m_waitingPos) (junk : Nat → BYTE)
    (e : EncryptCall) : q.needed ≤ toSize ((q.again junk e).m_sendBufLen - 8) := by
  have hlt := needed_lt hq hp
  have hmin := waiting_made hq hp
  have hle := hq.le
  unfold MIN_SEND_BUF_SIZE at hmin
  unfold MAX_SEND_BUF_SIZE at hle
  rw [again_sendBufLen hq, toSize_eq (by omega) (by omega)]
  omega

/-- so the second call is offered enough; the send buffer is not made again -/
theorem again_enough {q : SendQueue} (hq : Holds q) (hp : 0 < q.m_waitingPos) (junk : Nat → BYTE)
    (e : EncryptCall) : ¬ (q.again junk e).offered junk < (q.again junk e).needed := by
  have hmin := waiting_made hq hp
  unfold MIN_SEND_BUF_SIZE at hmin
  have hroom := again_room hq hp junk e
  have hsize := again_sendBufLen hq junk e
  have hneeded : (q.again junk e).needed = q.needed := by rw [needed, again_pos, needed]
  rw [offered, makeSendBuf, if_neg (by omega), hneeded]
  omega

theorem encryptCalls_cons (junk : Nat → BYTE) (q : SendQueue) (e : EncryptCall)
    (es : List EncryptCall) :
    encryptCalls junk q (e :: es)
      = if ((q.makeSendBuf junk).encrypt junk e).1 = .BUFFER_ERROR then
          encryptCalls junk (q.again junk e) es + 1
        else 1 := by
  rw [encryptCalls, again]
  generalize (q.makeSendBuf junk).encrypt junk e = r
  obtain ⟨status, out, q1⟩ := r
  cases status <;> rfl

theorem cipherSend_cons (junk : Nat → BYTE) (q : SendQueue) (e : EncryptCall)
    (es : List EncryptCall) :
    (cipherSend junk q (e :: es)).isSome
      = if ((q.makeSendBuf junk).encrypt junk e).1 = .BUFFER_ERROR then
          (cipherSend junk (q.again junk e) es).isSome
        else true := by
  rw [cipherSend, again]
  generalize (q.makeSendBuf junk).encrypt junk e = r
  obtain ⟨status, out, q1⟩ := r
  cases status <;> rfl

/-- a loop that is offered enough asks once -/
theorem first_enough {q : SendQueue} (hq : Holds q) (hp : 0 < q.m_waitingPos) (junk : Nat → BYTE)
    {e : EncryptCall} (he : AESSized e.answer) (es : List EncryptCall)
    (henough : ¬ q.offered junk < q.needed) :
    encryptCalls junk q (e :: es) = 1 ∧ (cipherSend junk q (e :: es)).isSome = true := by
  have hanswer : ¬ ((q.makeSendBuf junk).encrypt junk e).1 = .BUFFER_ERROR :=
    fun h => henough ((first_answer hq hp junk he).mp h)
  rw [encryptCalls_cons, cipherSend_cons, if_neg hanswer, if_neg hanswer]
  exact ⟨rfl, rfl⟩

/-- **The loop asks once, or twice if the send buffer is too small, and comes back.** -/
theorem encryptCalls_eq {q : SendQueue} (hq : Holds q) (hp : 0 < q.m_waitingPos)
    (junk : Nat → BYTE) {e1 e2 : EncryptCall} (h1 : AESSized e1.answer) (h2 : AESSized e2.answer)
    (es : List EncryptCall) :
    encryptCalls junk q (e1 :: e2 :: es) = (if q.offered junk < q.needed then 2 else 1) ∧
      (cipherSend junk q (e1 :: e2 :: es)).isSome = true := by
  by_cases hshort : q.offered junk < q.needed
  · have hanswer := (first_answer hq hp junk h1).mpr hshort
    have hpos := again_pos q junk e1
    obtain ⟨hcalls, hsome⟩ := first_enough (hq.again junk e1) (by omega) junk h2 es
      (again_enough hq hp junk e1)
    rw [encryptCalls_cons, cipherSend_cons, if_pos hanswer, if_pos hanswer, if_pos hshort, hcalls]
    exact ⟨rfl, hsome⟩
  · rw [if_neg hshort]
    exact first_enough hq hp junk h1 (e2 :: es) hshort

theorem encryptCalls_le {q : SendQueue} (hq : Holds q) (hp : 0 < q.m_waitingPos)
    (junk : Nat → BYTE) {es : List EncryptCall} (hes : ∀ e ∈ es, AESSized e.answer) :
    encryptCalls junk q es ≤ 2 := by
  match es with
  | [] => exact Nat.zero_le _
  | [e] =>
    rw [encryptCalls_cons]
    split
    · exact Nat.le_succ _
    · exact Nat.le_succ _
  | e1 :: e2 :: es =>
    rw [(encryptCalls_eq hq hp junk (hes e1 (by simp)) (hes e2 (by simp)) es).1]
    split
    · exact Nat.le_refl _
    · exact Nat.le_succ _

/-- what is recorded at the first `BUFFER_ERROR` is enough, so that `encrypt` is called twice at
most; with two answers at hand the call comes back -/
structure OneRetry (q : SendQueue) (c : Choice) : Prop where
  room : ∀ e ∈ c.encrypts, q.needed ≤ toSize ((q.again c.junk e).m_sendBufLen - 8)
  calls : encryptCalls c.junk q c.encrypts ≤ 2
  returns : 2 ≤ c.encrypts.length → (q.doSendData c).isSome = true

theorem one_retry {q : SendQueue} (hq : Holds q) (hp : 0 < q.m_waitingPos) {c : Choice}
    (hc : ∀ e ∈ c.encrypts, AESSized e.answer) : OneRetry q c where
  room e _ := again_room hq hp c.junk e
  calls := encryptCalls_le hq hp c.junk hc
  returns hlen := by
    obtain ⟨e1, e2, es, he⟩ : ∃ e1 e2 es, c.encrypts = e1 :: e2 :: es := by
      match c.encrypts, hlen with
      | e1 :: e2 :: es, _ => exact ⟨e1, e2, es, rfl⟩
    rw [he] at hc
    rw [doSendData, if_neg (by omega), if_pos hq.cipher, Option.isSome_map, he]
    exact (encryptCalls_eq hq hp c.junk (hc e1 (by simp)) (hc e2 (by simp)) es).2

/-! ## the sizes that are recorded -/

theorem Recorded.nonneg {q : SendQueue} (hq : Recorded q) : 0 ≤ q.m_waitingBufLen := by
  have hmade := hq.made
  unfold MIN_SEND_BUF_SIZE at hmade
  omega

theorem Recorded.room {q : SendQueue} (hq : Recorded q) (c : Choice) {n : Int}
    (hn : n ≤ MAX_SEND_BUF_SIZE) :
    Recorded (q.room c n) ∧ n ≤ (q.room c n).m_waitingBufLen := by
  have h0 := hq.nonneg
  unfold SendQueue.room
  split
  · obtain ⟨hroom, hle, hmin⟩ := resizeLen_spec (n := n) (by omega) hn
    exact ⟨⟨.inr hmin, hle⟩, hroom⟩
  · exact ⟨hq, by omega⟩

/-- a send makes room for what it copies, also where the sum wraps around -/
theorem Recorded.taken {q : SendQueue} (hq : Recorded q) (hc : q.m_cipher = true) (c : Choice)
    (data : ByteArray) {len : Int} (hacc : ¬ toInt32 (len + q.m_waitingPos) > MAX_SEND_BUF_SIZE) :
    Holds (q.taken c data len) := by
  have hsame := room_same q c (toInt32 (len + q.m_waitingPos))
  obtain ⟨hroom, hle⟩ := hq.room c (Int.not_lt.mp hacc)
  refine ⟨⟨hroom.made, hroom.le⟩, hsame.cipher.trans hc, ?_⟩
  show toInt32 ((q.room c _).m_waitingPos + len) ≤ (q.room c _).m_waitingBufLen
  rw [hsame.pos, Int.add_comm]
  exact hle

theorem cipherSend_keeps {junk : Nat → BYTE} {es : List EncryptCall} {q q' : SendQueue}
    (h : cipherSend junk q es = some q') :
    q'.m_waitingBufLen = q.m_waitingBufLen ∧ q'.m_cipher = q.m_cipher := by
  induction es generalizing q with
  | nil => cases h
  | cons e es ih =>
    obtain ⟨⟨r, out, q1⟩, he⟩ : ∃ x, (q.makeSendBuf junk).encrypt junk e = x := ⟨_, rfl⟩
    have hcipher : q1.m_cipher = q.m_cipher :=
      ((makeSendBuf_same q junk).trans (encrypt_same he)).cipher
    have hlen : q1.m_waitingBufLen = q.m_waitingBufLen := by
      cases he
      exact makeSendBuf_waitingBufLen q junk
    rw [cipherSend, he] at h
    cases r with
    | OK =>
      cases h
      exact ⟨hlen, hcipher⟩
    | BUFFER_ERROR =>
      obtain ⟨ihlen, ihcipher⟩ := ih h
      exact ⟨ihlen.trans hlen, ihcipher.trans hcipher⟩
    | UNKNOWN_ERROR =>
      cases h
      exact ⟨hlen, hcipher⟩

theorem Recorded.control {q : SendQueue} (hq : Recorded q) (c : Choice) :
    Recorded (q.control c) := by
  have hle := hq.le
  unfold SendQueue.control
  dsimp only
  split
  · rename_i hhalve
    have hlarge := hhalve.2.1
    unfold MIN_SEND_BUF_SIZE at hlarge
    unfold MAX_SEND_BUF_SIZE at hle
    -- it was larger than two of the smallest
    refine ⟨.inr ?_, ?_⟩
    · show MIN_SEND_BUF_SIZE ≤ q.m_waitingBufLen / 2
      unfold MIN_SEND_BUF_SIZE
      omega
    · show q.m_waitingBufLen / 2 ≤ MAX_SEND_BUF_SIZE
      unfold MAX_SEND_BUF_SIZE
      omega
  · exact ⟨hq.made, hq.le⟩

/-- with a cipher, `doSendData` changes the recorded size by the halving only -/
theorem Recorded.doSendData {q q' : SendQueue} {c : Choice} (hq : Recorded q)
    (hc : q.m_cipher = true) (h : q.doSendData c = some q') :
    Recorded q' ∧ q'.m_cipher = true := by
  by_cases hz : q.m_waitingPos = 0
  · rw [SendQueue.doSendData, if_pos hz] at h
    cases h
    exact ⟨⟨hq.made, hq.le⟩, hc⟩
  · rw [SendQueue.doSendData, if_neg hz, if_pos hc] at h
    obtain ⟨q1, h1, rfl⟩ := Option.map_eq_some_iff.mp h
    obtain ⟨hlen, hcipher⟩ := cipherSend_keeps h1
    have hq1 : Recorded q1 := ⟨hlen ▸ hq.made, hlen ▸ hq.le⟩
    exact ⟨hq1.control c, (control_same q1 c).cipher.trans (hcipher.trans hc)⟩

end SendQueue

/-! ## runs -/

/-- the answers of the cipher that an event may meet -/
def SendEvent.encrypts : SendEvent → List EncryptCall
  | .sendDataAsync _ _ c => c.encrypts
  | .writeEnds _ _ c => c.encrypts
  | _ => []

/-- the cipher is not taken away, and follows the sizing rule -/
structure SendEvent.AESCiphered (e : SendEvent) : Prop where
  keeps : e ≠ .setCipher false
  sized : ∀ call ∈ e.encrypts, AESSized call.answer

namespace Sender
open SendQueue

/-- the position is within the recorded size while a write is under way; on a connection that is up
there is one at most, and none while the flag is not set -/
structure Holding (s : Sender) : Prop where
  recorded : Recorded s.queue
  cipher : s.queue.m_cipher = true
  fits : s.queue.writes ≠ [] → s.queue.m_waitingPos ≤ s.queue.m_waitingBufLen
  one : s.m_bConnected = true → s.queue.writes.length ≤ 1
  idle : s.m_bConnected = true → s.queue.m_bSending = false → s.queue.writes = []
  closed : s.m_bConnected = false → s.queue.m_waitingPos = 0

theorem holding_connected : Holding (connected true) where
  recorded := ⟨.inl rfl, by show (0 : Int) ≤ MAX_SEND_BUF_SIZE; decide⟩
  cipher := rfl
  fits hne := absurd rfl hne
  one _ := Nat.zero_le _
  idle _ _ := rfl
  closed _ := rfl

/-- no loop of the step asks the cipher more than twice -/
def AtMostTwice (s : Sender) (e : SendEvent) : Prop :=
  ∀ p ∈ s.entered e, 0 < p.1.m_waitingPos → OneRetry p.1 p.2

/-- the loop is entered with the position within the waiting buffer, and with no write under way on
a connection that is up -/
theorem Holding.entered {s : Sender} (hs : Holding s) {e : SendEvent} {q : SendQueue} {c : Choice}
    (he : s.entered e = some (q, c)) :
    Holds q ∧ (s.m_bConnected = true → q.writes = []) ∧
      (s.m_bConnected = false → q.m_waitingPos = 0) := by
  cases entered_spec he with
  | @sends data len c hin hacc hsending =>
    have hwrites := (room_same s.queue c (toInt32 (len + s.queue.m_waitingPos))).writes
    exact ⟨hs.recorded.taken hs.cipher c data hacc,
      fun hup => hwrites.trans (hs.idle hup hsending),
      fun hd => absurd (hd.symm.trans hin.1) Bool.false_ne_true⟩
  | completes hi =>
    have hne : s.queue.writes ≠ [] := List.ne_nil_of_length_pos (Nat.zero_lt_of_lt hi)
    exact ⟨⟨⟨hs.recorded.made, hs.recorded.le⟩, hs.cipher, hs.fits hne⟩,
      fun hup => eraseIdx_single (hs.one hup) hi, hs.closed⟩

/-- nothing is asked of the sizes when nothing waits -/
theorem Holding.nothing_waits {s : Sender} (hr : Recorded s.queue) (hc : s.queue.m_cipher = true)
    (hz : s.queue.m_waitingPos = 0) (hone : s.m_bConnected = true → s.queue.writes.length ≤ 1)
    (hidle : s.m_bConnected = true → s.queue.m_bSending = false → s.queue.writes = []) :
    Holding s := by
  refine ⟨hr, hc, fun _ => ?_, hone, hidle, fun _ => hz⟩
  rw [hz]
  exact hr.nonneg

theorem Holding.down {s : Sender} (hr : Recorded s.queue) (hc : s.queue.m_cipher = true)
    (hz : s.queue.m_waitingPos = 0) (hd : ¬ s.m_bConnected = true) : Holding s :=
  .nothing_waits hr hc hz (fun hup => absurd hup hd) (fun hup => absurd hup hd)

theorem Holding.handleConnectionError {s : Sender} (hr : Recorded s.queue)
    (hc : s.queue.m_cipher = true) (h : s.m_bConnected = false → s.queue.m_waitingPos = 0) :
    Holding s.handleConnectionError := by
  unfold Sender.handleConnectionError
  split
  · exact .down ⟨hr.made, hr.le⟩ hc rfl Bool.false_ne_true
  · rename_i hd
    exact .down hr hc (h (Bool.eq_false_iff.mpr hd)) hd

/-- `UNKNOWN_ERROR` may leave the position behind the end of a halved buffer, with no write under
way -/
theorem Holding.calls {s : Sender} {q q' : SendQueue} {c : Choice} (hq : Holds q)
    (hw : s.m_bConnected = true → q.writes = [])
    (hd : s.m_bConnected = false → q.m_waitingPos = 0) (h : q.doSendData c = some q') :
    Holding { s with queue := q' } := by
  obtain ⟨hrecorded, hcipher⟩ := hq.toRecorded.doSendData hq.cipher h
  by_cases hs : Stuck q c
  · obtain ⟨hp, hb, hwrites⟩ := doSendData_stuck h hs
    cases hup : s.m_bConnected with
    | true =>
      have hnone : q'.writes = [] := hwrites.trans (hw hup)
      exact ⟨hrecorded, hcipher, fun hne => absurd hnone hne, fun _ => hnone ▸ Nat.zero_le _,
        fun _ _ => hnone, fun hdown => absurd hdown Bool.noConfusion⟩
    | false =>
      exact .down hrecorded hcipher (hp.trans (hd hup)) Bool.false_ne_true
  · rcases doSendData_writes h hs with ⟨hz, rfl⟩ | ⟨hz, hb, hl⟩
    · refine .nothing_waits hrecorded hcipher hz (fun hup => ?_) (fun hup _ => hw hup)
      show q.writes.length ≤ 1
      rw [hw hup]
      exact Nat.zero_le _
    · refine .nothing_waits hrecorded hcipher hz (fun hup => ?_)
        (fun _ hidle => absurd (hb.symm.trans hidle) Bool.noConfusion)
      show q'.writes.length ≤ 1
      rw [hl, hw hup]
      exact Nat.le_refl _

theorem step_holding {s s' : Sender} {e : SendEvent} (hs : Holding s) (he : e.AESCiphered)
    (h : s.step e = some s') : Holding s' := by
  have hr := hs.recorded
  cases step_effect h with
  | calls hentered hq =>
    obtain ⟨hholds, hw, hd⟩ := hs.entered hentered
    exact .calls hholds hw hd hq
  | @waits data len c hin hacc hb =>
    have hsame := room_same s.queue c (toInt32 (len + s.queue.m_waitingPos))
    have hholds := hr.taken hs.cipher c data hacc
    have hsending : (s.queue.taken c data len).m_bSending = true := hsame.sending.trans hb
    refine ⟨hholds.toRecorded, hholds.cipher, fun _ => hholds.fits, fun hup => ?_,
      fun _ hidle => absurd (hsending.symm.trans hidle) Bool.noConfusion,
      fun hd => absurd (hd.symm.trans hin.1) Bool.false_ne_true⟩
    show (s.queue.room c _).writes.length ≤ 1
    rw [hsame.writes]
    exact hs.one hup
  | rejected d _ => exact .nothing_waits ⟨hr.made, hr.le⟩ hs.cipher rfl hs.one hs.idle
  | ignored _ => exact hs
  | fails => exact .handleConnectionError ⟨hr.made, hr.le⟩ hs.cipher hs.closed
  | setCipher on =>
    have hon : on = true := Bool.eq_true_of_not_eq_false fun hoff => he.keeps (congrArg _ hoff)
    exact ⟨⟨hr.made, hr.le⟩, hon, hs.fits, hs.one, hs.idle, hs.closed⟩
  | doClose => exact .down ⟨hr.made, hr.le⟩ hs.cipher rfl Bool.false_ne_true
  | handleConnectionError => exact .handleConnectionError hr hs.cipher hs.closed

/-- the answers are those of the event -/
theorem entered_encrypts {s : Sender} {e : SendEvent} {q : SendQueue} {c : Choice}
    (he : s.entered e = some (q, c)) : e.encrypts = c.encrypts := by
  cases entered_spec he with
  | sends _ _ _ => rfl
  | completes _ => rfl

theorem step_at_most_twice {s : Sender} {e : SendEvent} (hs : Holding s) (he : e.AESCiphered) :
    AtMostTwice s e := by
  rintro ⟨q, c⟩ hentered hp
  obtain ⟨hholds, -⟩ := hs.entered hentered
  refine one_retry hholds hp fun call hcall => he.sized call ?_
  rw [entered_encrypts hentered]
  exact hcall

/-- **On a connection with a cipher no loop of any run calls `encrypt` more than twice.** -/
theorem encrypt_twice {es : List SendEvent} (hes : ∀ e ∈ es, e.AESCiphered) :
    Machine.Along step AtMostTwice (connected true) es :=
  Machine.along_inv (P := fun _ e => e.AESCiphered) Holding
    (fun _ _ _ hs he h => step_holding hs he h) (fun _ _ hs he => step_at_most_twice hs he)
    holding_connected (Machine.along_events _ hes)

/-- two calls of `AESCipher::encrypt` at hand -/
def aesCalls : Choice :=
  { still with
    encrypts := List.replicate 2 ⟨aesAnswer evpPlain (fun _ => 0) passwordKey, false⟩ }

/-- a send, one that waits for it, and the completion that sends the second -/
def aesRun : List SendEvent :=
  [.sendDataAsync [1] 1 aesCalls, .sendDataAsync [2, 3] 2 aesCalls, .writeEnds 0 false aesCalls]

theorem encrypt_twice_aes : (Machine.run step (connected true) aesRun).isSome = true ∧
    Machine.Along step AtMostTwice (connected true) aesRun := by
  have hsized : ∀ call ∈ aesCalls.encrypts, AESSized call.answer := by
    intro call hcall
    rw [List.eq_of_mem_replicate hcall]
    dsimp only
    exact aes_sized evpPlain (fun _ => 0) passwordKey
  refine ⟨by decide +kernel, encrypt_twice ?_⟩
  simp only [aesRun, List.forall_mem_cons]
  exact ⟨⟨SendEvent.noConfusion, hsized⟩, ⟨SendEvent.noConfusion, hsized⟩,
    ⟨SendEvent.noConfusion, hsized⟩, List.forall_mem_nil _⟩

end Sender

end Netwb
