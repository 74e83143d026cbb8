import Netwb.Net.Session

/-!
# The sender and the answers of the cipher

The sending side of a connection: the queue, whether it is connected, and whether it has been
reported as failed.  `setCipher` may come at any time, so the two modes of `doSendData` alternate.

`doSendData` sets `m_bSending` on the branches that write and clears it when nothing waits.  When
the cipher answers `UNKNOWN_ERROR` it does neither: entered from a send it leaves the data waiting
with nothing under way, entered from a completion it leaves the flag set.

* `doSendData_writes`   a call that does not end with `UNKNOWN_ERROR` writes all that waits;
* `doSendData_stuck`    one that does leaves the flag, the position and the writes as they were;
* `never_stalls`        in every run in which no call ends so, the flag tells whether a write is
                        under way, and nothing waits without one.
-/

namespace Netwb
open Wire

namespace SendQueue

/-- the answer that ends the inner loop of `doSendData` -/
def lastAnswer (junk : Nat → BYTE) : SendQueue → List EncryptCall → Option CIPHER_STATUS
  | _, [] => none
  | q, e :: es =>
    match (q.makeSendBuf junk).encrypt junk e with
    | (.BUFFER_ERROR, _, q) => lastAnswer junk (q.growSendBuf junk e.moves) es
    | (r, _, _) => some r

/-- `doSendData` asks the cipher, and the answer that ends its loop is `UNKNOWN_ERROR` -/
def Stuck (q : SendQueue) (c : Choice) : Prop :=
  q.m_waitingPos ≠ 0 ∧ q.m_cipher = true ∧
    lastAnswer c.junk q c.encrypts = some .UNKNOWN_ERROR

instance (q : SendQueue) (c : Choice) : Decidable (Stuck q c) :=
  inferInstanceAs (Decidable (_ ∧ _ ∧ _))

/-- the waiting buffer with room for `needSize` bytes -/
def room (q : SendQueue) (c : Choice) (needSize : Int) : SendQueue :=
  if needSize > q.m_waitingBufLen then q.grow c needSize else q

/-- the queue when `sendDataAsync` has copied the data -/
def taken (q : SendQueue) (c : Choice) (data : ByteArray) (len : Int) : SendQueue :=
  let g := q.room c (toInt32 (len + q.m_waitingPos))
  { g with
    heap := g.heap.store g.m_waitingBuf g.m_waitingPos (source c data len)
    m_waitingPos := toInt32 (g.m_waitingPos + len)
    accepted := g.accepted ++ source c data len }

theorem room_same (q : SendQueue) (c : Choice) (n : Int) : Same q (q.room c n) := by
  unfold room
  split
  · exact grow_same q c n
  · exact .refl q

theorem control_same (q : SendQueue) (c : Choice) : Same q (q.control c) := by
  unfold control
  dsimp only
  split
  · exact ⟨rfl, rfl, rfl, rfl, rfl, rfl, rfl⟩
  · exact ⟨rfl, rfl, rfl, rfl, rfl, rfl, rfl⟩

theorem append_taken (q : SendQueue) (c : Choice) (data : ByteArray) (len : Int)
    (hacc : ¬ toInt32 (len + q.m_waitingPos) > MAX_SEND_BUF_SIZE) :
    q.append c data len = (if q.m_bSending then some (q.taken c data len)
      else (q.taken c data len).doSendData c).map fun q => (q, true) := by
  have hs := (room_same q c (toInt32 (len + q.m_waitingPos))).sending
  rw [append]
  dsimp only
  rw [if_neg hacc, ← hs]
  rfl

/-! ## what a call of `doSendData` does -/

theorem makeSendBuf_same (q : SendQueue) (junk : Nat → BYTE) : Same q (q.makeSendBuf junk) := by
  unfold makeSendBuf
  split
  · exact ⟨rfl, rfl, rfl, rfl, rfl, rfl, rfl⟩
  · exact .refl q

theorem encrypt_same {q q' : SendQueue} {junk : Nat → BYTE} {e : EncryptCall} {r : CIPHER_STATUS}
    {out : ByteArray} (h : q.encrypt junk e = (r, out, q')) : Same q q' := by
  cases h
  exact ⟨rfl, rfl, rfl, rfl, rfl, rfl, rfl⟩

/-- the loop that ends with `OK` has written, the one that ends with `UNKNOWN_ERROR` has not -/
theorem cipherSend_answer {junk : Nat → BYTE} {es : List EncryptCall} {q q' : SendQueue}
    (h : cipherSend junk q es = some q') :
    (lastAnswer junk q es = some .OK ∧ q'.m_waitingPos = 0 ∧ q'.m_bSending = true ∧
      q'.writes.length = q.writes.length + 1) ∨
    (lastAnswer junk q es = some .UNKNOWN_ERROR ∧ q'.m_waitingPos = q.m_waitingPos ∧
      q'.m_bSending = q.m_bSending ∧ q'.writes = q.writes) := by
  induction es generalizing q with
  | nil => cases h
  | cons e es ih =>
    obtain ⟨⟨r, out, q1⟩, he⟩ : ∃ x, (q.makeSendBuf junk).encrypt junk e = x := ⟨_, rfl⟩
    have hq1 : Same q q1 := (makeSendBuf_same q junk).trans (encrypt_same he)
    rw [cipherSend, he] at h
    rw [lastAnswer, he]
    cases r with
    | OK =>
      cases h
      refine .inl ⟨rfl, rfl, rfl, ?_⟩
      show (q1.writes ++ [_]).length = _
      rw [List.length_append, hq1.writes]
      rfl
    | BUFFER_ERROR =>
      -- `growSendBuf` is about the buffer alone
      rcases ih h with ⟨i1, i2, i3, i4⟩ | ⟨i1, i2, i3, i4⟩
      · refine .inl ⟨i1, i2, i3, i4.trans ?_⟩
        show q1.writes.length + 1 = _
        rw [hq1.writes]
      · exact .inr ⟨i1, i2.trans hq1.pos, i3.trans hq1.sending, i4.trans hq1.writes⟩
    | UNKNOWN_ERROR =>
      cases h
      exact .inr ⟨rfl, hq1.pos, hq1.sending, hq1.writes⟩

/-- **A call that does not end with `UNKNOWN_ERROR` writes all that waits, or clears the flag when
nothing does.** -/
theorem doSendData_writes {q q' : SendQueue} {c : Choice} (h : q.doSendData c = some q')
    (hs : ¬ Stuck q c) :
    (q.m_waitingPos = 0 ∧ q' = { q with m_bSending := false }) ∨
    (q'.m_waitingPos = 0 ∧ q'.m_bSending = true ∧ q'.writes.length = q.writes.length + 1) := by
  rw [doSendData] at h
  split at h
  · rename_i hz
    cases h
    exact .inl ⟨hz, rfl⟩
  · rename_i hz
    right
    split at h
    · rename_i hc
      obtain ⟨q1, h1, rfl⟩ := Option.map_eq_some_iff.mp h
      have hsame := control_same q1 c
      rcases cipherSend_answer h1 with ⟨_, hp, hb, hw⟩ | ⟨ha, _⟩
      · exact ⟨hsame.pos.trans hp, hsame.sending.trans hb, by rw [hsame.writes]; exact hw⟩
      · exact absurd ⟨hz, hc, ha⟩ hs
    · cases h
      have hsame := control_same (q.plainSend c.junk) c
      refine ⟨hsame.pos, hsame.sending, ?_⟩
      rw [hsame.writes]
      exact List.length_append

/-- **One that does leaves the flag, the position and the writes as they were.** -/
theorem doSendData_stuck {q q' : SendQueue} {c : Choice} (h : q.doSendData c = some q')
    (hs : Stuck q c) :
    q'.m_waitingPos = q.m_waitingPos ∧ q'.m_bSending = q.m_bSending ∧ q'.writes = q.writes := by
  obtain ⟨hz, hc, ha⟩ := hs
  rw [doSendData, if_neg hz, if_pos hc] at h
  obtain ⟨q1, h1, rfl⟩ := Option.map_eq_some_iff.mp h
  have hsame := control_same q1 c
  rcases cipherSend_answer h1 with ⟨ha', _⟩ | ⟨_, hp, hb, hw⟩
  · rw [ha] at ha'
    cases ha'
  · exact ⟨hsame.pos.trans hp, hsame.sending.trans hb, hsame.writes.trans hw⟩

end SendQueue

/-! ## the sending side -/

structure Sender where
  queue : SendQueue
  m_bConnected : Bool
  /-- whether `handleConnectionError` has been posted or has run -/
  reported : Bool

inductive SendEvent where
  | sendDataAsync (data : ByteArray) (len : Int) (c : Choice)
  /-- `handleSendData` runs for a write -/
  | writeEnds (i : Nat) (err : Bool) (c : Choice)
  | setCipher (on : Bool)
  | doClose
  | handleConnectionError

namespace Sender

/-- a connection that has been made, with a cipher or without -/
def connected (m_cipher : Bool) : Sender := ⟨.init m_cipher, true, false⟩

def doClose (s : Sender) : Sender :=
  { s with m_bConnected := false, queue := NetConnection.clear s.queue }

def handleConnectionError (s : Sender) : Sender :=
  if s.m_bConnected then { s.doClose with reported := true } else s

def sendDataAsync (s : Sender) (c : Choice) (data : ByteArray) (len : Int) : Option Sender :=
  if s.m_bConnected ∧ data ≠ [] ∧ len > 0 then
    (s.queue.append c data len).map fun r =>
      { s with queue := r.1, reported := s.reported || !r.2 }
  else some s

def writeEnds (s : Sender) (i : Nat) (err : Bool) (c : Choice) : Option Sender :=
  if err then
    if i < s.queue.writes.length then
      some { s with queue := { s.queue with
        writes := s.queue.writes.eraseIdx i } }.handleConnectionError
    else none
  else (s.queue.handleSendData i c).map fun q => { s with queue := q }

def step (s : Sender) : SendEvent → Option Sender
  | .sendDataAsync data len c => s.sendDataAsync c data len
  | .writeEnds i err c => s.writeEnds i err c
  | .setCipher on => some { s with queue := { s.queue with m_cipher := on } }
  | .doClose => some s.doClose
  | .handleConnectionError => some s.handleConnectionError

/-- the queue with which the step enters `doSendData`, if it does -/
def entered (s : Sender) : SendEvent → Option (SendQueue × Choice)
  | .sendDataAsync data len c =>
    if (s.m_bConnected ∧ data ≠ [] ∧ len > 0) ∧
        ¬ toInt32 (len + s.queue.m_waitingPos) > MAX_SEND_BUF_SIZE ∧ s.queue.m_bSending = false then
      some (s.queue.taken c data len, c)
    else none
  | .writeEnds i false c =>
    if i < s.queue.writes.length then
      some ({ s.queue with writes := s.queue.writes.eraseIdx i }, c)
    else none
  | _ => none

/-- the two ways into `doSendData` -/
inductive Entered (s : Sender) : SendEvent → SendQueue → Choice → Prop
  | sends {data : ByteArray} {len : Int} {c : Choice}
      (hin : s.m_bConnected ∧ data ≠ [] ∧ len > 0)
      (hacc : ¬ toInt32 (len + s.queue.m_waitingPos) > MAX_SEND_BUF_SIZE)
      (hs : s.queue.m_bSending = false) :
      Entered s (.sendDataAsync data len c) (s.queue.taken c data len) c
  | completes {i : Nat} {c : Choice} (hi : i < s.queue.writes.length) :
      Entered s (.writeEnds i false c) { s.queue with writes := s.queue.writes.eraseIdx i } c

theorem entered_spec {s : Sender} {e : SendEvent} {q : SendQueue} {c : Choice}
    (he : s.entered e = some (q, c)) : Entered s e q c := by
  cases e with
  | sendDataAsync data len c =>
    rw [entered] at he
    split at he
    · rename_i hin
      cases he
      exact .sends hin.1 hin.2.1 hin.2.2
    · cases he
  | writeEnds i err c =>
    cases err with
    | true => cases he
    | false =>
      rw [entered] at he
      split at he
      · rename_i hi
        cases he
        exact .completes hi
      · cases he
  | setCipher on => cases he
  | doClose => cases he
  | handleConnectionError => cases he

/-- what a step does -/
inductive Effect (s : Sender) : SendEvent → Sender → Prop
  | calls {e : SendEvent} {q q' : SendQueue} {c : Choice} (he : s.entered e = some (q, c))
      (h : q.doSendData c = some q') : Effect s e { s with queue := q' }
  | waits {data : ByteArray} {len : Int} {c : Choice}
      (hin : s.m_bConnected ∧ data ≠ [] ∧ len > 0)
      (hacc : ¬ toInt32 (len + s.queue.m_waitingPos) > MAX_SEND_BUF_SIZE)
      (hs : s.queue.m_bSending = true) :
      Effect s (.sendDataAsync data len c) { s with queue := s.queue.taken c data len }
  | rejected {data : ByteArray} {len : Int} {c : Choice} (d : Bool)
      (hrej : toInt32 (len + s.queue.m_waitingPos) > MAX_SEND_BUF_SIZE) :
      Effect s (.sendDataAsync data len c)
        { s with queue := { s.queue with m_waitingPos := 0, dropped := d }, reported := true }
  | ignored {data : ByteArray} {len : Int} {c : Choice}
      (hout : ¬ (s.m_bConnected ∧ data ≠ [] ∧ len > 0)) : Effect s (.sendDataAsync data len c) s
  | fails {i : Nat} {c : Choice} : Effect s (.writeEnds i true c)
      { s with queue := { s.queue with
          writes := s.queue.writes.eraseIdx i } }.handleConnectionError
  | setCipher (on : Bool) :
      Effect s (.setCipher on) { s with queue := { s.queue with m_cipher := on } }
  | doClose : Effect s .doClose s.doClose
  | handleConnectionError : Effect s .handleConnectionError s.handleConnectionError

theorem step_effect {s s' : Sender} {e : SendEvent} (h : s.step e = some s') : Effect s e s' := by
  cases e with
  | sendDataAsync data len c =>
    rw [step, sendDataAsync] at h
    split at h
    · rename_i hin
      obtain ⟨r, hr, rfl⟩ := Option.map_eq_some_iff.mp h
      by_cases hrej : toInt32 (len + s.queue.m_waitingPos) > MAX_SEND_BUF_SIZE
      · rw [SendQueue.append_rejected s.queue c data len hrej] at hr
        cases hr
        rw [Bool.not_false, Bool.or_true]
        exact .rejected _ hrej
      · rw [SendQueue.append_taken s.queue c data len hrej] at hr
        obtain ⟨q, hq, rfl⟩ := Option.map_eq_some_iff.mp hr
        rw [Bool.not_true, Bool.or_false]
        cases hs : s.queue.m_bSending with
        | true =>
          rw [hs, if_pos rfl] at hq
          cases hq
          exact .waits hin hrej hs
        | false =>
          rw [hs, if_neg Bool.false_ne_true] at hq
          exact .calls (by rw [entered, if_pos ⟨hin, hrej, hs⟩]) hq
    · rename_i hout
      cases h
      exact .ignored hout
  | writeEnds i err c =>
    rw [step, writeEnds] at h
    cases err with
    | true =>
      rw [if_pos rfl] at h
      split at h
      · cases h
        exact .fails
      · cases h
    | false =>
      rw [if_neg Bool.false_ne_true] at h
      obtain ⟨q, hq, rfl⟩ := Option.map_eq_some_iff.mp h
      rw [SendQueue.handleSendData] at hq
      split at hq
      · rename_i hi
        exact .calls (by rw [entered, if_pos hi]) hq
      · cases hq
  | setCipher on =>
    cases h
    exact .setCipher on
  | doClose =>
    cases h
    exact .doClose
  | handleConnectionError =>
    cases h
    exact .handleConnectionError

/-! ## the flag and the writes -/

/-- the flag tells whether a write is under way, and nothing waits without one -/
structure Unstalled (s : Sender) : Prop where
  sending : s.m_bConnected = true → (s.queue.m_bSending = true ↔ s.queue.writes ≠ [])
  waiting : s.queue.m_waitingPos > 0 → s.queue.writes ≠ [] ∨ s.reported = true

/-- `doSendData` does not end with `UNKNOWN_ERROR` in the step -/
def Answered (s : Sender) (e : SendEvent) : Prop := ∀ p ∈ s.entered e, ¬ SendQueue.Stuck p.1 p.2

instance (s : Sender) (e : SendEvent) : Decidable (Answered s e) :=
  inferInstanceAs (Decidable (∀ p ∈ s.entered e, ¬ SendQueue.Stuck p.1 p.2))

/-- one write at most while the connection is up, and nothing waits when none is under way -/
structure Live (s : Sender) : Prop where
  one : s.m_bConnected = true → s.queue.writes.length ≤ 1
  sending : s.m_bConnected = true → (s.queue.m_bSending = true ↔ s.queue.writes ≠ [])
  drained : s.m_bConnected = true → s.queue.writes = [] → s.queue.m_waitingPos = 0
  closed : s.m_bConnected = false → s.queue.m_waitingPos = 0

theorem live_connected (m_cipher : Bool) : Live (connected m_cipher) :=
  ⟨fun _ => Nat.zero_le _, fun _ => ⟨fun e => Bool.noConfusion e, fun e => absurd rfl e⟩,
    fun _ _ => rfl, fun _ => rfl⟩

theorem Live.idle {s : Sender} (h : Live s) (hup : s.m_bConnected = true)
    (hb : s.queue.m_bSending = false) : s.queue.writes = [] := by
  by_contra hne
  exact Bool.false_ne_true (hb.symm.trans ((h.sending hup).mpr hne))

/-- nothing is asked of a connection that is down but an empty queue -/
theorem Live.down {s : Sender} (hd : s.m_bConnected = false) (hp : s.queue.m_waitingPos = 0) :
    Live s := by
  have hne : ¬ s.m_bConnected = true := by rw [hd]; exact Bool.false_ne_true
  exact ⟨fun h => absurd h hne, fun h => absurd h hne, fun h => absurd h hne, fun _ => hp⟩

theorem live_doClose (s : Sender) : Live s.doClose := .down rfl rfl

theorem Live.handleConnectionError {s : Sender} (h : s.m_bConnected = false → Live s) :
    Live s.handleConnectionError := by
  unfold Sender.handleConnectionError
  split
  · exact .down rfl rfl
  · rename_i hd
    exact h (Bool.eq_false_iff.mpr hd)

/-- `doSendData` is entered with no write under way -/
theorem Live.calls {s : Sender} {q q' : SendQueue} {c : Choice} (hw : s.m_bConnected = true →
    q.writes = []) (hs : ¬ SendQueue.Stuck q c) (h : q.doSendData c = some q') :
    Live { s with queue := q' } := by
  rcases SendQueue.doSendData_writes h hs with ⟨hp, rfl⟩ | ⟨hp, hb, hl⟩
  · refine ⟨fun hup => ?_, fun hup => ?_, fun _ _ => hp, fun _ => hp⟩
    · show q.writes.length ≤ 1
      rw [hw hup]
      exact Nat.zero_le _
    · show false = true ↔ q.writes ≠ []
      rw [hw hup]
      exact ⟨fun e => Bool.noConfusion e, fun e => absurd rfl e⟩
  · refine ⟨fun hup => ?_, fun hup => ?_, fun _ _ => hp, fun _ => hp⟩
    · show q'.writes.length ≤ 1
      rw [hl, hw hup]
      exact Nat.le_refl _
    · refine ⟨fun _ he => ?_, fun _ => hb⟩
      rw [show q'.writes = [] from he] at hl
      cases hl

/-- of at most one write none is left -/
theorem eraseIdx_single {ws : List Write} {i : Nat} (hone : ws.length ≤ 1) (hi : i < ws.length) :
    ws.eraseIdx i = [] := by
  have hlen := List.length_eraseIdx_of_lt hi
  refine List.eq_nil_of_length_eq_zero ?_
  omega

/-- a connection that is up enters `doSendData` with no write under way -/
theorem entered_idle {s : Sender} {e : SendEvent} {q : SendQueue} {c : Choice} (hl : Live s)
    (hup : s.m_bConnected = true) (he : s.entered e = some (q, c)) : q.writes = [] := by
  cases entered_spec he with
  | @sends data len c hin hacc hs =>
    exact (SendQueue.room_same s.queue c _).writes.trans (hl.idle hup hs)
  | completes hi => exact eraseIdx_single (hl.one hup) hi

theorem step_live {s s' : Sender} {e : SendEvent} (hl : Live s) (ha : Answered s e)
    (h : s.step e = some s') : Live s' := by
  cases step_effect h with
  | @calls _ q q' c he hq =>
    refine Live.calls (fun hup => ?_) (ha _ he) hq
    exact entered_idle hl hup he
  | @waits data len c hin hacc hs =>
    have hsame := SendQueue.room_same s.queue c (toInt32 (len + s.queue.m_waitingPos))
    have hw : (s.queue.taken c data len).writes = s.queue.writes := hsame.writes
    have hb : (s.queue.taken c data len).m_bSending = s.queue.m_bSending := hsame.sending
    have hne := (hl.sending hin.1).mp hs
    refine ⟨fun hup => ?_, fun hup => ?_, fun _ he => ?_, fun hd => ?_⟩
    · show (s.queue.taken c data len).writes.length ≤ 1
      rw [hw]
      exact hl.one hup
    · show (s.queue.taken c data len).m_bSending = true ↔ (s.queue.taken c data len).writes ≠ []
      rw [hw, hb]
      exact hl.sending hup
    · exact absurd (hw.symm.trans he) hne
    · exact absurd (hd.symm.trans hin.1) Bool.false_ne_true
  | rejected d _ => exact ⟨hl.one, hl.sending, fun _ _ => rfl, fun _ => rfl⟩
  | ignored _ => exact hl
  | fails =>
    apply Live.handleConnectionError
    intro hd
    exact .down hd (hl.closed hd)
  | setCipher on => exact ⟨hl.one, hl.sending, hl.drained, hl.closed⟩
  | doClose => exact live_doClose s
  | handleConnectionError => exact .handleConnectionError fun _ => hl

/-- **The sender never stalls in a run in which no call of `doSendData` ends with
`UNKNOWN_ERROR`.** -/
theorem never_stalls (m_cipher : Bool) {es : List SendEvent} {s : Sender}
    (ha : Machine.Along step Answered (connected m_cipher) es)
    (h : Machine.run step (connected m_cipher) es = some s) : Unstalled s := by
  have hl : Live s := Machine.run_inv Live (fun _ _ _ hI hP hs => step_live hI hP hs)
    (live_connected m_cipher) ha h
  refine ⟨hl.sending, fun hp => .inl fun he => ?_⟩
  cases hup : s.m_bConnected with
  | true =>
    have := hl.drained hup he
    omega
  | false =>
    have := hl.closed hup
    omega

/-- a cipher that answers as it is told, one call after the other -/
def asking (answers : List CIPHER_STATUS) : Choice :=
  { SendQueue.still with
    encrypts := answers.map fun r => ⟨fun p room => (r, p.take room), false⟩ }

/-- two sends and a completion; the first call of the cipher asks for more room -/
theorem never_stalls_retry : ∃ s, Machine.run step (connected true)
      [.sendDataAsync [1] 1 (asking [.BUFFER_ERROR, .OK]), .sendDataAsync [2] 1 (asking []),
       .writeEnds 0 false (asking [.OK])] = some s ∧ Unstalled s := by
  have hrun : (Machine.run step (connected true)
      [.sendDataAsync [1] 1 (asking [.BUFFER_ERROR, .OK]), .sendDataAsync [2] 1 (asking []),
       .writeEnds 0 false (asking [.OK])]).isSome = true := by
    decide +kernel
  obtain ⟨s, h⟩ := Option.isSome_iff_exists.mp hrun
  exact ⟨s, h, never_stalls true (by decide +kernel) h⟩

/-- the cipher answers `UNKNOWN_ERROR` to the first send: the byte waits with no write under way -/
theorem sender_stalls : ∃ s, Machine.run step (connected true)
      [.sendDataAsync [1] 1 (asking [.UNKNOWN_ERROR])] = some s ∧ s.m_bConnected = true ∧
    s.queue.m_waitingPos = 1 ∧ ¬ Unstalled s := by
  have hrun : (Machine.run step (connected true)
      [.sendDataAsync [1] 1 (asking [.UNKNOWN_ERROR])]).map (fun s =>
        (s.m_bConnected, s.queue.m_waitingPos, s.queue.writes.length, s.reported))
      = some (true, 1, 0, false) := by
    decide +kernel
  obtain ⟨s, h, hs⟩ := Option.map_eq_some_iff.mp hrun
  simp only [Prod.mk.injEq] at hs
  obtain ⟨h1, h2, h3, h4⟩ := hs
  refine ⟨s, h, h1, h2, fun hu => ?_⟩
  rcases hu.waiting (by omega) with hne | hr
  · exact hne (List.eq_nil_of_length_eq_zero h3)
  · rw [h4] at hr
    cases hr

/-- a step that enters `doSendData` does nothing else -/
theorem step_entered {s s' : Sender} {e : SendEvent} {q : SendQueue} {c : Choice}
    (he : s.entered e = some (q, c)) (h : s.step e = some s') :
    ∃ q', q.doSendData c = some q' ∧ s' = { s with queue := q' } := by
  cases step_effect h with
  | @calls _ q1 q' c1 he1 hq =>
    rw [he1] at he
    cases he
    exact ⟨q', hq, rfl⟩
  | waits _ _ hs =>
    cases entered_spec he with
    | sends _ _ hidle => exact absurd (hs.symm.trans hidle) Bool.noConfusion
  | rejected d hrej =>
    cases entered_spec he with
    | sends _ hacc _ => exact absurd hrej hacc
  | ignored hout =>
    cases entered_spec he with
    | sends hin _ _ => exact absurd hin hout
  | fails => cases entered_spec he
  | setCipher on => cases entered_spec he
  | doClose => cases entered_spec he
  | handleConnectionError => cases entered_spec he

/-- data that is taken when nothing waits is what waits -/
theorem taken_pos {q : SendQueue} (hz : q.m_waitingPos = 0) (c : Choice) (data : ByteArray)
    {len : Int} (h0 : 0 < len) (hlen : len ≤ INT32_MAX) :
    (q.taken c data len).m_waitingPos = len := by
  have hsame := (SendQueue.room_same q c (toInt32 (len + q.m_waitingPos))).pos
  show toInt32 ((q.room c _).m_waitingPos + len) = len
  unfold INT32_MAX at hlen
  rw [hsame, hz, Int.zero_add]
  exact toInt32_eq (by omega) (by omega)

/-- **A step in which it does stalls the sender**, from a send and from a completion, as long as
the connection has not been reported as failed. -/
theorem stuck_stalls {s s' : Sender} {e : SendEvent} (hl : Live s) (hup : s.m_bConnected = true)
    (hr : s.reported = false) (hlen : ∀ data len c, e = .sendDataAsync data len c → len ≤ INT32_MAX)
    (ha : ¬ Answered s e) (h : s.step e = some s') : ¬ Unstalled s' := by
  unfold Answered at ha
  push Not at ha
  obtain ⟨⟨q, c⟩, he, hst⟩ := ha
  have hidle := entered_idle hl hup he
  obtain ⟨q', hq, rfl⟩ := step_entered he h
  obtain ⟨hp, hb, hw⟩ := SendQueue.doSendData_stuck hq hst
  intro hu
  cases entered_spec he with
  | @sends data len c hin hacc hflag =>
    -- the data waits and no write is under way
    have hpos := hin.2.2
    have htaken := taken_pos (hl.drained hup (hl.idle hup hflag)) c data hpos
      (hlen data len c rfl)
    rcases hu.waiting (by show q'.m_waitingPos > 0; omega) with hne | hrep
    · exact hne (hw.trans hidle)
    · exact absurd (hr.symm.trans hrep) Bool.false_ne_true
  | completes hi =>
    -- the flag stays set and no write is under way
    have hne : s.queue.writes ≠ [] := by
      intro e
      rw [e] at hi
      exact absurd hi (Nat.not_lt_zero _)
    exact (hu.sending hup).mp (hb.trans ((hl.sending hup).mpr hne)) (hw.trans hidle)

end Sender

end Netwb
