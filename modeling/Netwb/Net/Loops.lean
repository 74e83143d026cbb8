import Netwb.Lib.Tokens
import Netwb.Net.SessionRuns
import Netwb.Net.Sender
import Netwb.Net.Client

/-!
# The loops of a connection

A connection repeats itself in four ways: a read is followed by its handler, which starts the next
one, and the same goes for the writes and the two timers.  Each of the four has one token, the
operation or wait that is pending or the handler that is queued with what came of it.

* `step_turns`      no step makes another token of the reads or of a timer;
* `step_writing`    nor of the writes: a write is started by a handler that has just used up its
                    token, or by a send that finds `m_bSending` off;
* `step_going`      a step that leaves the connection up takes no token away for good;
* `loops_go_on`     so in every state that a connection reaches each loop has one token at most, and
                    exactly one as long as the connection is up.
-/

namespace Netwb
open Wire Machine

/-- what repeats itself -/
inductive Loop where
  | read
  | write
  | keepAlive
  | timeout
deriving DecidableEq, Repr

/-- the loop that a handler goes on with; one of a cancelled timer ends its loop -/
def Handler.loop : Handler → Option Loop
  | .handleRecvData _ _ => some .read
  | .handleSendData _ => some .write
  | .doSendKeepAlive false => some .keepAlive
  | .doTimeoutCheck false => some .timeout
  | _ => none

namespace NetConnection

/-- the operations and waits of a loop that have not ended -/
def pending (s : NetConnection) : Loop → Nat
  | .read => s.reads
  | .write => s.queue.writes.length
  | .keepAlive => s.keepAliveArmed.toNat
  | .timeout => s.timeoutArmed.toNat

/-- the tokens of a loop -/
def turns (s : NetConnection) (l : Loop) : Nat :=
  s.pending l + s.posted.countP fun h => h.loop = some l

/-! ## what the parts of a step do to the tokens -/

theorem post_turns (s : NetConnection) (h : Handler) (l : Loop) :
    (s.post h).turns l = s.turns l + if h.loop = some l then 1 else 0 := by
  unfold turns post
  rw [countP_enqueue, ← Nat.add_assoc]
  cases l <;> simp [pending]

/-- a handler that goes on with nothing -/
theorem post_turns_none (s : NetConnection) {h : Handler} (hn : h.loop = none) (l : Loop) :
    (s.post h).turns l = s.turns l := by
  rw [post_turns, hn, if_neg (Option.some_ne_none l).symm, Nat.add_zero]

theorem dequeue_turns {s : NetConnection} {i : Nat} {h : Handler} (hi : s.posted[i]? = some h)
    (l : Loop) : (s.dequeue i).turns l + (if h.loop = some l then 1 else 0) = s.turns l := by
  have hc := countP_dequeue (fun h : Handler => decide (h.loop = some l)) hi
  simp only [decide_eq_true_eq] at hc
  unfold turns
  rw [← hc, ← Nat.add_assoc]
  rfl

theorem dequeue_turns_le {s : NetConnection} {i : Nat} {h : Handler} (hi : s.posted[i]? = some h)
    (l : Loop) : (s.dequeue i).turns l ≤ s.turns l :=
  Nat.le.intro (dequeue_turns hi l)

theorem cancelKeepAlive_turns (s : NetConnection) (l : Loop) :
    s.cancelKeepAlive.turns l + (if l = .keepAlive then s.keepAliveArmed.toNat else 0)
      = s.turns l := by
  unfold cancelKeepAlive
  split
  · rename_i harmed
    have hp := post_turns_none s (h := .doSendKeepAlive true) rfl l
    unfold turns at hp ⊢
    cases l <;> (simp [pending, post, harmed, Handler.loop] at hp ⊢; try omega)
  · rename_i hoff
    rw [Bool.eq_false_iff.mpr hoff]
    simp

theorem cancelTimeout_turns (s : NetConnection) (l : Loop) :
    s.cancelTimeout.turns l + (if l = .timeout then s.timeoutArmed.toNat else 0) = s.turns l := by
  unfold cancelTimeout
  split
  · rename_i harmed
    have hp := post_turns_none s (h := .doTimeoutCheck true) rfl l
    unfold turns at hp ⊢
    cases l <;> (simp [pending, post, harmed, Handler.loop] at hp ⊢; try omega)
  · rename_i hoff
    rw [Bool.eq_false_iff.mpr hoff]
    simp

theorem doClose_turns (s : NetConnection) (l : Loop) : s.doClose.turns l ≤ s.turns l := by
  have h1 := cancelKeepAlive_turns { s with m_bConnected := false, isOpen := false } l
  have h2 := cancelTimeout_turns
    ({ s with m_bConnected := false, isOpen := false } : NetConnection).cancelKeepAlive l
  have h3 : s.doClose.turns l = ({ s with m_bConnected := false, isOpen := false } :
      NetConnection).cancelKeepAlive.cancelTimeout.turns l := by
    cases l <;> rfl
  have h4 : ({ s with m_bConnected := false, isOpen := false } : NetConnection).turns l
      = s.turns l := by
    cases l <;> rfl
  omega

theorem handleConnectionError_turns (s : NetConnection) (l : Loop) :
    s.handleConnectionError.turns l ≤ s.turns l := by
  unfold handleConnectionError
  split
  · have h1 := doClose_turns s l
    have h2 := post_turns_none s.doClose (h := .doClose true) rfl l
    have h3 : (NetConnection.removeConnection { s.doClose with
        notified := s.doClose.notified + 1 }).turns l = (s.doClose.post (.doClose true)).turns l := by
      cases l <;> rfl
    show (NetConnection.removeConnection _).turns l ≤ _
    rw [h3]
    omega
  · exact Nat.le_refl _

theorem recvData_turns (s : NetConnection) (b : Bool) (l : Loop) :
    (s.recvData b).turns l ≤ s.turns l + if l = .read then 1 else 0 := by
  unfold recvData
  split
  · rw [post_turns_none s rfl]
    exact Nat.le_add_right _ _
  · unfold turns
    cases l <;> (simp [pending]; try omega)

/-! ## a step -/

/-- what a send does to the tokens of the loops without a write -/
theorem sendDataAsync_turns {s s' : NetConnection} {c : Choice} {data : ByteArray} {len : Int}
    {b : Bool} (h : s.sendDataAsync c data len = some (s', b)) {l : Loop} (hl : l ≠ .write) :
    s'.turns l = s.turns l := by
  unfold sendDataAsync at h
  split at h
  · split at h
    · obtain ⟨r, _, he⟩ := Option.map_eq_some_iff.mp h
      split at he
      · cases he
        cases l <;> first | rfl | exact absurd rfl hl
      · cases he
        rw [post_turns_none _ rfl]
        cases l <;> first | rfl | exact absurd rfl hl
    · cases h
      rfl
  · cases h
    rfl

theorem armKeepAlive_turns (s : NetConnection) (l : Loop) :
    turns { s.cancelKeepAlive with keepAliveArmed := true } l
      ≤ s.turns l + if l = .keepAlive then 1 else 0 := by
  have h := cancelKeepAlive_turns s l
  have hoff : s.cancelKeepAlive.keepAliveArmed = false := by
    unfold cancelKeepAlive
    split
    · rfl
    · rename_i hoff
      exact Bool.eq_false_iff.mpr hoff
  unfold turns at h ⊢
  cases l <;> (simp [pending, hoff] at h ⊢; omega)

theorem armTimeout_turns (s : NetConnection) (l : Loop) :
    turns { s.cancelTimeout with timeoutArmed := true } l
      ≤ s.turns l + if l = .timeout then 1 else 0 := by
  have h := cancelTimeout_turns s l
  have hoff : s.cancelTimeout.timeoutArmed = false := by
    unfold cancelTimeout
    split
    · rfl
    · rename_i hoff
      exact Bool.eq_false_iff.mpr hoff
  unfold turns at h ⊢
  cases l <;> (simp [pending, hoff] at h ⊢; omega)

/-- a handler of the keep-alive timer uses up a token and makes at most one -/
theorem doSendKeepAlive_turns {s s' : NetConnection} {t : Turn}
    (h : s.doSendKeepAlive t false = some s') {l : Loop} (hl : l ≠ .write) :
    s'.turns l ≤ s.turns l + if l = .keepAlive then 1 else 0 := by
  rw [doSendKeepAlive, if_neg Bool.false_ne_true] at h
  obtain ⟨s1, h1, rfl⟩ := Option.map_eq_some_iff.mp h
  have ha := armKeepAlive_turns s1 l
  have hs : s1.turns l = s.turns l := by
    split at h1
    · obtain ⟨⟨s2, b⟩, h2, rfl⟩ := Option.map_eq_some_iff.mp h1
      exact sendDataAsync_turns h2 hl
    · cases h1
      rfl
  rw [hs] at ha
  exact ha

/-- **No step makes another token of the reads or of a timer.** -/
theorem step_turns {s s' : NetConnection} {e : Event} (h : s.step e = some s') {l : Loop}
    (hl : l ≠ .write) : s'.turns l ≤ s.turns l := by
  have hd := step_does h
  cases hd with
  | sendDataAsync h1 => exact Nat.le_of_eq (sendDataAsync_turns h1 hl)
  | sendDataSync throws =>
    unfold sendDataSync
    split
    · split
      · exact Nat.le_of_eq (post_turns_none s rfl l)
      · exact Nat.le_refl _
    · exact Nat.le_refl _
  | close => exact Nat.le_of_eq (post_turns_none s rfl l)
  | removeConnection =>
    have hp := post_turns_none s (h := .doClose true) rfl l
    exact Nat.le_of_eq (Eq.trans (by cases l <;> rfl) hp)
  | readEnds err data =>
    rw [step] at h
    split at h
    · rename_i hr
      have hp := post_turns { s with reads := s.reads - 1 } (.handleRecvData err data) l
      rw [hp]
      have h0 := hr.1
      unfold turns
      cases l <;> (simp [pending, Handler.loop]; try omega)
    · cases h
  | writeEnds i err =>
    have hp := post_turns { s with queue := { s.queue with
      writes := s.queue.writes.eraseIdx i } } (.handleSendData err) l
    rw [hp]
    unfold turns
    cases l <;> first | exact absurd rfl hl | simp [pending, Handler.loop]
  | keepAliveExpires harmed =>
    have hp := post_turns s (.doSendKeepAlive false) l
    unfold turns at hp ⊢
    cases l <;> (simp [pending, post, harmed, Handler.loop] at hp ⊢; try omega)
  | timeoutExpires harmed =>
    have hp := post_turns s (.doTimeoutCheck false) l
    unfold turns at hp ⊢
    cases l <;> (simp [pending, post, harmed, Handler.loop] at hp ⊢; try omega)
  | doClose t hi => exact Nat.le_trans (doClose_turns _ l) (dequeue_turns_le hi l)
  | fails hi hf => exact Nat.le_trans (handleConnectionError_turns _ l) (dequeue_turns_le hi l)
  | @receives i t data r hi hr =>
    refine Nat.le_trans (recvData_turns _ _ l) ?_
    rw [← dequeue_turns hi l]
    show (s.dequeue i).turns l + _ ≤ _
    cases l <;> simp [Handler.loop]
  | receivesNothing t hi =>
    refine Nat.le_trans (recvData_turns _ _ l) ?_
    rw [← dequeue_turns hi l]
    show (dequeue s _).turns l + _ ≤ _
    cases l <;> simp [Handler.loop]
  | @sends i t q hi hq =>
    rw [← dequeue_turns hi l]
    cases l <;> first | exact absurd rfl hl | exact Nat.le_add_right _ _
  | keepAliveAborted t hi => exact dequeue_turns_le hi l
  | keepsAlive hi h1 =>
    refine Nat.le_trans (doSendKeepAlive_turns h1 hl) ?_
    rw [← dequeue_turns hi l]
    cases l <;> simp [Handler.loop]
  | timeoutAborted t hi => exact dequeue_turns_le hi l
  | inTime hi hf =>
    refine Nat.le_trans (armTimeout_turns _ l) ?_
    rw [← dequeue_turns hi l]
    cases l <;> simp [Handler.loop]

/-! ## the writes -/

/-- with so many tokens of the writes: there is at most one, it shows in `m_bSending` as long as the
connection is up, without a cipher nothing waits without one, and a connection that is down has
nothing to write -/
structure Writing (n : Nat) (connected : Bool) (q : SendQueue) : Prop where
  one : n ≤ 1
  sending : connected = true → n = 1 → q.m_bSending = true
  plain : connected = true → q.m_cipher = false →
    (q.m_bSending = true → n = 1) ∧ (q.m_waitingPos ≠ 0 → n = 1)
  down : connected = false → q.m_waitingPos = 0

theorem writing_down {n : Nat} (h : n ≤ 1) {q : SendQueue} (hp : q.m_waitingPos = 0) :
    Writing n false q :=
  ⟨h, Bool.noConfusion, Bool.noConfusion, fun _ => hp⟩

/-- `doSendData` starts at most one write, and says so -/
theorem doSendData_starts {q q' : SendQueue} {c : Choice} (h : q.doSendData c = some q') :
    q'.writes.length = q.writes.length ∨
      q'.writes.length = q.writes.length + 1 ∧ q'.m_bSending = true := by
  by_cases hs : SendQueue.Stuck q c
  · exact .inl (congrArg List.length (SendQueue.doSendData_stuck h hs).2.2)
  · rcases SendQueue.doSendData_writes h hs with ⟨_, rfl⟩ | ⟨_, hb, hw⟩
    · exact .inl rfl
    · exact .inr ⟨hw, hb⟩

/-- asking the cipher leaves it set or not -/
theorem cipherSend_cipher {junk : Nat → BYTE} {es : List EncryptCall} {q q' : SendQueue}
    (h : SendQueue.cipherSend junk q es = some q') : q'.m_cipher = q.m_cipher := by
  induction es generalizing q with
  | nil => cases h
  | cons e es ih =>
    obtain ⟨⟨r, out, q1⟩, he⟩ : ∃ x, (q.makeSendBuf junk).encrypt junk e = x := ⟨_, rfl⟩
    have hq1 : q1.m_cipher = q.m_cipher :=
      ((SendQueue.makeSendBuf_same q junk).trans (SendQueue.encrypt_same he)).cipher
    rw [SendQueue.cipherSend, he] at h
    cases r with
    | OK =>
      cases h
      exact hq1
    | BUFFER_ERROR => exact (ih h).trans hq1
    | UNKNOWN_ERROR =>
      cases h
      exact hq1

/-- without a cipher it starts one, or finds nothing to write -/
theorem doSendData_plain_starts {q q' : SendQueue} {c : Choice} (h : q.doSendData c = some q')
    (hc : q'.m_cipher = false) : q'.m_waitingPos = 0 ∧
      (q'.m_bSending = false ∨ q'.writes.length = q.writes.length + 1) := by
  by_cases hs : SendQueue.Stuck q c
  · obtain ⟨hz, hcipher, _⟩ := hs
    rw [SendQueue.doSendData, if_neg hz, if_pos hcipher] at h
    obtain ⟨q1, h1, rfl⟩ := Option.map_eq_some_iff.mp h
    have hq : q1.m_cipher = q.m_cipher := cipherSend_cipher h1
    rw [(SendQueue.control_same q1 c).cipher, hq, hcipher] at hc
    cases hc
  · rcases SendQueue.doSendData_writes h hs with ⟨hz, rfl⟩ | ⟨hz, _, hw⟩
    · exact ⟨hz, .inl rfl⟩
    · exact ⟨hz, .inr hw⟩

/-- it is called when no write is on its way -/
theorem Writing.doSendData {k : Nat} {b : Bool} {q q' : SendQueue} {c : Choice}
    (h0 : q.writes.length + k = 0) (hd : b = false → q.m_waitingPos = 0)
    (h : q.doSendData c = some q') : Writing (q'.writes.length + k) b q' := by
  cases b with
  | true =>
    have hstarts := doSendData_starts h
    refine ⟨by omega, fun _ h1 => ?_, fun _ hc => ?_, Bool.noConfusion⟩
    · rcases hstarts with hw | ⟨_, hs⟩
      · omega
      · exact hs
    · obtain ⟨hz, hs⟩ := doSendData_plain_starts h hc
      refine ⟨fun hsend => ?_, fun hne => absurd hz hne⟩
      rcases hs with hoff | hw
      · rw [hsend] at hoff
        cases hoff
      · omega
  | false =>
    rw [doSendData_empty (hd rfl) h]
    exact writing_down (by show q.writes.length + k ≤ 1; omega) (hd rfl)

theorem taken_keeps (q : SendQueue) (c : Choice) (data : ByteArray) (len : Int) :
    (q.taken c data len).writes = q.writes ∧ (q.taken c data len).m_bSending = q.m_bSending ∧
      (q.taken c data len).m_cipher = q.m_cipher :=
  have h := SendQueue.room_same q c (toInt32 (len + q.m_waitingPos))
  ⟨h.writes, h.sending, h.cipher⟩

theorem Writing.append {k : Nat} {q : SendQueue} {c : Choice} {data : ByteArray} {len : Int}
    {r : SendQueue × Bool} (h : Writing (q.writes.length + k) true q)
    (hr : q.append c data len = some r) : Writing (r.1.writes.length + k) true r.1 := by
  by_cases hrej : toInt32 (len + q.m_waitingPos) > MAX_SEND_BUF_SIZE
  · rw [SendQueue.append_rejected q c data len hrej] at hr
    cases hr
    exact ⟨h.one, h.sending, fun hb hc => ⟨(h.plain hb hc).1, fun hne => absurd rfl hne⟩,
      Bool.noConfusion⟩
  · obtain ⟨hw, hs, hcipher⟩ := taken_keeps q c data len
    rw [SendQueue.append_taken q c data len hrej] at hr
    obtain ⟨q1, hq, rfl⟩ := Option.map_eq_some_iff.mp hr
    cases hb : q.m_bSending with
    | true =>
      rw [hb, if_pos rfl] at hq
      cases hq
      dsimp only
      rw [hw]
      refine ⟨h.one, fun _ _ => hs.trans hb, fun _ hc => ?_, Bool.noConfusion⟩
      have h1 := (h.plain rfl (hcipher.symm.trans hc)).1 hb
      exact ⟨fun _ => h1, fun _ => h1⟩
    | false =>
      rw [hb, if_neg Bool.false_ne_true] at hq
      have h0 : q.writes.length + k = 0 := by
        have h1 := h.one
        by_contra hne
        have hsend := h.sending rfl (by omega)
        rw [hb] at hsend
        cases hsend
      exact Writing.doSendData (by rw [hw]; exact h0) Bool.noConfusion hq

/-- what a connection shows of its writes -/
def writing (s : NetConnection) : Prop := Writing (s.turns .write) s.m_bConnected s.queue

theorem writing_post {s : NetConnection} (h : s.writing) {k : Handler} (hn : k.loop ≠ some .write) :
    (s.post k).writing := by
  show Writing ((s.post k).turns .write) s.m_bConnected s.queue
  rw [post_turns, if_neg hn]
  exact h

theorem writing_dequeue {s : NetConnection} (h : s.writing) {i : Nat} {hd : Handler}
    (hi : s.posted[i]? = some hd) (hn : hd.loop ≠ some .write) : (s.dequeue i).writing := by
  have ht := dequeue_turns hi .write
  rw [if_neg hn] at ht
  show Writing ((s.dequeue i).turns .write) s.m_bConnected s.queue
  rw [show (s.dequeue i).turns .write = s.turns .write from ht]
  exact h

theorem writing_doClose {s : NetConnection} (h : s.turns .write ≤ 1) : s.doClose.writing := by
  have hc := doClose_core s
  show Writing (s.doClose.turns .write) s.doClose.core.connected s.doClose.core.queue
  rw [hc]
  exact writing_down (Nat.le_trans (doClose_turns s .write) h) rfl

theorem writing_handleConnectionError {s : NetConnection} (h : s.turns .write ≤ 1)
    (hd : s.m_bConnected = false → s.queue.m_waitingPos = 0) : s.handleConnectionError.writing := by
  have hc := handleConnectionError_core s
  have hle := Nat.le_trans (handleConnectionError_turns s .write) h
  show Writing (s.handleConnectionError.turns .write) s.handleConnectionError.core.connected
    s.handleConnectionError.core.queue
  rw [hc]
  split
  · exact writing_down hle rfl
  · rename_i hdown
    have hoff := Bool.eq_false_iff.mpr hdown
    show Writing _ s.m_bConnected s.queue
    rw [hoff]
    exact writing_down hle (hd hoff)

theorem writing_recvData {s : NetConnection} (h : s.writing) (b : Bool) :
    (s.recvData b).writing := by
  unfold recvData
  split
  · exact writing_post h (by decide)
  · exact h

theorem writing_cancelKeepAlive {s : NetConnection} (h : s.writing) :
    s.cancelKeepAlive.writing := by
  unfold cancelKeepAlive
  split
  · exact writing_post h (k := .doSendKeepAlive true) (by decide)
  · exact h

theorem writing_cancelTimeout {s : NetConnection} (h : s.writing) : s.cancelTimeout.writing := by
  unfold cancelTimeout
  split
  · exact writing_post h (k := .doTimeoutCheck true) (by decide)
  · exact h

theorem writing_sendDataAsync {s s' : NetConnection} (h : s.writing) {c : Choice}
    {data : ByteArray} {len : Int} {b : Bool} (hs : s.sendDataAsync c data len = some (s', b)) :
    s'.writing := by
  unfold sendDataAsync at hs
  split at hs
  · rename_i hup
    have h' : Writing (s.turns .write) true s.queue := by
      have hw := h
      rw [writing, hup] at hw
      exact hw
    split at hs
    · obtain ⟨r, hr, he⟩ := Option.map_eq_some_iff.mp hs
      have hr' : NetConnection.writing { s with queue := r.1 } := by
        show Writing _ s.m_bConnected r.1
        rw [hup]
        exact h'.append hr
      split at he
      · cases he
        exact hr'
      · cases he
        exact writing_post hr' (by decide)
    · cases hs
      exact h
  · cases hs
    exact h

theorem writing_doSendKeepAlive {s s' : NetConnection} (h : s.writing) {t : Turn}
    (hs : s.doSendKeepAlive t false = some s') : s'.writing := by
  rw [doSendKeepAlive, if_neg Bool.false_ne_true] at hs
  obtain ⟨s1, h1, rfl⟩ := Option.map_eq_some_iff.mp hs
  have hw1 : s1.writing := by
    split at h1
    · obtain ⟨⟨s2, b⟩, h2, rfl⟩ := Option.map_eq_some_iff.mp h1
      exact writing_sendDataAsync h h2
    · cases h1
      exact h
  exact writing_cancelKeepAlive hw1

/-- **No step starts a write beside another.** -/
theorem step_writing {s s' : NetConnection} {e : Event} (hw : s.writing)
    (h : s.step e = some s') : s'.writing := by
  have hd := step_does h
  cases hd with
  | sendDataAsync h1 => exact writing_sendDataAsync hw h1
  | sendDataSync throws =>
    unfold sendDataSync
    split
    · split
      · exact writing_post hw (by decide)
      · exact hw
    · exact hw
  | close => exact writing_post hw (by decide)
  | removeConnection => exact writing_post hw (k := .doClose true) (by decide)
  | readEnds err data =>
    exact writing_post (s := { s with reads := s.reads - 1 }) hw (by simp [Handler.loop])
  | writeEnds i err =>
    rw [step] at h
    split at h
    · rename_i hlt
      have hp := post_turns { s with queue := { s.queue with
        writes := s.queue.writes.eraseIdx i } } (.handleSendData err) .write
      have hlen := List.length_eraseIdx_of_lt hlt.1
      have h0 := hlt.1
      have ht : NetConnection.turns (post { s with queue := { s.queue with
          writes := s.queue.writes.eraseIdx i } } (.handleSendData err)) .write
          = s.turns .write := by
        rw [hp]
        unfold turns pending
        simp only [Handler.loop, if_true]
        omega
      show Writing (NetConnection.turns (post _ _) .write) s.m_bConnected _
      rw [ht]
      exact ⟨hw.one, hw.sending, hw.plain, hw.down⟩
    · cases h
  | keepAliveExpires _ => exact writing_post hw (k := .doSendKeepAlive false) (by decide)
  | timeoutExpires _ => exact writing_post hw (k := .doTimeoutCheck false) (by decide)
  | doClose t hi => exact writing_doClose (Nat.le_trans (dequeue_turns_le hi .write) hw.one)
  | fails hi hf =>
    exact writing_handleConnectionError (Nat.le_trans (dequeue_turns_le hi .write) hw.one) hw.down
  | receives hi hr =>
    refine writing_recvData ?_ _
    exact writing_dequeue hw hi (by simp [Handler.loop])
  | receivesNothing t hi =>
    refine writing_recvData ?_ _
    exact writing_dequeue hw hi (by simp [Handler.loop])
  | @sends i t q hi hq =>
    -- the handler was the token of the writes
    have ht := dequeue_turns hi .write
    have h1 := hw.one
    simp only [Handler.loop, if_true] at ht
    exact Writing.doSendData (by show (s.dequeue i).turns .write = 0; omega) hw.down hq
  | keepAliveAborted t hi => exact writing_dequeue hw hi (by decide)
  | keepsAlive hi hk =>
    exact writing_doSendKeepAlive (writing_dequeue hw hi (by decide)) hk
  | timeoutAborted t hi => exact writing_dequeue hw hi (by decide)
  | inTime hi hf => exact writing_cancelTimeout (writing_dequeue hw hi (by decide))

/-! ## loops that go on -/

/-- the loop has its token, or the reads have stopped and the failure is queued -/
def Going (s : NetConnection) (l : Loop) : Prop :=
  1 ≤ s.turns l ∨ l = .read ∧ Handler.handleConnectionError ∈ s.posted

theorem Going.post {s : NetConnection} {l : Loop} (h : Going s l) (hd : Handler) :
    Going (s.post hd) l := by
  refine h.imp (fun ht => ?_) fun hf => ⟨hf.1, List.mem_append_left _ hf.2⟩
  rw [post_turns]
  exact Nat.le_add_right_of_le ht

/-- a handler that does not end the loop and is not the failure leaves it going -/
theorem Going.dequeue {s : NetConnection} {l : Loop} (h : Going s l) {i : Nat} {hd : Handler}
    (hi : s.posted[i]? = some hd) (hl : hd.loop ≠ some l) (hf : hd ≠ .handleConnectionError) :
    Going (s.dequeue i) l := by
  have ht := dequeue_turns hi l
  rw [if_neg hl] at ht
  refine h.imp (fun h1 => by omega) fun hfail => ⟨hfail.1, ?_⟩
  have hmem := (perm_dequeue hi).mem_iff.mpr hfail.2
  exact (List.mem_cons.mp hmem).resolve_left fun e => hf e.symm

theorem going_recvData (s : NetConnection) (b : Bool) : Going (s.recvData b) .read := by
  unfold recvData
  split
  · exact .inr ⟨rfl, List.mem_append_right _ (List.mem_singleton_self _)⟩
  · exact .inl (Nat.le_trans (Nat.le_add_left 1 s.reads) (Nat.le_add_right _ _))

theorem Going.recvData {s : NetConnection} {l : Loop} (h : Going s l) (b : Bool) :
    Going (s.recvData b) l := by
  by_cases hl : l = .read
  · exact hl ▸ going_recvData s b
  · unfold NetConnection.recvData
    split
    · exact h.post _
    · refine h.imp (fun ht => ?_) fun hf => absurd hf.1 hl
      unfold turns at ht ⊢
      cases l <;> first | exact absurd rfl hl | exact ht

theorem Going.same {s s' : NetConnection} {l : Loop} (h : Going s l)
    (hp : s'.pending l = s.pending l) (hq : s'.posted = s.posted) : Going s' l := by
  unfold Going turns at h ⊢
  rw [hp, hq]
  exact h

theorem Going.sendDataAsync {s s' : NetConnection} {l : Loop} (hg : Going s l) (hl : l ≠ .write)
    {c : Choice} {data : ByteArray} {len : Int} {b : Bool}
    (h : s.sendDataAsync c data len = some (s', b)) : Going s' l := by
  unfold NetConnection.sendDataAsync at h
  split at h
  · split at h
    · obtain ⟨r, _, he⟩ := Option.map_eq_some_iff.mp h
      have hr : Going { s with queue := r.1 } l :=
        hg.same (by cases l <;> first | rfl | exact absurd rfl hl) rfl
      split at he
      · cases he
        exact hr
      · cases he
        exact hr.post _
    · cases h
      exact hg
  · cases h
    exact hg

/-- a timer that is armed anew has its token, and the other loops keep theirs -/
theorem Going.armKeepAlive {s : NetConnection} {l : Loop} (h : l ≠ .keepAlive → Going s l) :
    Going { s.cancelKeepAlive with keepAliveArmed := true } l := by
  by_cases hl : l = .keepAlive
  · subst hl
    exact .inl (Nat.le_add_right 1 _)
  · have hc : Going s.cancelKeepAlive l := by
      unfold cancelKeepAlive
      split
      · exact ((h hl).post (.doSendKeepAlive true)).same
          (by cases l <;> first | rfl | exact absurd rfl hl) rfl
      · exact h hl
    exact hc.same (by cases l <;> first | rfl | exact absurd rfl hl) rfl

theorem Going.armTimeout {s : NetConnection} {l : Loop} (h : l ≠ .timeout → Going s l) :
    Going { s.cancelTimeout with timeoutArmed := true } l := by
  by_cases hl : l = .timeout
  · subst hl
    exact .inl (Nat.le_add_right 1 _)
  · have hc : Going s.cancelTimeout l := by
      unfold cancelTimeout
      split
      · exact ((h hl).post (.doTimeoutCheck true)).same
          (by cases l <;> first | rfl | exact absurd rfl hl) rfl
      · exact h hl
    exact hc.same (by cases l <;> first | rfl | exact absurd rfl hl) rfl

theorem down_after_error (s : NetConnection) :
    s.handleConnectionError.m_bConnected = false := by
  have h := congrArg Core.connected (handleConnectionError_core s)
  show s.handleConnectionError.core.connected = false
  rw [h]
  split
  · rfl
  · rename_i hdown
    exact Bool.eq_false_iff.mpr hdown

/-- **A loop goes on with every step that leaves the connection up.** -/
theorem step_going {s s' : NetConnection} {e : Event} {l : Loop} (hl : l ≠ .write)
    (hg : Going s l) (h : s.step e = some s') (hup : s'.m_bConnected = true) : Going s' l := by
  have hd := step_does h
  cases hd with
  | sendDataAsync h1 => exact hg.sendDataAsync hl h1
  | sendDataSync throws =>
    unfold sendDataSync
    split
    · split
      · exact hg.post _
      · exact hg
    · exact hg
  | close => exact hg.post _
  | removeConnection => exact (hg.post (.doClose true)).same (by cases l <;> rfl) rfl
  | readEnds err data =>
    by_cases hr : l = .read
    · subst hr
      refine .inl ?_
      rw [post_turns]
      simp [Handler.loop]
    · exact (hg.post (.handleRecvData err data)).same
        (by cases l <;> first | rfl | exact absurd rfl hr) rfl
  | writeEnds i err =>
    exact (hg.post (.handleSendData err)).same
      (by cases l <;> first | rfl | exact absurd rfl hl) rfl
  | keepAliveExpires harmed =>
    by_cases hk : l = .keepAlive
    · subst hk
      refine .inl (Nat.le_trans ?_ (Nat.le_add_left _ _))
      rw [show (s.post (.doSendKeepAlive false)).posted = s.posted ++ [.doSendKeepAlive false]
        from rfl, countP_enqueue]
      exact Nat.le_add_left _ _
    · exact (hg.post (.doSendKeepAlive false)).same
        (by cases l <;> first | rfl | exact absurd rfl hk) rfl
  | timeoutExpires harmed =>
    by_cases hk : l = .timeout
    · subst hk
      refine .inl (Nat.le_trans ?_ (Nat.le_add_left _ _))
      rw [show (s.post (.doTimeoutCheck false)).posted = s.posted ++ [.doTimeoutCheck false]
        from rfl, countP_enqueue]
      exact Nat.le_add_left _ _
    · exact (hg.post (.doTimeoutCheck false)).same
        (by cases l <;> first | rfl | exact absurd rfl hk) rfl
  | @doClose i active t hi =>
    have hdown := congrArg Core.connected (doClose_core (s.dequeue i))
    exact Bool.noConfusion (hdown.symm.trans hup)
  | fails hi hf => exact Bool.noConfusion ((down_after_error _).symm.trans hup)
  | @receives i t data r hi hr =>
    by_cases hl' : l = .read
    · exact hl' ▸ going_recvData _ _
    · refine Going.recvData ?_ _
      exact (hg.dequeue hi (by simp [Handler.loop, Ne.symm hl']) (by simp)).same
        (by cases l <;> rfl) rfl
  | receivesNothing t hi =>
    by_cases hl' : l = .read
    · exact hl' ▸ going_recvData _ _
    · refine Going.recvData ?_ _
      exact (hg.dequeue hi (by simp [Handler.loop, Ne.symm hl']) (by simp)).same
        (by cases l <;> rfl) rfl
  | sends hi hq =>
    exact (hg.dequeue hi (by simp [Handler.loop, Ne.symm hl]) (by simp)).same
      (by cases l <;> first | rfl | exact absurd rfl hl) rfl
  | keepAliveAborted t hi => exact hg.dequeue hi (by simp [Handler.loop]) (by simp)
  | keepsAlive hi hk =>
    rw [doSendKeepAlive, if_neg Bool.false_ne_true] at hk
    obtain ⟨s1, h1, rfl⟩ := Option.map_eq_some_iff.mp hk
    refine Going.armKeepAlive fun hne => ?_
    have hq := hg.dequeue hi (by simp [Handler.loop, Ne.symm hne]) (by simp)
    split at h1
    · obtain ⟨⟨s2, b⟩, h2, rfl⟩ := Option.map_eq_some_iff.mp h1
      exact hq.sendDataAsync hl h2
    · cases h1
      exact hq
  | timeoutAborted t hi => exact hg.dequeue hi (by simp [Handler.loop]) (by simp)
  | inTime hi hf =>
    refine Going.armTimeout fun hne => ?_
    exact hg.dequeue hi (by simp [Handler.loop, Ne.symm hne]) (by simp)

/-! ## the socket of a connection that is up -/

/-- whether the socket is open, and the connection up -/
def gate (s : NetConnection) : Bool × Bool := (s.isOpen, s.m_bConnected)

theorem cancelKeepAlive_gate (s : NetConnection) : s.cancelKeepAlive.gate = s.gate := by
  unfold cancelKeepAlive
  split <;> rfl

theorem cancelTimeout_gate (s : NetConnection) : s.cancelTimeout.gate = s.gate := by
  unfold cancelTimeout
  split <;> rfl

theorem recvData_gate (s : NetConnection) (b : Bool) : (s.recvData b).gate = s.gate := by
  unfold recvData
  split <;> rfl

theorem sendDataAsync_gate {s s' : NetConnection} {c : Choice} {data : ByteArray} {len : Int}
    {b : Bool} (h : s.sendDataAsync c data len = some (s', b)) : s'.gate = s.gate := by
  unfold sendDataAsync at h
  split at h
  · split at h
    · obtain ⟨r, _, he⟩ := Option.map_eq_some_iff.mp h
      split at he <;> cases he <;> rfl
    · cases h
      rfl
  · cases h
    rfl

theorem doSendKeepAlive_gate {s s' : NetConnection} {t : Turn}
    (h : s.doSendKeepAlive t false = some s') : s'.gate = s.gate := by
  rw [doSendKeepAlive, if_neg Bool.false_ne_true] at h
  obtain ⟨s1, h1, rfl⟩ := Option.map_eq_some_iff.mp h
  show s1.cancelKeepAlive.gate = s.gate
  rw [cancelKeepAlive_gate]
  split at h1
  · obtain ⟨⟨s2, b⟩, h2, rfl⟩ := Option.map_eq_some_iff.mp h1
    exact sendDataAsync_gate h2
  · cases h1
    rfl

/-- a step that leaves the connection up leaves the socket alone -/
theorem step_gate {s s' : NetConnection} {e : Event} (h : s.step e = some s')
    (hup : s'.m_bConnected = true) : s'.gate = s.gate := by
  cases step_does h with
  | sendDataAsync h1 => exact sendDataAsync_gate h1
  | sendDataSync throws =>
    unfold sendDataSync
    split
    · split <;> rfl
    · rfl
  | close => rfl
  | removeConnection => rfl
  | readEnds err data => rfl
  | writeEnds i err => rfl
  | keepAliveExpires _ => rfl
  | timeoutExpires _ => rfl
  | @doClose i active t hi =>
    have hdown := congrArg Core.connected (doClose_core (s.dequeue i))
    exact Bool.noConfusion (hdown.symm.trans hup)
  | fails hi hf => exact Bool.noConfusion ((down_after_error _).symm.trans hup)
  | receives hi hr => exact recvData_gate _ _
  | receivesNothing t hi => exact recvData_gate _ _
  | sends hi hq => rfl
  | keepAliveAborted t hi => rfl
  | keepsAlive hi hk =>
    have hg := doSendKeepAlive_gate hk
    exact hg
  | timeoutAborted t hi => rfl
  | inTime hi hf => exact cancelTimeout_gate _

/-- **A connection that is up has its socket open.** -/
theorem step_open {s s' : NetConnection} {e : Event} (h0 : s.m_bConnected = true → s.isOpen = true)
    (h : s.step e = some s') (hup : s'.m_bConnected = true) : s'.isOpen = true := by
  have hg := step_gate h hup
  have ho : s'.isOpen = s.isOpen := congrArg Prod.fst hg
  have hc : s'.m_bConnected = s.m_bConnected := congrArg Prod.snd hg
  rw [ho]
  exact h0 (hc ▸ hup)

/-! ## runs -/

theorem started_turns (cipher : Option BaseCipher) (keepAlive timeout now : Int) (b : Bool)
    (l : Loop) : (started cipher keepAlive timeout now b).turns l ≤ if l = .write then 0 else 1 := by
  unfold started start
  dsimp only
  refine Nat.le_trans (recvData_turns _ _ l) ?_
  split <;> split <;> cases l <;>
    simp [turns, pending, accepted, post, Handler.loop, SendQueue.init]

theorem started_writing (cipher : Option BaseCipher) (keepAlive timeout now : Int) (b : Bool) :
    (started cipher keepAlive timeout now b).writing := by
  have hnone := started_turns cipher keepAlive timeout now b .write
  have hup := congrArg Core.connected (started_core cipher keepAlive timeout now b)
  rw [if_pos rfl] at hnone
  have hidle := congrArg Core.queue (started_core cipher keepAlive timeout now b)
  have hq : (started cipher keepAlive timeout now b).queue = .init cipher.isSome := hidle
  refine ⟨Nat.le_trans hnone (by decide), fun _ h1 => by omega, fun _ _ => ?_, fun hdown => ?_⟩
  · rw [hq]
    exact ⟨Bool.noConfusion, fun hne => absurd rfl hne⟩
  · exact Bool.noConfusion (hup.symm.trans hdown)

theorem started_going (cipher : Option BaseCipher) (keepAlive timeout now : Int) (b : Bool)
    (l : Loop) (hl : l ≠ .write) (hk : l = .keepAlive → 0 < keepAlive)
    (ht : l = .timeout → 0 < timeout) : Going (started cipher keepAlive timeout now b) l := by
  have hpost : ∀ (s : NetConnection) (hd : Handler), hd.loop = some l → Going (s.post hd) l := by
    intro s hd hloop
    refine .inl ?_
    rw [post_turns, if_pos hloop]
    exact Nat.le_add_left _ _
  unfold started start
  dsimp only
  cases l with
  | read => exact going_recvData _ b
  | write => exact absurd rfl hl
  | keepAlive =>
    refine Going.recvData ?_ b
    have h0 : (accepted cipher keepAlive timeout).m_keepAliveInterval > 0 := hk rfl
    rw [if_pos h0]
    split
    · exact (hpost _ (.doSendKeepAlive false) rfl).post _
    · exact hpost _ (.doSendKeepAlive false) rfl
  | timeout =>
    refine Going.recvData ?_ b
    have h0 : (accepted cipher keepAlive timeout).m_timeoutInterval > 0 := ht rfl
    split
    · rw [if_pos (by exact h0)]
      exact hpost _ (.doTimeoutCheck false) rfl
    · exact hpost _ (.doTimeoutCheck false) rfl

/-- each loop has one token at most, and while the connection is up the loops that `start` has
started have theirs, and without a cipher the writes as long as there is something to write -/
structure Loops (keepAlive timeout : Int) (s : NetConnection) : Prop where
  one : ∀ l, s.turns l ≤ 1
  reads : s.m_bConnected = true →
    s.turns .read = 1 ∨ Handler.handleConnectionError ∈ s.posted
  sending : s.m_bConnected = true → s.turns .write = 1 → s.queue.m_bSending = true
  writes : s.m_bConnected = true → s.queue.m_cipher = false →
    (s.queue.m_bSending = true ∨ s.queue.m_waitingPos ≠ 0) → s.turns .write = 1
  keepsAlive : s.m_bConnected = true → 0 < keepAlive → s.turns .keepAlive = 1
  checks : s.m_bConnected = true → 0 < timeout → s.turns .timeout = 1

section
variable (cipher : Option BaseCipher) (keepAlive timeout now : Int) (b : Bool) {es : List Event}
  {s : NetConnection}

theorem run_writing (h : Machine.run step (started cipher keepAlive timeout now b) es = some s) :
    s.writing :=
  Machine.run_keeps writing (fun _ _ _ => step_writing)
    (started_writing cipher keepAlive timeout now b) h

theorem run_turns (h : Machine.run step (started cipher keepAlive timeout now b) es = some s)
    (l : Loop) : s.turns l ≤ 1 := by
  by_cases hl : l = .write
  · exact hl ▸ (run_writing cipher keepAlive timeout now b h).one
  · have h0 := started_turns cipher keepAlive timeout now b l
    rw [if_neg hl] at h0
    exact Nat.le_trans (run_le (fun s => s.turns l) (fun _ _ _ hs => step_turns hs hl) h) h0

theorem run_going (h : Machine.run step (started cipher keepAlive timeout now b) es = some s)
    {l : Loop} (hl : l ≠ .write) (hk : l = .keepAlive → 0 < keepAlive)
    (ht : l = .timeout → 0 < timeout) (hup : s.m_bConnected = true) : Going s l :=
  Machine.run_keeps (fun s => s.m_bConnected = true → Going s l)
    (fun _ _ _ hg hs hup => step_going hl (hg (NetClient.connection_step_down hs hup)) hs hup)
    (fun _ => started_going cipher keepAlive timeout now b l hl hk ht) h hup

theorem run_open (h : Machine.run step (started cipher keepAlive timeout now b) es = some s)
    (hup : s.m_bConnected = true) : s.isOpen = true := by
  refine Machine.run_keeps (fun s => s.m_bConnected = true → s.isOpen = true)
    (fun _ _ _ h0 hs => step_open h0 hs) (fun _ => ?_) h hup
  have hg : (started cipher keepAlive timeout now b).gate = (true, true) := by
    unfold started start
    rw [recvData_gate]
    dsimp only
    split <;> split <;> rfl
  exact congrArg Prod.fst hg

end

end NetConnection

end Netwb
