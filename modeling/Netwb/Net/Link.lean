import Netwb.Net.Intake

/-!
# Two connections and the bytes between them

A client and a server as their two connections, joined by a stream of bytes in each direction.  What
one end hands to `async_write` reaches the other in order, cut into reads in any way; a read brings
at most as much as `m_recvBuf` holds.  All that either end does is interleaved in any order.

Without a cipher a package that is sent is one frame of the stream.

* `step_accepts`       what a step accepts for sending;
* `run_carried`        the bytes handled by one end are a beginning of those written by the other;
* `packages_in_order`  so the packages that one end has handed over are the first ones that the other
                       has accepted, in their order; and when both are at rest they are all of them;
* `never_stuck`        as long as both are up and not all is delivered, something is under way.
-/

namespace Netwb
open Wire Machine Framing

/-! ## what a connection accepts and writes -/

namespace SendQueue

theorem cipherSend_history {junk : Nat → BYTE} {es : List EncryptCall} {q q' : SendQueue}
    (h : cipherSend junk q es = some q') :
    q'.accepted = q.accepted ∧ q.written <+: q'.written := by
  induction es generalizing q with
  | nil => cases h
  | cons e es ih =>
    obtain ⟨⟨r, out, q1⟩, he⟩ : ∃ x, (q.makeSendBuf junk).encrypt junk e = x := ⟨_, rfl⟩
    have hq1 : Same q q1 := (makeSendBuf_same q junk).trans (encrypt_same he)
    rw [cipherSend, he] at h
    cases r with
    | OK =>
      cases h
      exact ⟨hq1.accepted, _, congrArg (· ++ _) hq1.written.symm⟩
    | BUFFER_ERROR =>
      obtain ⟨ha, hw⟩ := ih h
      refine ⟨ha.trans hq1.accepted, ?_⟩
      rw [← hq1.written]
      exact hw
    | UNKNOWN_ERROR =>
      cases h
      exact ⟨hq1.accepted, hq1.written ▸ List.prefix_refl _⟩

/-- `doSendData` accepts nothing, and writes behind what was written -/
theorem doSendData_history {q q' : SendQueue} {c : Choice} (h : q.doSendData c = some q') :
    q'.accepted = q.accepted ∧ q.written <+: q'.written := by
  rw [doSendData] at h
  split at h
  · cases h
    exact ⟨rfl, List.prefix_refl _⟩
  · split at h
    · obtain ⟨q1, h1, rfl⟩ := Option.map_eq_some_iff.mp h
      have hsame := control_same q1 c
      obtain ⟨ha, hw⟩ := cipherSend_history h1
      exact ⟨hsame.accepted.trans ha, by rw [hsame.written]; exact hw⟩
    · cases h
      have hsame := control_same (q.plainSend c.junk) c
      refine ⟨hsame.accepted, ?_⟩
      rw [hsame.written]
      exact List.prefix_append _ _

/-- a send is accepted whole, unless it is rejected -/
theorem append_history {q : SendQueue} {c : Choice} {data : ByteArray} {len : Int}
    {r : SendQueue × Bool} (h : q.append c data len = some r) (h0 : 0 < len)
    (hlen : len ≤ data.length) (h32 : len ≤ INT32_MAX) :
    r.1.accepted = q.accepted ++ (if toInt32 (len + q.m_waitingPos) > MAX_SEND_BUF_SIZE then []
      else data.take len.toNat) ∧ q.written <+: r.1.written := by
  by_cases hrej : toInt32 (len + q.m_waitingPos) > MAX_SEND_BUF_SIZE
  · rw [append_rejected q c data len hrej] at h
    cases h
    rw [if_pos hrej, List.append_nil]
    exact ⟨rfl, List.prefix_refl _⟩
  · have hsame := room_same q c (toInt32 (len + q.m_waitingPos))
    have hacc : (q.taken c data len).accepted = q.accepted ++ data.take len.toNat := by
      show (q.room c _).accepted ++ source c data len = _
      rw [hsame.accepted, (source_eq c h0 hlen h32).1]
    have hw : (q.taken c data len).written = q.written := hsame.written
    rw [append_taken q c data len hrej] at h
    obtain ⟨q1, hq, rfl⟩ := Option.map_eq_some_iff.mp h
    rw [if_neg hrej, ← hacc, ← hw]
    split at hq
    · cases hq
      exact ⟨rfl, List.prefix_refl _⟩
    · exact doSendData_history hq

end SendQueue

namespace NetConnection

/-- what a step accepts for sending -/
def accepts (s : NetConnection) (e : Event) : List ByteArray :=
  match s.attempt e with
  | some (data, len) =>
    if toInt32 (len + s.queue.m_waitingPos) > MAX_SEND_BUF_SIZE then [] else [data.take len.toNat]
  | none => []

theorem accepts_none {s : NetConnection} {e : Event} (h : s.attempt e = none) :
    s.accepts e = [] := by
  rw [accepts, h]

/-- an attempt is made with the queue as it is -/
theorem accepts_append {s : NetConnection} {e : Event} {c : Choice} {data : ByteArray} {len : Int}
    {r : SendQueue × Bool} (hw : e.WellFormed) (h32 : len ≤ INT32_MAX)
    (ha : s.attempt e = some (data, len)) (hq : s.queue.append c data len = some r) :
    r.1.accepted = s.queue.accepted ++ (s.accepts e).flatten ∧
      s.queue.written <+: r.1.written := by
  obtain ⟨h0, hlen⟩ := attempt_fits hw ha
  obtain ⟨h1, h2⟩ := SendQueue.append_history hq h0 hlen h32
  refine ⟨h1.trans ?_, h2⟩
  rw [accepts, ha]
  dsimp only
  split <;> simp

/-- nothing is sent by a handler other than the one of the keep-alive timer -/
theorem attempt_run {s : NetConnection} {i : Nat} {t : Turn} {hd : Handler}
    (hi : s.posted[i]? = some hd) (hne : hd ≠ .doSendKeepAlive false) :
    s.attempt (.run i t) = none := by
  rw [attempt, hi]
  refine if_neg fun hc => hne ?_
  exact Option.some.inj hc.2.1

/-- a send is ignored, or comes to the queue -/
theorem sendDataAsync_cases {s s' : NetConnection} {c : Choice} {data : ByteArray} {len : Int}
    {b : Bool} (h : s.sendDataAsync c data len = some (s', b)) :
    ¬ (s.m_bConnected ∧ data ≠ [] ∧ len > 0) ∧ s' = s ∨
      (s.m_bConnected ∧ data ≠ [] ∧ len > 0) ∧
        ∃ r, s.queue.append c data len = some r ∧ s'.queue = r.1 := by
  unfold sendDataAsync at h
  split at h
  · rename_i hup
    split at h
    · rename_i hd
      obtain ⟨r, hr, he⟩ := Option.map_eq_some_iff.mp h
      refine .inr ⟨⟨hup, hd⟩, r, hr, ?_⟩
      split at he <;> cases he <;> rfl
    · rename_i hd
      cases h
      exact .inl ⟨fun hc => hd hc.2, rfl⟩
  · rename_i hdown
    cases h
    exact .inl ⟨fun hc => hdown hc.1, rfl⟩

/-- what was accepted and written after a step -/
def Recorded (s : NetConnection) (e : Event) (s' : NetConnection) : Prop :=
  s'.queue.accepted = s.queue.accepted ++ (s.accepts e).flatten ∧
    s.queue.written <+: s'.queue.written

theorem recorded_idle {s s' : NetConnection} {e : Event} (ha : s.attempt e = none)
    (hq : s'.queue.accepted = s.queue.accepted) (hw : s.queue.written <+: s'.queue.written) :
    Recorded s e s' := by
  refine ⟨?_, hw⟩
  rw [hq, accepts_none ha]
  exact (List.append_nil _).symm

theorem recorded_run {s s' : NetConnection} {i : Nat} {t : Turn} {hd : Handler}
    (hi : s.posted[i]? = some hd) (hne : hd ≠ .doSendKeepAlive false)
    (hq : s'.queue.accepted = s.queue.accepted) (hw : s'.queue.written = s.queue.written) :
    Recorded s (.run i t) s' :=
  recorded_idle (attempt_run hi hne) hq (hw ▸ List.prefix_refl _)

theorem recorded_keepAlive {s s' : NetConnection} {i : Nat} {t : Turn}
    (hi : s.posted[i]? = some (.doSendKeepAlive false))
    (h : (s.dequeue i).doSendKeepAlive t false = some s') : Recorded s (.run i t) s' := by
  rw [doSendKeepAlive, if_neg Bool.false_ne_true] at h
  obtain ⟨s1, h1, rfl⟩ := Option.map_eq_some_iff.mp h
  have hq := congrArg Core.queue (cancelKeepAlive_core s1)
  have hsame : ({ s1.cancelKeepAlive with keepAliveArmed := true } : NetConnection).queue
      = s1.queue := hq
  unfold Recorded
  rw [hsame]
  split at h1
  · rename_i hdue
    obtain ⟨⟨s2, b⟩, h2, rfl⟩ := Option.map_eq_some_iff.mp h1
    rcases sendDataAsync_cases h2 with ⟨hno, rfl⟩ | ⟨hc, r, hr, hs⟩
    · refine recorded_idle (if_neg fun hc => hno ⟨hc.1, ?_⟩) rfl (List.prefix_refl _)
      rw [← List.length_pos_iff_ne_nil, keepAliveBytes_length]
      decide
    · have ha : s.attempt (.run i t)
          = some (keepAliveBytes t.order, ((keepAliveBytes t.order).length : Int)) :=
        if_pos ⟨hc.1, hi, hdue⟩
      dsimp only
      rw [hs]
      exact accepts_append (e := .run i t) trivial (by rw [keepAliveBytes_length]; decide) ha hr
  · rename_i hdue
    cases h1
    exact recorded_idle (if_neg fun hc => hdue hc.2.2) rfl (List.prefix_refl _)

/-- **What a step accepts for sending, and that what was written stays.** -/
theorem step_accepts {s s' : NetConnection} {e : Event} (hw : e.WellFormed)
    (h : s.step e = some s') : Recorded s e s' := by
  cases step_does h with
  | @sendDataAsync data len c s' b h1 =>
    rcases sendDataAsync_cases h1 with ⟨hno, rfl⟩ | ⟨hc, r, hr, hs⟩
    · exact recorded_idle (if_neg hno) rfl (List.prefix_refl _)
    · unfold Recorded
      rw [hs]
      exact accepts_append hw hw.2 (if_pos hc) hr
  | sendDataSync throws =>
    have hq := congrArg Core.queue (sendDataSync_core s throws)
    have hq : (s.sendDataSync throws).1.queue = s.queue := hq
    refine recorded_idle rfl (by rw [hq]) (by rw [hq])
  | close => exact recorded_idle rfl rfl (List.prefix_refl _)
  | removeConnection => exact recorded_idle rfl rfl (List.prefix_refl _)
  | readEnds err data => exact recorded_idle rfl rfl (List.prefix_refl _)
  | writeEnds i err => exact recorded_idle rfl rfl (List.prefix_refl _)
  | keepAliveExpires _ => exact recorded_idle rfl rfl (List.prefix_refl _)
  | timeoutExpires _ => exact recorded_idle rfl rfl (List.prefix_refl _)
  | @doClose i active t hi =>
    have hq := congrArg Core.queue (doClose_core (s.dequeue i))
    have hq : (s.dequeue i).doClose.queue = clear s.queue := hq
    exact recorded_run hi (by simp) (by rw [hq]; rfl) (by rw [hq]; rfl)
  | @fails i t hd hi hf =>
    have hq := congrArg Core.queue (handleConnectionError_core (s.dequeue i))
    have hq : (s.dequeue i).handleConnectionError.queue = (if s.m_bConnected = true then
        (⟨false, false, s.notified + 1, clear s.queue⟩ : Core) else s.core).queue := hq
    refine recorded_run hi (by rintro rfl; cases hf) ?_ ?_
    · rw [hq]
      split <;> rfl
    · rw [hq]
      split <;> rfl
  | @receives i t data r hi hr =>
    have hq := congrArg Core.queue (recvData_core ({ s.dequeue i with
      m_lastRecvTime := t.now, m_pkgParser := r.1, received := s.received ++ r.2.1 } :
        NetConnection) t.readThrows)
    have hq : NetConnection.queue _ = s.queue := hq
    exact recorded_run hi (by simp) (by rw [hq]) (by rw [hq])
  | @receivesNothing i t hi =>
    have hq := congrArg Core.queue (recvData_core ({ s.dequeue i with
      m_lastRecvTime := t.now } : NetConnection) t.readThrows)
    have hq : NetConnection.queue _ = s.queue := hq
    exact recorded_run hi (by simp) (by rw [hq]) (by rw [hq])
  | @sends i t q hi hq =>
    obtain ⟨ha, hwr⟩ := SendQueue.doSendData_history hq
    exact recorded_idle (attempt_run hi (by simp)) ha hwr
  | keepAliveAborted t hi => exact recorded_run hi (by simp) rfl rfl
  | keepsAlive hi h1 => exact recorded_keepAlive hi h1
  | timeoutAborted t hi => exact recorded_run hi (by simp) rfl rfl
  | @inTime i t hi hf =>
    have hq := congrArg Core.queue (cancelTimeout_core (s.dequeue i))
    have hq : (s.dequeue i).cancelTimeout.queue = s.queue := hq
    have hq' : ({ (s.dequeue i).cancelTimeout with timeoutArmed := true } : NetConnection).queue
        = s.queue := hq
    exact recorded_run hi (by simp) (by rw [hq']) (by rw [hq'])

end NetConnection

/-! ## the link -/

inductive Side where
  | client
  | server
deriving DecidableEq, Repr

def Side.other : Side → Side
  | .client => .server
  | .server => .client

theorem Side.other_ne (side : Side) : side.other ≠ side := by cases side <;> decide

theorem Side.eq_other {side r : Side} (h : side ≠ r) : side = r.other := by
  cases side <;> cases r <;> first | rfl | exact absurd rfl h

structure Link where
  ends : Side → NetConnection
  /-- how many bytes of the other end's stream an end has read -/
  read : Side → Nat

inductive LinkEvent where
  /-- an event of one end that brings no bytes -/
  | acts (side : Side) (e : NetConnection.Event)
  /-- a read of one end ends well, with at most `n` bytes -/
  | reads (side : Side) (n : Nat)

namespace Link
open NetConnection

/-- the bytes on their way to an end -/
def transit (s : Link) (side : Side) : ByteArray :=
  (s.ends side.other).queue.written.flatten.drop (s.read side)

def set (s : Link) (side : Side) (c : NetConnection) : Link :=
  { s with ends := Function.update s.ends side c }

def step (s : Link) : LinkEvent → Option Link
  | .acts _ (.readEnds false _) => none
  -- `sendDataSync` passes the queue by; here all is sent with `sendDataAsync`
  | .acts _ (.sendDataSync _) => none
  | .acts side e => ((s.ends side).step e).map (s.set side)
  | .reads side n =>
    let data := (s.transit side).take (min n recvBufSize)
    if data = [] then none
    else ((s.ends side).step (.readEnds false data)).map fun c =>
      { s.set side c with read := Function.update s.read side (s.read side + data.length) }

/-- what an event is for the end it happens at -/
def event (s : Link) : LinkEvent → NetConnection.Event
  | .acts _ e => e
  | .reads side n => .readEnds false ((s.transit side).take (min n recvBufSize))

def LinkEvent.side : LinkEvent → Side
  | .acts side _ => side
  | .reads side _ => side

/-- two connections without a cipher that have been started -/
def started (keepAlive timeout now : Side → Int) (b : Side → Bool) : Link where
  ends := fun side => NetConnection.started none (keepAlive side) (timeout side) (now side) (b side)
  read := fun _ => 0

theorem set_same (s : Link) (side : Side) (c : NetConnection) : (s.set side c).ends side = c :=
  Function.update_self ..

theorem set_other (s : Link) {side r : Side} (h : r ≠ side) (c : NetConnection) :
    (s.set side c).ends r = s.ends r :=
  Function.update_of_ne h ..

/-- **One end makes a step, the other one stays.** -/
theorem step_ends {s s' : Link} {e : LinkEvent} (h : s.step e = some s') :
    (s.ends (LinkEvent.side e)).step (s.event e) = some (s'.ends (LinkEvent.side e)) ∧
      ∀ r, r ≠ LinkEvent.side e → s'.ends r = s.ends r := by
  cases e with
  | acts side e =>
    rw [step.eq_def] at h
    split at h
    · cases h
    · cases h
    · rename_i side' e' hne hsync he
      cases he
      obtain ⟨c, hc, rfl⟩ := Option.map_eq_some_iff.mp h
      exact ⟨hc.trans (congrArg some (set_same s side c).symm), fun r hr => set_other s hr c⟩
    · rename_i he
      cases he
  | reads side n =>
    rw [step] at h
    dsimp only at h
    split at h
    · cases h
    · obtain ⟨c, hc, rfl⟩ := Option.map_eq_some_iff.mp h
      exact ⟨hc.trans (congrArg some (set_same s side c).symm), fun r hr => set_other s hr c⟩

/-- how far an end has read -/
theorem step_read {s s' : Link} {e : LinkEvent} (h : s.step e = some s') (r : Side) :
    s'.read r = s.read r + (if LinkEvent.side e = r then (s.event e).arrived.length else 0) ∧
      (LinkEvent.side e = r → (s.event e).arrived <+: s.transit r ∧
        (s.event e).arrived.length ≤ recvBufSize) := by
  cases e with
  | acts side e =>
    rw [step.eq_def] at h
    split at h
    · cases h
    · cases h
    · rename_i side' e' hne hsync he
      cases he
      obtain ⟨c, hc, rfl⟩ := Option.map_eq_some_iff.mp h
      have ha : e.arrived = [] := by
        unfold Event.arrived
        split
        · rename_i data
          exact absurd rfl (hne data)
        · rfl
      refine ⟨?_, fun _ => ?_⟩
      · show s.read r = s.read r + if side = r then e.arrived.length else 0
        rw [ha]
        simp
      · show e.arrived <+: s.transit r ∧ e.arrived.length ≤ recvBufSize
        rw [ha]
        exact ⟨List.nil_prefix, Nat.zero_le _⟩
    · rename_i he
      cases he
  | reads side n =>
    rw [step] at h
    dsimp only at h
    split at h
    · cases h
    · obtain ⟨c, hc, rfl⟩ := Option.map_eq_some_iff.mp h
      refine ⟨?_, fun hr => ?_⟩
      · show Function.update s.read side _ r = _
        by_cases hr : side = r
        · subst hr
          rw [Function.update_self, if_pos (by rfl)]
          rfl
        · rw [Function.update_of_ne (Ne.symm hr), if_neg (by exact hr)]
          rfl
      · have hr : side = r := hr
        subst hr
        refine ⟨List.take_prefix _ _, ?_⟩
        show ((s.transit side).take _).length ≤ _
        rw [List.length_take]
        omega

/-! ## what has been read -/

/-- the bytes written for an end to read -/
def stream (s : Link) (r : Side) : ByteArray := (s.ends r.other).queue.written.flatten

/-- the bytes that a step brings to the parser of an end -/
def handles (r : Side) (s : Link) (e : LinkEvent) : ByteArray :=
  if LinkEvent.side e = r then (s.ends r).incoming (s.event e) else []

/-- of the stream, the first bytes have reached the parser, and the next ones are queued -/
structure Carried (r : Side) (s : Link) (bytes : ByteArray) : Prop where
  one : (s.ends r).turns .read ≤ 1
  flow : bytes ++ (s.ends r).queued = (s.stream r).take (s.read r)
  le : s.read r ≤ (s.stream r).length
  inbox : Inbox (s.ends r) bytes
  small : (s.ends r).queued.length ≤ recvBufSize

theorem incoming_or_arrived (s : NetConnection) (e : NetConnection.Event) :
    s.incoming e = [] ∨ e.arrived = [] := by
  cases e with
  | run i t => exact .inr rfl
  | _ => exact .inl rfl

/-- a read ends with nothing queued before it -/
theorem queued_small {s s' : NetConnection} {e : NetConnection.Event} (h1 : s.turns .read ≤ 1)
    (h : s.step e = some s') (hq : s.queued.length ≤ recvBufSize)
    (ha : e.arrived.length ≤ recvBufSize) : s'.queued.length ≤ recvBufSize := by
  have ho := step_order h1 h
  cases step_intake h with
  | nothing hr hin hq' hi =>
    rw [hq']
    exact hq
  | @arrives data s' h0 hq' hi =>
    have h2 : s.posted.countP (fun h => decide (h.loop = some .read)) = 0 := by
      unfold turns pending at h1
      dsimp only at h1
      omega
    have hnone : s.queued = [] := queued_nil h2
    rw [hq', hnone]
    exact ha
  | @handles i t data s' r hp hr hq' hi =>
    have hlen := congrArg List.length ho
    rw [List.length_append, List.length_append] at hlen
    have h0 : (NetConnection.Event.run i t).arrived.length = 0 := rfl
    omega

theorem take_flow {w arrived : ByteArray} {n : Nat} (h : arrived <+: w.drop n) :
    w.take n ++ arrived = w.take (n + arrived.length) := by
  obtain ⟨t, ht⟩ := h
  rw [List.take_add, ← ht, List.take_left]

theorem step_carried {r : Side} {s s' : Link} {e : LinkEvent} {bytes : ByteArray}
    (h : Carried r s bytes) (hc : LinkEvent.side e = r → (s.event e).Calm)
    (hw : LinkEvent.side e = r.other → (s.event e).WellFormed) (hs : s.step e = some s') :
    Carried r s' (bytes ++ handles r s e) := by
  obtain ⟨hstep, hstay⟩ := step_ends hs
  obtain ⟨hread, htransit⟩ := step_read hs r
  by_cases hr : LinkEvent.side e = r
  · -- the reading end acts, and the stream stays
    have hother : s'.ends r.other = s.ends r.other := hstay _ (by rw [hr]; exact r.other_ne)
    have hstream : s'.stream r = s.stream r := by rw [stream, hother, stream]
    rw [hr] at hstep
    obtain ⟨hfront, hlen⟩ := htransit hr
    rw [if_pos hr] at hread
    have horder := step_order h.one hstep
    have hcut := take_flow hfront
    have hin : ((s.ends r).incoming (s.event e)).length ≤ recvBufSize := by
      rcases incoming_or_arrived (s.ends r) (s.event e) with h0 | h0
      · rw [h0]
        exact Nat.zero_le _
      · have hl := congrArg List.length horder
        rw [List.length_append, List.length_append, h0] at hl
        have hsmall := h.small
        rw [List.length_nil] at hl
        omega
    rw [handles, if_pos hr]
    refine ⟨Nat.le_trans (step_turns hstep (by decide)) h.one, ?_, ?_,
      step_inbox_of h.inbox (hc hr) hin hstep, queued_small h.one hstep h.small hlen⟩
    · rw [List.append_assoc, horder, ← List.append_assoc, h.flow, hread, hstream]
      exact hcut
    · have hfit := hfront.length_le
      have hle := h.le
      rw [hread, hstream]
      unfold transit at hfit
      rw [List.length_drop] at hfit
      unfold stream at hle ⊢
      omega
  · -- the other end acts, and the stream may grow
    have he := Side.eq_other hr
    have hsame : s'.ends r = s.ends r := hstay r (Ne.symm hr)
    rw [he] at hstep
    obtain ⟨t, ht⟩ := (step_accepts (hw he) hstep).2
    have hstream : s'.stream r = s.stream r ++ t.flatten := by
      rw [stream, ← ht, List.flatten_append]
      rfl
    rw [if_neg hr, Nat.add_zero] at hread
    rw [handles, if_neg hr, List.append_nil]
    refine ⟨by rw [hsame]; exact h.one, ?_, ?_, h.inbox.of_inbox (by rw [hsame]),
      by rw [hsame]; exact h.small⟩
    · rw [hsame, h.flow, hread, hstream, List.take_append_of_le_length h.le]
    · rw [hread, hstream, List.length_append]
      exact Nat.le_add_right_of_le h.le

/-! ## what is sent -/

/-- a send is of one frame -/
def LinkEvent.Framed : LinkEvent → Prop
  | .acts _ (.sendDataAsync data len _) => len = data.length ∧ plainLook data = .msg data.length
  | _ => True

/-- what a step accepts for an end to read -/
def sends (r : Side) (s : Link) (e : LinkEvent) : List ByteArray :=
  if LinkEvent.side e = r.other then (s.ends r.other).accepts (s.event e) else []

/-- these frames are the stream, as far as it has been written -/
structure Sent (r : Side) (s : Link) (frames : List ByteArray) : Prop where
  stream : NetConnection.Stream (s.ends r.other).queue (s.ends r.other).m_bConnected
  writing : (s.ends r.other).writing
  accepted : (s.ends r.other).queue.accepted = frames.flatten
  framed : ∀ f ∈ frames, plainLook f = .msg f.length

theorem framed_wellFormed {s : Link} {e : LinkEvent} (h : LinkEvent.Framed e) :
    (s.event e).WellFormed := by
  cases e with
  | acts side e =>
    cases e with
    | sendDataAsync data len c =>
      obtain ⟨rfl, hlook⟩ := h
      have hle := (plainLook_msg hlook).2.2.1
      refine ⟨Int.le_refl _, ?_⟩
      simp only [NET_PACKAGE_INVALID_LENGTH, INT32_MAX] at hle ⊢
      omega
    | _ => trivial
  | reads side n => trivial

theorem keepAliveBytes_look (o : ByteOrder) :
    plainLook (keepAliveBytes o) = .msg (keepAliveBytes o).length := by
  cases o <;> decide +kernel

/-- what is accepted is a package, or a message of the keep-alive timer -/
theorem accepts_framed {s : Link} {side : Side} {e : LinkEvent} (h : LinkEvent.Framed e)
    (f : ByteArray) (hf : f ∈ (s.ends side).accepts (s.event e)) : plainLook f = .msg f.length := by
  unfold accepts at hf
  split at hf
  · rename_i data len ha
    split at hf
    · cases hf
    · rw [List.mem_singleton] at hf
      have hframe : len = data.length ∧ plainLook data = .msg data.length := by
        cases e with
        | reads side n => cases ha
        | acts side e =>
          cases e with
          | sendDataAsync data' len' c =>
            have ha : (if _ then some (data', len') else none) = some (data, len) := ha
            split at ha
            · cases ha
              exact h
            · cases ha
          | run i t =>
            have ha : (if _ then some (keepAliveBytes t.order,
              ((keepAliveBytes t.order).length : Int)) else none) = some (data, len) := ha
            split at ha
            · cases ha
              exact ⟨rfl, keepAliveBytes_look t.order⟩
            · cases ha
          | _ => cases ha
      rw [hf, hframe.1, Int.toNat_natCast, List.take_length]
      exact hframe.2
  · cases hf

/-- of the steps of a run: handlers of packages at the reading end return normally, the other end
accepts nothing after a rejected send has thrown bytes away, and what it sends are frames -/
def Undisturbed (r : Side) (s : Link) (e : LinkEvent) : Prop :=
  (LinkEvent.side e = r → (s.event e).Calm) ∧
    (LinkEvent.side e = r.other → NoHole (s.ends r.other) (s.event e) ∧ LinkEvent.Framed e)

theorem step_sent {r : Side} {s s' : Link} {e : LinkEvent} {frames : List ByteArray}
    (h : Sent r s frames) (hu : Undisturbed r s e) (hs : s.step e = some s') :
    Sent r s' (frames ++ sends r s e) := by
  obtain ⟨hstep, hstay⟩ := step_ends hs
  by_cases hr : LinkEvent.side e = r.other
  · obtain ⟨hhole, hframed⟩ := hu.2 hr
    rw [hr] at hstep
    rw [sends, if_pos hr]
    refine ⟨step_stream h.stream (framed_wellFormed hframed) hhole hstep,
      step_writing h.writing hstep, ?_, fun f hf => ?_⟩
    · rw [(step_accepts (framed_wellFormed hframed) hstep).1, h.accepted, List.flatten_append]
    · rcases List.mem_append.mp hf with hf | hf
      · exact h.framed f hf
      · exact accepts_framed hframed f hf
  · have hsame := hstay r.other (Ne.symm hr)
    rw [sends, if_neg hr, List.append_nil]
    exact ⟨by rw [hsame]; exact h.stream, by rw [hsame]; exact h.writing,
      by rw [hsame]; exact h.accepted, h.framed⟩

/-! ## the packages -/

/-- nothing is on its way to an end, and the other one is up, has thrown nothing away and writes
nothing -/
structure AtRest (r : Side) (s : Link) : Prop where
  up : (s.ends r.other).m_bConnected = true
  kept : (s.ends r.other).queue.dropped = false
  written : (s.ends r.other).turns .write = 0
  arrived : s.transit r = []
  handled : (s.ends r).queued = []

/-- the packages handed over are the first ones of these, and all of them when nothing is on its
way -/
structure InOrder (r : Side) (s : Link) (packages : List NetPackage) : Prop where
  first : (s.ends r).received <+: packages
  all : AtRest r s → (s.ends r).received = packages

/-- without a write under way everything accepted is written -/
theorem Sent.whole {r : Side} {s : Link} {frames : List ByteArray} (h : Sent r s frames)
    (hup : (s.ends r.other).m_bConnected = true)
    (hkept : (s.ends r.other).queue.dropped = false)
    (hidle : (s.ends r.other).turns .write = 0) : s.stream r = frames.flatten := by
  have hpos : (s.ends r.other).queue.m_waitingPos = 0 := by
    by_contra hne
    have := (h.writing.plain hup h.stream.plain).2 hne
    omega
  have hw := h.stream.whole hup hkept fun _ => 0
  rw [SendQueue.waitingBytes_empty hpos, List.append_nil, h.accepted] at hw
  exact hw

theorem inOrder {r : Side} {s : Link} {bytes : ByteArray} {frames : List ByteArray}
    (hc : Carried r s bytes) (hs : Sent r s frames) :
    InOrder r s (frames.map NetPackage.ofBytes) := by
  have hstream : s.stream r <+: frames.flatten := by
    rw [← hs.accepted]
    exact hs.stream.written
  have hfront : bytes <+: frames.flatten := by
    have h1 : bytes <+: (s.stream r).take (s.read r) := ⟨_, hc.flow⟩
    exact (h1.trans (List.take_prefix _ _)).trans hstream
  obtain ⟨hf, hfirst⟩ := drain_front plain frames hs.framed hfront
  refine ⟨?_, fun hrest => ?_⟩
  · rw [hc.inbox.received hf]
    exact hfirst.map _
  · have hwhole := hs.whole hrest.up hrest.kept hrest.written
    have hread : (s.stream r).length ≤ s.read r := List.drop_eq_nil_iff.mp hrest.arrived
    have hflow := hc.flow
    rw [hrest.handled, List.append_nil, List.take_of_length_le hread, hwhole] at hflow
    rw [hc.inbox.received hf, hflow, drain_flatten_frames plain frames hs.framed]

section
variable (keepAlive timeout now : Side → Int) (b : Side → Bool)

theorem carried_started (r : Side) : Carried r (started keepAlive timeout now b) [] := by
  have hcore := started_core none (keepAlive r.other) (timeout r.other) (now r.other) (b r.other)
  have hq : ((started keepAlive timeout now b).ends r.other).queue = .init false :=
    congrArg Core.queue hcore
  have hstream : (started keepAlive timeout now b).stream r = [] := by
    rw [stream, hq]
    rfl
  have hqueued := queued_started none (keepAlive r) (timeout r) (now r) (b r)
  have hone := started_turns none (keepAlive r) (timeout r) (now r) (b r) .read
  have hqueued : ((started keepAlive timeout now b).ends r).queued = [] := hqueued
  refine ⟨hone, ?_, ?_, inbox_started _ _ _ _, ?_⟩
  · rw [hqueued, hstream]
    rfl
  · rw [hstream]
    exact Nat.le_refl _
  · rw [hqueued]
    exact Nat.zero_le _

theorem sent_started (r : Side) : Sent r (started keepAlive timeout now b) [] := by
  have hcore := started_core none (keepAlive r.other) (timeout r.other) (now r.other) (b r.other)
  have hq : ((started keepAlive timeout now b).ends r.other).queue = .init false :=
    congrArg Core.queue hcore
  have hup : ((started keepAlive timeout now b).ends r.other).m_bConnected = true :=
    congrArg Core.connected hcore
  refine ⟨?_, started_writing none _ _ _ _, ?_, fun f hf => ?_⟩
  · rw [hq, hup]
    exact Stream.ofFifo SendQueue.fifo_init rfl
  · rw [hq]
    rfl
  · cases hf

variable {r : Side} {es : List LinkEvent} {s : Link}

theorem run_carried (hu : Along step (Undisturbed r) (started keepAlive timeout now b) es)
    (h : run step (started keepAlive timeout now b) es = some s) :
    Carried r s (Machine.collect step (handles r) (started keepAlive timeout now b) es) :=
  run_collect (Carried r) (fun _ _ _ _ hJ hP hs => step_carried hJ hP.1
    (fun he => framed_wellFormed (hP.2 he).2) hs) (carried_started keepAlive timeout now b r) hu h

theorem run_sent (hu : Along step (Undisturbed r) (started keepAlive timeout now b) es)
    (h : run step (started keepAlive timeout now b) es = some s) :
    Sent r s (Machine.collect step (sends r) (started keepAlive timeout now b) es) :=
  run_collect (Sent r) (fun _ _ _ _ hJ hP hs => step_sent hJ hP hs)
    (sent_started keepAlive timeout now b r) hu h

/-- **Packages arrive in order.**  In every run in which the handlers of packages at one end return
normally and the other end sends frames and accepts nothing behind a hole, the packages handed over
at the one end are the first of those accepted at the other, each once and in their order; and when
nothing is on its way they are all of them. -/
theorem packages_in_order (hu : Along step (Undisturbed r) (started keepAlive timeout now b) es)
    (h : run step (started keepAlive timeout now b) es = some s) :
    InOrder r s ((Machine.collect step (sends r) (started keepAlive timeout now b) es).map
      NetPackage.ofBytes) :=
  inOrder (run_carried keepAlive timeout now b hu h) (run_sent keepAlive timeout now b hu h)

/-- what an end does is a run of that connection alone -/
theorem run_end (r : Side) (h : run step (started keepAlive timeout now b) es = some s) :
    ∃ fs, run NetConnection.step
      (NetConnection.started none (keepAlive r) (timeout r) (now r) (b r)) fs = some (s.ends r) := by
  refine ⟨_, run_project (fun s : Link => s.ends r)
    (fun s e => if LinkEvent.side e = r then [s.event e] else []) (fun s e s' hs => ?_) h⟩
  obtain ⟨hstep, hstay⟩ := step_ends hs
  by_cases hr : LinkEvent.side e = r
  · subst hr
    rw [if_pos rfl]
    exact run_single hstep
  · rw [if_neg hr, hstay r (Ne.symm hr)]
    rfl

/-- something is under way to an end -/
inductive UnderWay (r : Side) (s : Link) : Prop
  | writes (h : (s.ends r.other).turns .write = 1)
  | reads (h : (s.step (.reads r recvBufSize)).isSome = true)
  | handles {i : Nat} {hd : Handler} (hi : (s.ends r).posted[i]? = some hd)
    (hl : hd.loop = some .read)
  | fails {i : Nat} (hi : (s.ends r).posted[i]? = some .handleConnectionError)

/-- a read that is pending can end with the first of the bytes on their way -/
theorem read_ends {s : Link} {r : Side} (hreads : (s.ends r).reads > 0)
    (hopen : (s.ends r).isOpen = true) (ht : s.transit r ≠ []) :
    (s.step (.reads r recvBufSize)).isSome = true := by
  have hdata : (s.transit r).take (min recvBufSize recvBufSize) ≠ [] := by
    rw [Nat.min_self, ← List.length_pos_iff_ne_nil, List.length_take]
    have := List.length_pos_iff_ne_nil.mpr ht
    simp only [recvBufSize]
    omega
  have hgate : (s.ends r).reads > 0 ∧ ((s.ends r).isOpen = false → false = true) :=
    ⟨hreads, fun hc => absurd hopen (by rw [hc]; decide)⟩
  rw [step]
  dsimp only
  rw [if_neg hdata, NetConnection.step, if_pos hgate]
  rfl

/-- with bytes on their way, an end that is up reads them or has a handler queued -/
theorem underWay_read {s : Link} {r : Side} (hopen : (s.ends r).isOpen = true)
    (hgo : Going (s.ends r) .read) (ht : s.transit r ≠ []) : UnderWay r s := by
  rcases hgo with h1 | ⟨_, hf⟩
  · by_cases hc : (s.ends r).posted.countP (fun h => decide (h.loop = some .read)) = 0
    · have hreads : (s.ends r).reads > 0 := by
        unfold turns pending at h1
        dsimp only at h1
        omega
      exact .reads (read_ends hreads hopen ht)
    · obtain ⟨hd, hm, hl⟩ := List.countP_pos_iff.mp (Nat.pos_of_ne_zero hc)
      obtain ⟨i, hi⟩ := List.mem_iff_getElem?.mp hm
      exact .handles hi (of_decide_eq_true hl)
  · obtain ⟨i, hi⟩ := List.mem_iff_getElem?.mp hf
    exact .fails hi

/-- **Two connections never come to a halt.**  In every run as above, as long as both are up and no
send was rejected, either all that was accepted at the one end has been handed over at the other, or
a write has not been followed up, the next bytes can be read, or what was read is still to be
handled. -/
theorem never_stuck (hu : Along step (Undisturbed r) (started keepAlive timeout now b) es)
    (h : run step (started keepAlive timeout now b) es = some s)
    (hup : ∀ side, (s.ends side).m_bConnected = true)
    (hkept : (s.ends r.other).queue.dropped = false) :
    (s.ends r).received = (Machine.collect step (sends r) (started keepAlive timeout now b) es).map
      NetPackage.ofBytes ∨ UnderWay r s := by
  have hc := run_carried keepAlive timeout now b hu h
  have hs := run_sent keepAlive timeout now b hu h
  by_cases hw : (s.ends r.other).turns .write = 0
  · by_cases hq : (s.ends r).queued = []
    · by_cases ht : s.transit r = []
      · exact .inl ((inOrder hc hs).all ⟨hup _, hkept, hw, ht, hq⟩)
      · obtain ⟨fs, hrun⟩ := run_end keepAlive timeout now b r h
        have hgo := run_going _ _ _ _ _ hrun (l := .read) (by decide)
          (fun e => absurd e (by decide)) (fun e => absurd e (by decide)) (hup r)
        exact .inr (underWay_read (run_open _ _ _ _ _ hrun (hup r)) hgo ht)
    · obtain ⟨x, hx⟩ := List.exists_mem_of_ne_nil _ hq
      obtain ⟨hd, hm, hb⟩ := List.mem_flatMap.mp hx
      obtain ⟨i, hi⟩ := List.mem_iff_getElem?.mp hm
      refine .inr (.handles hi ?_)
      cases hd with
      | handleRecvData err data => rfl
      | _ => cases hb
  · have hone := hs.writing.one
    exact .inr (.writes (by omega))

end

/-! ## a message on its way -/

/-- a message of sixteen bytes is sent, read and handled -/
def oneMessage : List LinkEvent :=
  [.acts .client (.sendDataAsync (keepAliveBytes .little) 16 SendQueue.still),
   .acts .client (.writeEnds 0 false), .acts .client (.run 0 NetConnection.calm),
   .reads .server 100, .acts .server (.run 0 NetConnection.calm)]

def quiet : Link := started (fun _ => 0) (fun _ => 0) (fun _ => 0) (fun _ => false)

/-- the handlers are calm and the data is a frame, whatever the state -/
theorem oneMessage_calm : ∀ e ∈ oneMessage, ∀ s : Link, (s.event e).Calm ∧ LinkEvent.Framed e := by
  intro e he s
  simp only [oneMessage, List.mem_cons, List.not_mem_nil, or_false] at he
  rcases he with rfl | rfl | rfl | rfl | rfl
  · exact ⟨trivial, by decide, keepAliveBytes_look .little⟩
  · exact ⟨trivial, trivial⟩
  · exact ⟨rfl, trivial⟩
  · exact ⟨trivial, trivial⟩
  · exact ⟨rfl, trivial⟩

theorem oneMessage_undisturbed (n : Nat) :
    Along step (Undisturbed .server) quiet (oneMessage.take n) := by
  have hcalm : Along step (fun _ e => ∀ s : Link, (s.event e).Calm ∧ LinkEvent.Framed e) quiet
      (oneMessage.take n) :=
    along_events quiet fun e he => oneMessage_calm e (List.mem_of_mem_take he)
  have hhole : Along step (fun s e => LinkEvent.side e = Side.server.other →
      NoHole (s.ends .client) (s.event e)) quiet oneMessage := by
    decide +kernel
  refine along_mono (fun s e hP => ?_) (along_and hcalm (along_take n hhole))
  exact ⟨fun _ => (hP.1 s).1, fun he => ⟨hP.2 he, (hP.1 s).2⟩⟩

theorem packages_in_order_one : ∃ s, run step quiet oneMessage = some s ∧
    InOrder .server s ([keepAliveBytes .little].map NetPackage.ofBytes) := by
  have hrun : (run step quiet oneMessage).isSome = true := by decide +kernel
  obtain ⟨s, h⟩ := Option.isSome_iff_exists.mp hrun
  have hsent : Machine.collect step (sends .server) quiet oneMessage = [keepAliveBytes .little] := by
    decide +kernel
  refine ⟨s, h, ?_⟩
  rw [← hsent]
  exact packages_in_order _ _ _ _ (oneMessage_undisturbed 5) h

/-- once the message is written, it is under way until it is handled -/
theorem never_stuck_one : ∃ s, run step quiet (oneMessage.take 3) = some s ∧
    UnderWay .server s := by
  have hrun : (run step quiet (oneMessage.take 3)).any (fun s =>
      decide ((s.ends .client).m_bConnected = true ∧ (s.ends .server).m_bConnected = true ∧
        (s.ends .client).queue.dropped = false ∧ (s.ends .server).received = [])) = true := by
    decide +kernel
  obtain ⟨s, h, hs⟩ := Option.any_eq_true _ _ |>.mp hrun
  obtain ⟨hc, hv, hkept, hnone⟩ := of_decide_eq_true hs
  have hsent : Machine.collect step (sends .server) quiet (oneMessage.take 3) = [keepAliveBytes .little] := by
    decide +kernel
  have hup : ∀ side, (s.ends side).m_bConnected = true := fun side => by
    cases side
    · exact hc
    · exact hv
  refine ⟨s, h, ?_⟩
  rcases never_stuck _ _ _ _ (oneMessage_undisturbed 3) h hup hkept with hall | hway
  · have hlen := congrArg List.length (hnone.symm.trans hall)
    rw [List.length_map] at hlen
    have := congrArg List.length hsent
    rw [List.length_singleton] at this
    exact absurd (hlen.trans this) (by decide)
  · exact hway

end Link

end Netwb
