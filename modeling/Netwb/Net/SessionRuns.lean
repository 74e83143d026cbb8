import Netwb.Net.Session

/-!
# Runs of a server connection

What holds in every state that a started connection can reach, whatever the order of the events.

* `dead_leaves_pool`  a connection that is down is out of the pool, in every run in which `doClose`
                      is run only when the connection is down or out of the pool already;
* `failure_once`      `onConnectionError` is called at most once; afterwards the connection is down,
                      out of the pool and takes no data;
* `stream_prefix`     without a cipher the bytes written are a prefix of the bytes accepted, in every
                      run in which nothing is accepted after a rejected send has thrown bytes away.
-/

namespace Netwb.NetConnection
open Wire

/-- the connection right after `start` -/
def started (cipher : Option BaseCipher) (keepAlive timeout now : Int) (readThrows : Bool) :
    NetConnection :=
  (accepted cipher keepAlive timeout).start now readThrows

theorem started_core (cipher : Option BaseCipher) (keepAlive timeout now : Int) (b : Bool) :
    (started cipher keepAlive timeout now b).core = ⟨true, true, 0, .init cipher.isSome⟩ := by
  unfold started start
  rw [recvData_core]
  dsimp only
  split <;> split <;> rfl

/-! ## the pool -/

/-- nothing is queued on the strand and no operation or timer is pending -/
def Settled (s : NetConnection) : Prop :=
  s.posted = [] ∧ s.reads = 0 ∧ s.queue.writes = [] ∧ s.keepAliveArmed = false ∧
    s.timeoutArmed = false

instance (s : NetConnection) : Decidable (Settled s) := inferInstanceAs (Decidable (_ ∧ _))

/-- `doClose` does not take down a connection that is in the pool -/
def ClosesOutside (s : NetConnection) (e : Event) : Prop :=
  s.closes e = true → s.m_bConnected = false ∨ s.pooled = false

instance (s : NetConnection) (e : Event) : Decidable (ClosesOutside s e) :=
  inferInstanceAs (Decidable (_ → _))

theorem step_pool {s s' : NetConnection} {e : Event} (h0 : s.m_bConnected = false → s.pooled = false)
    (hP : ClosesOutside s e) (h : s.step e = some s') :
    s'.m_bConnected = false → s'.pooled = false := by
  have he := step_effect h
  show s'.core.connected = false → s'.core.pooled = false
  generalize s'.core = k at he
  cases he with
  | idle ws => exact h0
  | append ha hq => exact h0
  | send hq => exact h0
  | remove => exact fun _ => rfl
  | close hc =>
    intro _
    rcases hP hc with hdown | hout
    · exact h0 hdown
    · exact hout
  | fail hc => exact fun _ => rfl

/-- **No dead connection stays in the pool, in any run in which `doClose` finds the connection down
or out of the pool.** -/
theorem dead_leaves_pool (cipher : Option BaseCipher) (keepAlive timeout now : Int) (b : Bool)
    {es : List Event} {s : NetConnection}
    (hP : Machine.Along step ClosesOutside (started cipher keepAlive timeout now b) es)
    (h : Machine.run step (started cipher keepAlive timeout now b) es = some s)
    (_ : Settled s) : s.m_bConnected = false → s.pooled = false := by
  have hc := congrArg Core.connected (started_core cipher keepAlive timeout now b)
  refine Machine.run_inv (fun s => s.m_bConnected = false → s.pooled = false)
    (fun _ _ _ => step_pool) ?_ hP h
  intro hf
  rw [show (started cipher keepAlive timeout now b).m_bConnected = true from hc] at hf
  cases hf

/-- a quiet environment, for runs on fixed events -/
def calm : Turn := ⟨SendQueue.still, 0, .little, fun _ => 0, 1, fun _ => false, false⟩

/-- a connection without timers is removed by the manager -/
theorem dead_leaves_pool_removed : ∃ s, Machine.run step (started none 0 0 0 false)
      [.removeConnection, .run 0 calm, .readEnds true [], .run 0 calm] = some s ∧
    (s.m_bConnected = false → s.pooled = false) := by
  have hrun : (Machine.run step (started none 0 0 0 false)
      [.removeConnection, .run 0 calm, .readEnds true [], .run 0 calm]).any
        (fun s => decide (Settled s)) = true := by
    decide +kernel
  obtain ⟨s, h, hs⟩ := Option.any_eq_true _ _ |>.mp hrun
  exact ⟨s, h, dead_leaves_pool none 0 0 0 false (by decide +kernel) h (of_decide_eq_true hs)⟩

/-- both timers are armed, the user closes, and everything that follows is run -/
def userClose : List Event :=
  [.run 0 calm, .run 0 calm, .close, .run 0 calm, .run 0 calm, .run 0 calm, .readEnds true [],
   .run 0 calm]

/-- a connection that the user closed stays in the pool -/
theorem closed_stays_pooled : ∃ s,
    Machine.run step (started none KEEP_ALIVE_INTERVAL TIME_OUT_INTERVAL 0 false) userClose
      = some s ∧ Settled s ∧ s.m_bConnected = false ∧ s.pooled = true := by
  have hrun : (Machine.run step (started none KEEP_ALIVE_INTERVAL TIME_OUT_INTERVAL 0 false)
      userClose).any (fun s => decide (Settled s ∧ s.m_bConnected = false ∧ s.pooled = true))
        = true := by
    decide +kernel
  obtain ⟨s, h, hs⟩ := Option.any_eq_true _ _ |>.mp hrun
  exact ⟨s, h, of_decide_eq_true hs⟩

/-! ## one notification -/

/-- down, out of the pool and without waiting bytes -/
structure Gone (s : NetConnection) : Prop where
  connected : s.m_bConnected = false
  pooled : s.pooled = false
  waitingPos : s.queue.m_waitingPos = 0

theorem doSendData_empty {q q' : SendQueue} {c : Choice} (hz : q.m_waitingPos = 0)
    (h : q.doSendData c = some q') : q' = { q with m_bSending := false } := by
  rw [SendQueue.doSendData, if_pos hz] at h
  cases h
  rfl

theorem attempt_connected {s : NetConnection} {e : Event} {d : ByteArray × Int}
    (h : s.attempt e = some d) : s.m_bConnected = true := by
  cases e with
  | sendDataAsync data len c =>
    rw [attempt] at h
    split at h
    · rename_i hc
      exact hc.1
    · cases h
  | run i t =>
    rw [attempt] at h
    split at h
    · rename_i hc
      exact hc.1
    · cases h
  | _ => cases h

/-- **A connection that is gone stays gone, without another notification.** -/
theorem step_gone {s s' : NetConnection} {e : Event} (hg : Gone s) (h : s.step e = some s') :
    Gone s' ∧ s'.notified = s.notified := by
  have he := step_effect h
  suffices hk : s'.core.connected = false ∧ s'.core.pooled = false ∧
      s'.core.queue.m_waitingPos = 0 ∧ s'.core.notified = s.notified from
    ⟨⟨hk.1, hk.2.1, hk.2.2.1⟩, hk.2.2.2⟩
  generalize s'.core = k at he
  cases he with
  | idle ws => exact ⟨hg.connected, hg.pooled, hg.waitingPos, rfl⟩
  | append ha hq =>
    have hc := attempt_connected ha
    rw [hg.connected] at hc
    cases hc
  | send hq =>
    rw [doSendData_empty hg.waitingPos hq]
    exact ⟨hg.connected, hg.pooled, hg.waitingPos, rfl⟩
  | remove => exact ⟨hg.connected, rfl, hg.waitingPos, rfl⟩
  | close hc => exact ⟨rfl, hg.pooled, rfl, rfl⟩
  | fail hc =>
    rw [hg.connected] at hc
    cases hc

/-- not yet notified, or notified once and gone -/
def Noticed (s : NetConnection) : Prop := s.notified = 0 ∨ s.notified = 1 ∧ Gone s

theorem step_noticed {s s' : NetConnection} {e : Event} (hn : Noticed s)
    (h : s.step e = some s') : Noticed s' := by
  rcases hn with h0 | ⟨h1, hg⟩
  · have he := step_effect h
    suffices hk : s'.core.notified = 0 ∨ s'.core.notified = 1 ∧ s'.core.connected = false ∧
        s'.core.pooled = false ∧ s'.core.queue.m_waitingPos = 0 from
      hk.imp id fun ⟨a, b, c, d⟩ => ⟨a, b, c, d⟩
    generalize s'.core = k at he
    cases he with
    | idle ws => exact .inl h0
    | append ha hq => exact .inl h0
    | send hq => exact .inl h0
    | remove => exact .inl h0
    | close hc => exact .inl h0
    | fail hc => exact .inr ⟨congrArg (· + 1) h0, rfl, rfl, rfl⟩
  · obtain ⟨g, n⟩ := step_gone hg h
    exact .inr ⟨n.trans h1, g⟩

/-- **At most one notification, and none of it is undone.** -/
theorem failure_once (cipher : Option BaseCipher) (keepAlive timeout now : Int) (b : Bool)
    {es : List Event} {s : NetConnection}
    (h : Machine.run step (started cipher keepAlive timeout now b) es = some s) :
    s.notified ≤ 1 ∧ (s.notified = 1 → ∀ fs s', Machine.run step s fs = some s' →
      s'.notified = 1 ∧ Gone s' ∧
      (∀ c data len, s'.sendDataAsync c data len = some (s', false)) ∧
      ∀ throws, s'.sendDataSync throws = (s', false)) := by
  have hn : Noticed s := by
    refine Machine.run_keeps Noticed (fun _ _ _ => step_noticed) ?_ h
    exact .inl (congrArg Core.notified (started_core cipher keepAlive timeout now b))
  have hle : s.notified ≤ 1 := by
    rcases hn with h0 | ⟨h1, _⟩ <;> omega
  refine ⟨hle, fun h1 fs s' hf => ?_⟩
  have hg : Gone s := by
    rcases hn with h0 | ⟨_, hg⟩
    · omega
    · exact hg
  obtain ⟨g, n⟩ := Machine.run_keeps (fun x => Gone x ∧ x.notified = 1)
    (fun _ _ _ hx hs => ⟨(step_gone hx.1 hs).1, (step_gone hx.1 hs).2.trans hx.2⟩) ⟨hg, h1⟩ hf
  refine ⟨n, g, fun c data len => ?_, fun throws => ?_⟩
  · rw [sendDataAsync, g.connected]
    rfl
  · rw [sendDataSync, g.connected]
    rfl

/-- a read fails while both first timer handlers are still queued -/
theorem failure_once_read : ∃ s, Machine.run step (started none 5 600 0 false)
      [.readEnds true [], .run 2 calm] = some s ∧ s.notified = 1 ∧
    (s.notified ≤ 1 ∧ (s.notified = 1 → ∀ fs s', Machine.run step s fs = some s' →
      s'.notified = 1 ∧ Gone s' ∧
      (∀ c data len, s'.sendDataAsync c data len = some (s', false)) ∧
      ∀ throws, s'.sendDataSync throws = (s', false))) := by
  have hrun : (Machine.run step (started none 5 600 0 false)
      [.readEnds true [], .run 2 calm]).any (fun s => decide (s.notified = 1)) = true := by
    decide +kernel
  obtain ⟨s, h, hs⟩ := Option.any_eq_true _ _ |>.mp hrun
  exact ⟨s, h, of_decide_eq_true hs, failure_once none 5 600 0 false h⟩

/-! ## the stream -/

/-- a send names an `r_int32` length within its data -/
def Event.WellFormed : Event → Prop
  | .sendDataAsync data len _ => len ≤ data.length ∧ len ≤ INT32_MAX
  | _ => True

instance : ∀ e, Decidable (Event.WellFormed e)
  | .sendDataAsync .. => inferInstanceAs (Decidable (_ ∧ _))
  | .sendDataSync .. => .isTrue trivial
  | .close => .isTrue trivial
  | .removeConnection => .isTrue trivial
  | .readEnds .. => .isTrue trivial
  | .writeEnds .. => .isTrue trivial
  | .keepAliveExpires => .isTrue trivial
  | .timeoutExpires => .isTrue trivial
  | .run .. => .isTrue trivial

/-- the sum that `sendDataAsync` computes is an `r_int32`, and nothing is accepted after a rejected
send has thrown bytes away -/
def NoHole (s : NetConnection) (e : Event) : Prop :=
  match s.attempt e with
  | some d => s.queue.m_waitingPos + d.2 ≤ INT32_MAX ∧
      (s.queue.dropped = false ∨ s.queue.m_waitingPos + d.2 > MAX_SEND_BUF_SIZE)
  | none => True

instance (s : NetConnection) (e : Event) : Decidable (NoHole s e) := by
  unfold NoHole
  split
  · exact inferInstanceAs (Decidable (_ ∧ _))
  · exact .isTrue trivial

theorem keepAliveBytes_length (o : ByteOrder) : (keepAliveBytes o).length = 16 := by
  cases o <;> decide +kernel

theorem attempt_fits {s : NetConnection} {e : Event} {data : ByteArray} {len : Int}
    (hw : e.WellFormed) (h : s.attempt e = some (data, len)) : 0 < len ∧ len ≤ data.length := by
  cases e with
  | sendDataAsync data' len' c =>
    rw [attempt] at h
    split at h
    · rename_i hc
      cases h
      exact ⟨hc.2.2, hw.1⟩
    · cases h
  | run i t =>
    rw [attempt] at h
    split at h
    · cases h
      rw [keepAliveBytes_length]
      exact ⟨by decide, Int.le_refl _⟩
    · cases h
  | _ => cases h

/-- what was written begins what was accepted; while the connection is up and nothing was thrown
away, the waiting bytes are the rest, and otherwise nothing waits -/
structure Stream (q : SendQueue) (connected : Bool) : Prop where
  layout : q.Layout
  plain : q.m_cipher = false
  written : q.written.flatten <+: q.accepted
  whole : connected = true → q.dropped = false →
    ∀ junk, q.written.flatten ++ q.waitingBytes junk = q.accepted
  broken : connected = false ∨ q.dropped = true → q.m_waitingPos = 0

theorem Stream.fifo {q : SendQueue} {b : Bool} (h : Stream q b) (hb : b = true)
    (hd : q.dropped = false) : q.Fifo := ⟨h.layout, h.plain, h.whole hb hd⟩

theorem Stream.ofFifo {q : SendQueue} (h : q.Fifo) (hd : q.dropped = false) : Stream q true :=
  ⟨h.layout, h.plain, ⟨_, h.fifo fun _ => 0⟩, fun _ _ => h.fifo,
    fun hx => by rcases hx with hx | hx <;> simp [hd] at hx⟩

/-- `doClose`, the overflow branch and a `doSendData` without work leave nothing waiting -/
theorem Stream.emptied {q : SendQueue} {b : Bool} (h : Stream q b) (b' sending dropped : Bool)
    (hb : b' = true → dropped = false → b = true ∧ q.dropped = false ∧ q.m_waitingPos = 0) :
    Stream { q with m_waitingPos := 0, m_bSending := sending, dropped := dropped } b' := by
  have hl := h.layout
  have hle : (0 : Int) ≤ q.m_waitingBufLen := Int.le_trans hl.pos_nonneg hl.pos_le
  refine ⟨hl.same (Int.le_refl _) hle _ _ _ _ _ _, h.plain, h.written, fun hb' hd junk => ?_,
    fun _ => rfl⟩
  obtain ⟨h1, h2, h3⟩ := hb hb' hd
  have hw := h.whole h1 h2 junk
  rw [SendQueue.waitingBytes_empty h3] at hw
  rw [SendQueue.waitingBytes_empty rfl]
  exact hw

theorem stream_append {s : NetConnection} {e : Event} {data : ByteArray} {len : Int} {c : Choice}
    {r : SendQueue × Bool} (h : Stream s.queue s.m_bConnected) (hw : e.WellFormed)
    (hn : NoHole s e) (ha : s.attempt e = some (data, len))
    (hq : s.queue.append c data len = some r) : Stream r.1 s.m_bConnected := by
  have hcon := attempt_connected ha
  obtain ⟨h0, hlen⟩ := attempt_fits hw ha
  rw [NoHole, ha] at hn
  obtain ⟨hsum, hdrop⟩ := hn
  by_cases hrej : toInt32 (len + s.queue.m_waitingPos) > MAX_SEND_BUF_SIZE
  · rw [s.queue.append_rejected c data len hrej] at hq
    cases hq
    refine h.emptied _ s.queue.m_bSending _ fun hb hd => ⟨hb, ?_⟩
    rw [Bool.or_eq_false_iff] at hd
    exact ⟨hd.1, by simpa using hd.2⟩
  · have hd : s.queue.dropped = false := by
      rcases hdrop with hd | hbig
      · exact hd
      · have hp := h.layout.pos_nonneg
        unfold INT32_MAX at hsum
        rw [toInt32_eq (by omega) (by omega)] at hrej
        dsimp only at hbig
        omega
    obtain ⟨q', e', hf', _, _, hd'⟩ := SendQueue.append_accepted (h.fifo hcon hd) c h0 hlen hsum hrej
    rw [e'] at hq
    cases hq
    rw [hcon]
    exact Stream.ofFifo hf' (hd'.trans hd)

theorem stream_send {s : NetConnection} {c : Choice} {q : SendQueue}
    (h : Stream s.queue s.m_bConnected) (hq : s.queue.doSendData c = some q) :
    Stream q s.m_bConnected := by
  by_cases hz : s.queue.m_waitingPos = 0
  · have e : q = { s.queue with
        m_waitingPos := 0, m_bSending := false, dropped := s.queue.dropped } := by
      rw [doSendData_empty hz hq, hz]
    rw [e]
    exact h.emptied _ false _ fun hb hd => ⟨hb, hd, hz⟩
  · have hcon : s.m_bConnected = true := by
      by_contra hb
      exact hz (h.broken (.inl (Bool.eq_false_iff.mpr hb)))
    have hd : s.queue.dropped = false := by
      by_contra hb
      exact hz (h.broken (.inr (Bool.not_eq_false _ ▸ hb)))
    obtain ⟨q', e', hf', _, _, hd', _⟩ := SendQueue.doSendData_plain (h.fifo hcon hd) c
    rw [e'] at hq
    cases hq
    rw [hcon]
    exact Stream.ofFifo hf' (hd'.trans hd)

theorem step_stream {s s' : NetConnection} {e : Event} (h : Stream s.queue s.m_bConnected)
    (hw : e.WellFormed) (hn : NoHole s e) (hs : s.step e = some s') :
    Stream s'.queue s'.m_bConnected := by
  have he := step_effect hs
  show Stream s'.core.queue s'.core.connected
  generalize s'.core = k at he
  cases he with
  | idle ws =>
    exact ⟨h.layout.same h.layout.pos_nonneg h.layout.pos_le _ _ _ _ _ _, h.plain, h.written, h.whole,
      h.broken⟩
  | append ha hq => exact stream_append h hw hn ha hq
  | send hq => exact stream_send h hq
  | remove => exact h
  | close hc => exact h.emptied false false s.queue.dropped fun hb => nomatch hb
  | fail hc => exact h.emptied false false s.queue.dropped fun hb => nomatch hb

theorem run_stream {es : List Event} : ∀ {s s' : NetConnection}, Stream s.queue s.m_bConnected →
    (∀ e ∈ es, e.WellFormed) → Machine.Along step NoHole s es → Machine.run step s es = some s' →
    Stream s'.queue s'.m_bConnected := by
  induction es with
  | nil =>
    intro s s' h _ _ hs
    cases hs
    exact h
  | cons e es ih =>
    intro s s' h hw hn hs
    obtain ⟨s1, h1, h2⟩ := Machine.run_cons hs
    exact ih (step_stream h (hw e (List.mem_cons_self ..)) hn.1 h1)
      (fun x hx => hw x (List.mem_cons_of_mem _ hx)) (Machine.along_tail hn h1) h2

/-- **The bytes written are a prefix of the bytes accepted, in any run in which nothing is accepted
after a rejected send has thrown bytes away.** -/
theorem stream_prefix (keepAlive timeout now : Int) (b : Bool) {es : List Event}
    {s : NetConnection} (hw : ∀ e ∈ es, e.WellFormed)
    (hn : Machine.Along step NoHole (started none keepAlive timeout now b) es)
    (h : Machine.run step (started none keepAlive timeout now b) es = some s) :
    s.queue.written.flatten <+: s.queue.accepted := by
  have hc := started_core none keepAlive timeout now b
  have h0 : Stream (started none keepAlive timeout now b).queue
      (started none keepAlive timeout now b).m_bConnected := by
    show Stream (started none keepAlive timeout now b).core.queue
      (started none keepAlive timeout now b).core.connected
    rw [hc]
    exact Stream.ofFifo SendQueue.fifo_init rfl
  exact (run_stream h0 hw hn h).written

/-- a send is written, and its write ends well -/
theorem stream_prefix_one : ∃ s, Machine.run step (started none 5 600 0 false)
      [.sendDataAsync [1] 1 SendQueue.still, .writeEnds 0 false, .run 2 calm] = some s ∧
    s.queue.written.flatten <+: s.queue.accepted := by
  have hrun : (Machine.run step (started none 5 600 0 false)
      [.sendDataAsync [1] 1 SendQueue.still, .writeEnds 0 false, .run 2 calm]).isSome = true := by
    decide +kernel
  obtain ⟨s, h⟩ := Option.isSome_iff_exists.mp hrun
  exact ⟨s, h, stream_prefix 5 600 0 false (by decide) (by decide +kernel) h⟩

/-- as many bytes as the largest buffer has -/
def bufferful : ByteArray := List.replicate 67108864 0

theorem bufferful_length : bufferful.length = 67108864 := List.length_replicate

/-- a byte is written and one waits; the write ends, a send that is too large empties the queue,
another byte is accepted, and the handler of the write sends it -/
def overflow : List Event :=
  [.run 0 calm, .run 0 calm, .sendDataAsync [1] 1 SendQueue.still,
   .sendDataAsync [2] 1 SendQueue.still, .writeEnds 0 false,
   .sendDataAsync bufferful 67108864 SendQueue.still, .sendDataAsync [3] 1 SendQueue.still,
   .run 0 calm]

theorem overflow_leaves_hole : (∀ e ∈ overflow, e.WellFormed) ∧ ∃ s,
    Machine.run step (started none KEEP_ALIVE_INTERVAL TIME_OUT_INTERVAL 0 false) overflow = some s ∧
      s.queue.accepted = [1, 2, 3] ∧ s.queue.written = [[1], [3]] ∧
      ¬ s.queue.written.flatten <+: s.queue.accepted := by
  have hwf : ∀ e ∈ overflow, e.WellFormed := by
    have h : (67108864 : Int) ≤ (bufferful.length : Nat) := by rw [bufferful_length]; decide
    simp only [overflow, List.forall_mem_cons]
    exact ⟨trivial, trivial, by decide, by decide, trivial, ⟨h, by decide⟩, by decide, trivial,
      fun _ h => nomatch h⟩
  have hrun : (Machine.run step (started none KEEP_ALIVE_INTERVAL TIME_OUT_INTERVAL 0 false)
      overflow).any (fun s => decide (s.queue.accepted = [1, 2, 3] ∧ s.queue.written = [[1], [3]]))
        = true := by
    decide +kernel
  obtain ⟨s, h, hs⟩ := Option.any_eq_true _ _ |>.mp hrun
  obtain ⟨ha, hw⟩ := of_decide_eq_true hs
  refine ⟨hwf, s, h, ha, hw, ?_⟩
  rw [ha, hw]
  decide

end Netwb.NetConnection
