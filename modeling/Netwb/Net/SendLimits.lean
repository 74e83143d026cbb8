import Netwb.Net.Sender

/-!
# The arithmetic of the send queue

`needSize` of `sendDataAsync` is an `r_int32`: the sum of a length and of `m_waitingPos`.  The test
against `MAX_SEND_BUF_SIZE` and the growth of the buffer both read it, so a sum that wraps around
passes the one and does not ask for the other.

The position is within the largest buffer in every state (`Within`), whatever the recorded sizes of
the two buffers are, as long as no sum has wrapped around.

* `exact_iff`          one send: its total is within the limits, or it is rejected, if and only if
                       the sum is an `r_int32`;
* `queue_exact_iff`    the same for all sends of a run.
-/

namespace Netwb
open Wire

/-- a positive length of a send is an `r_int32` within its data -/
def SendEvent.LengthFits : SendEvent → Prop
  | .sendDataAsync data len _ => 0 < len → len ≤ data.length ∧ len ≤ INT32_MAX
  | _ => True

namespace Sender
open SendQueue

/-- the data is not refused before the queue is looked at -/
def Offered (s : Sender) (data : ByteArray) (len : Int) : Prop :=
  s.m_bConnected = true ∧ data ≠ [] ∧ len > 0

/-- the branch of `sendDataAsync` that throws the queue away -/
def Rejects (s : Sender) (len : Int) : Prop :=
  toInt32 (len + s.queue.m_waitingPos) > MAX_SEND_BUF_SIZE

/-- over the integers, what is copied fits into the largest buffer and into the one it is copied to,
and every larger total is rejected -/
def Exact (s : Sender) : SendEvent → Prop
  | .sendDataAsync data len c => Offered s data len →
      (¬ Rejects s len → s.queue.m_waitingPos + len ≤ MAX_SEND_BUF_SIZE ∧
        s.queue.m_waitingPos + len
          ≤ (s.queue.room c (toInt32 (len + s.queue.m_waitingPos))).m_waitingBufLen) ∧
      (s.queue.m_waitingPos + len > MAX_SEND_BUF_SIZE → Rejects s len)
  | _ => True

/-- the sum that a send computes is an `r_int32` -/
def SumFits (s : Sender) : SendEvent → Prop
  | .sendDataAsync data len _ => Offered s data len → s.queue.m_waitingPos + len ≤ INT32_MAX
  | _ => True

instance (s : Sender) : ∀ e, Decidable (SumFits s e)
  | .sendDataAsync _ _ _ => inferInstanceAs (Decidable (_ ∧ _ ∧ _ → _ ≤ _))
  | .writeEnds _ _ _ => .isTrue trivial
  | .setCipher _ => .isTrue trivial
  | .doClose => .isTrue trivial
  | .handleConnectionError => .isTrue trivial

/-- the position is within the largest buffer -/
structure Within (s : Sender) : Prop where
  nonneg : 0 ≤ s.queue.m_waitingPos
  le : s.queue.m_waitingPos ≤ MAX_SEND_BUF_SIZE

theorem within_connected (m_cipher : Bool) : Within (connected m_cipher) :=
  ⟨Int.le_refl _, by show (0 : Int) ≤ MAX_SEND_BUF_SIZE; decide⟩

theorem within_zero {s : Sender} (hz : s.queue.m_waitingPos = 0) : Within s := by
  refine ⟨by rw [hz], ?_⟩
  rw [hz]
  decide

/-! ## one send -/

/-- the waiting buffer has the room that was asked for -/
theorem room_le (q : SendQueue) (c : Choice) {n : Int} (h0 : 0 < n) (hn : n ≤ MAX_SEND_BUF_SIZE) :
    n ≤ (q.room c n).m_waitingBufLen := by
  unfold room
  split
  · exact (resizeLen_spec h0 hn).1
  · omega

theorem sum_eq {pos len : Int} (hp : 0 ≤ pos) (h0 : 0 < len) (hfit : pos + len ≤ INT32_MAX) :
    toInt32 (len + pos) = pos + len := by
  unfold INT32_MAX at hfit
  rw [toInt32_eq (by omega) (by omega)]
  omega

/-- a sum that is too large for an `r_int32` comes out negative -/
theorem sum_wraps {pos len : Int} (hle : pos ≤ MAX_SEND_BUF_SIZE) (hlen : len ≤ INT32_MAX)
    (hbig : INT32_MAX < pos + len) : toInt32 (len + pos) < 0 := by
  unfold MAX_SEND_BUF_SIZE at hle
  unfold INT32_MAX at hlen hbig
  unfold toInt32
  omega

/-- **One send: the queue arithmetic is exact if and only if the sum is an `r_int32`.** -/
theorem exact_iff {s : Sender} (hw : Within s) {e : SendEvent} (hl : e.LengthFits) :
    Exact s e ↔ SumFits s e := by
  obtain ⟨hp, hle⟩ := hw
  cases e with
  | sendDataAsync data len c =>
    refine forall_congr' fun hoff => ?_
    have h0 : 0 < len := hoff.2.2
    obtain ⟨hdata, h32⟩ := hl h0
    constructor
    · rintro ⟨hcopies, hrejects⟩
      by_contra hbig
      have hwraps := sum_wraps hle h32 (by omega)
      have hmax : (0 : Int) < MAX_SEND_BUF_SIZE := by decide
      have hmax' : MAX_SEND_BUF_SIZE < INT32_MAX := by decide
      have hrej : toInt32 (len + s.queue.m_waitingPos) > MAX_SEND_BUF_SIZE := hrejects (by omega)
      omega
    · intro hfit
      have hsum := sum_eq hp h0 hfit
      unfold Rejects
      rw [hsum]
      refine ⟨fun hacc => ⟨by omega, ?_⟩, fun hbig => hbig⟩
      exact room_le s.queue c (by omega) (by omega)
  | writeEnds i err c => exact Iff.rfl
  | setCipher on => exact Iff.rfl
  | doClose => exact Iff.rfl
  | handleConnectionError => exact Iff.rfl

/-! ## the position -/

/-- `doSendData` writes all that waits, or leaves it waiting -/
theorem doSendData_pos {q q' : SendQueue} {c : Choice} (h : q.doSendData c = some q') :
    q'.m_waitingPos = 0 ∨ q'.m_waitingPos = q.m_waitingPos := by
  by_cases hs : Stuck q c
  · exact .inr (doSendData_stuck h hs).1
  · rcases doSendData_writes h hs with ⟨hz, rfl⟩ | ⟨hz, _⟩
    · exact .inl hz
    · exact .inl hz

theorem taken_sum {s : Sender} (hw : Within s) (c : Choice) (data : ByteArray) {len : Int}
    (h0 : 0 < len) (hfit : s.queue.m_waitingPos + len ≤ INT32_MAX) :
    (s.queue.taken c data len).m_waitingPos = s.queue.m_waitingPos + len := by
  have hroom := (room_same s.queue c (toInt32 (len + s.queue.m_waitingPos))).pos
  show toInt32 ((s.queue.room c _).m_waitingPos + len) = _
  rw [hroom, Int.add_comm]
  exact (sum_eq hw.nonneg h0 hfit).trans (Int.add_comm _ _)

/-- what is copied leaves the position within the largest buffer -/
theorem Within.taken {s : Sender} (hw : Within s) (c : Choice) (data : ByteArray) {len : Int}
    (h0 : 0 < len) (hfit : s.queue.m_waitingPos + len ≤ INT32_MAX) (hacc : ¬ Rejects s len) :
    Within { s with queue := s.queue.taken c data len } := by
  have hpos := taken_sum hw c data h0 hfit
  have hsum := sum_eq hw.nonneg h0 hfit
  have hp := hw.nonneg
  unfold Rejects at hacc
  refine ⟨?_, ?_⟩
  · show 0 ≤ (s.queue.taken c data len).m_waitingPos
    omega
  · show (s.queue.taken c data len).m_waitingPos ≤ MAX_SEND_BUF_SIZE
    omega

theorem Within.doSendData {s : Sender} {q q' : SendQueue} {c : Choice}
    (hq : Within { s with queue := q }) (h : q.doSendData c = some q') :
    Within { s with queue := q' } := by
  rcases doSendData_pos h with hz | hz
  · exact within_zero hz
  · exact ⟨hz ▸ hq.nonneg, hz ▸ hq.le⟩

theorem Within.handleConnectionError {s : Sender} (hw : Within s) :
    Within s.handleConnectionError := by
  unfold Sender.handleConnectionError
  split
  · exact within_zero rfl
  · exact hw

/-- the queue with which a step enters `doSendData` -/
theorem Within.entered {s : Sender} (hw : Within s) {e : SendEvent} (hs : SumFits s e)
    {q : SendQueue} {c : Choice} (he : s.entered e = some (q, c)) :
    Within { s with queue := q } := by
  cases entered_spec he with
  | sends hin hacc _ => exact hw.taken c _ hin.2.2 (hs hin) hacc
  | completes _ => exact ⟨hw.nonneg, hw.le⟩

theorem step_within {s s' : Sender} {e : SendEvent} (hw : Within s) (hs : SumFits s e)
    (h : s.step e = some s') : Within s' := by
  cases step_effect h with
  | calls he hq => exact (hw.entered hs he).doSendData hq
  | @waits data len c hin hacc hb => exact hw.taken c data hin.2.2 (hs hin) hacc
  | rejected d _ => exact within_zero rfl
  | ignored _ => exact hw
  | fails =>
    apply Within.handleConnectionError
    exact ⟨hw.nonneg, hw.le⟩
  | setCipher on => exact ⟨hw.nonneg, hw.le⟩
  | doClose => exact within_zero rfl
  | handleConnectionError => exact hw.handleConnectionError

/-! ## runs -/

/-- **The queue arithmetic is exact at every send of a run if and only if every sum is an
`r_int32`.** -/
theorem queue_exact_iff (m_cipher : Bool) {es : List SendEvent} (hl : ∀ e ∈ es, e.LengthFits) :
    Machine.Along step Exact (connected m_cipher) es ↔
      Machine.Along step SumFits (connected m_cipher) es :=
  Machine.along_iff (W := SendEvent.LengthFits) Within (fun _ _ _ hw _ hs h => step_within hw hs h)
    (fun _ _ hw he => exact_iff hw he) (within_connected m_cipher) hl

/-- the largest sum there is: a byte waits and all but one of `INT32_MAX` bytes are sent -/
def limitRun : List SendEvent :=
  [.sendDataAsync [1] 1 still, .sendDataAsync [2] 1 still,
   .sendDataAsync (largest.drop 1) 2147483646 still]

theorem queue_exact_limit : Machine.Along step Exact (connected false) limitRun := by
  have hl : ∀ e ∈ limitRun, e.LengthFits := by
    have h : (2147483646 : Int) ≤ ((largest.drop 1).length : Nat) := by
      rw [List.length_drop, largest_length]
      decide
    simp only [limitRun, List.forall_mem_cons]
    exact ⟨fun _ => by decide, fun _ => by decide, fun _ => ⟨h, by decide⟩, List.forall_mem_nil _⟩
  exact (queue_exact_iff false hl).mpr (by decide +kernel)

/-- one byte more: the sum wraps around, and the data is copied -/
def overRun : List SendEvent :=
  [.sendDataAsync [1] 1 still, .sendDataAsync [2] 1 still, .sendDataAsync largest 2147483647 still]

theorem queue_sum_wraps : (∀ e ∈ overRun, e.LengthFits) ∧
    ¬ Machine.Along step Exact (connected false) overRun := by
  have hl : ∀ e ∈ overRun, e.LengthFits := by
    have h : (2147483647 : Int) ≤ (largest.length : Nat) := by rw [largest_length]; decide
    simp only [overRun, List.forall_mem_cons]
    exact ⟨fun _ => by decide, fun _ => by decide, fun _ => ⟨h, by decide⟩, List.forall_mem_nil _⟩
  refine ⟨hl, fun hA => ?_⟩
  have hrun : (Machine.run step (connected false) (overRun.take 2)).map
      (fun s => (s.m_bConnected, s.queue.m_waitingPos)) = some (true, 1) := by
    decide +kernel
  obtain ⟨s, hs, he⟩ := Option.map_eq_some_iff.mp hrun
  obtain ⟨hup, hpos⟩ := Prod.mk.inj he
  have hdata : largest ≠ [] := by
    intro h
    have := largest_length
    rw [h] at this
    cases this
  -- the send of the largest data is accepted, with a total above the limit
  obtain ⟨s1, h1, h2⟩ := Machine.run_cons hs
  obtain ⟨s2, h3, h4⟩ := Machine.run_cons h2
  cases h4
  have hlast := (Machine.along_tail (Machine.along_tail hA h1) h3).1 ⟨hup, hdata, by decide⟩
  have hrej : Rejects s 2147483647 := hlast.2 (by rw [hpos]; decide)
  unfold Rejects at hrej
  rw [hpos] at hrej
  exact absurd hrej (by decide)

end Sender

end Netwb
