import Netwb.Net.Loops
import Netwb.Net.Delivery

/-!
# The bytes that a connection has read

A read that ends well queues a handler with its bytes, and the handler hands them to the parser.
Of these handlers there is one at most (`Loops`), so that the bytes reach the parser in the order in
which they were read, whatever else is queued.

* `step_intake`   what a step does to the bytes that are queued and to the parser;
* `step_inbox_of` what was handed over are the packages that the bytes so far contain, as long as
                  the handlers of packages return normally.
-/

namespace Netwb
open Wire Machine Framing NetPackageParser

/-- the bytes that a handler brings to the parser -/
def Handler.bytes : Handler → ByteArray
  | .handleRecvData false data => data
  | _ => []

namespace NetConnection

/-- the bytes that were read and not yet handled -/
def queued (s : NetConnection) : ByteArray := s.posted.flatMap Handler.bytes

theorem post_queued (s : NetConnection) (h : Handler) :
    (s.post h).queued = s.queued ++ h.bytes := by
  unfold queued post
  rw [List.flatMap_append, List.flatMap_singleton]

theorem cancelKeepAlive_queued (s : NetConnection) : s.cancelKeepAlive.queued = s.queued := by
  unfold cancelKeepAlive
  split
  · exact (post_queued s (.doSendKeepAlive true)).trans (List.append_nil _)
  · rfl

theorem cancelTimeout_queued (s : NetConnection) : s.cancelTimeout.queued = s.queued := by
  unfold cancelTimeout
  split
  · exact (post_queued s (.doTimeoutCheck true)).trans (List.append_nil _)
  · rfl

theorem recvData_queued (s : NetConnection) (b : Bool) : (s.recvData b).queued = s.queued := by
  unfold recvData
  split
  · exact (post_queued s _).trans (List.append_nil _)
  · rfl

theorem doClose_queued (s : NetConnection) : s.doClose.queued = s.queued := by
  show ({ s with m_bConnected := false, isOpen := false } :
    NetConnection).cancelKeepAlive.cancelTimeout.queued = s.queued
  rw [cancelTimeout_queued, cancelKeepAlive_queued]
  rfl

theorem handleConnectionError_queued (s : NetConnection) :
    s.handleConnectionError.queued = s.queued := by
  unfold handleConnectionError
  split
  · show (s.doClose.post (.doClose true)).queued = s.queued
    rw [post_queued, doClose_queued]
    exact List.append_nil _
  · rfl

theorem sendDataAsync_queued {s s' : NetConnection} {c : Choice} {data : ByteArray} {len : Int}
    {b : Bool} (h : s.sendDataAsync c data len = some (s', b)) : s'.queued = s.queued := by
  unfold sendDataAsync at h
  split at h
  · split at h
    · obtain ⟨r, _, he⟩ := Option.map_eq_some_iff.mp h
      split at he
      · cases he
        rfl
      · cases he
        exact (post_queued _ _).trans (List.append_nil _)
    · cases h
      rfl
  · cases h
    rfl

theorem doSendKeepAlive_queued {s s' : NetConnection} {t : Turn} {err : Bool}
    (h : s.doSendKeepAlive t err = some s') : s'.queued = s.queued := by
  unfold doSendKeepAlive at h
  split at h
  · cases h
    rfl
  · obtain ⟨s1, h1, rfl⟩ := Option.map_eq_some_iff.mp h
    show s1.cancelKeepAlive.queued = s.queued
    rw [cancelKeepAlive_queued]
    split at h1
    · obtain ⟨⟨s2, b⟩, h2, rfl⟩ := Option.map_eq_some_iff.mp h1
      exact sendDataAsync_queued h2
    · cases h1
      rfl

/-- what a step does to the bytes that are queued and to the parser -/
inductive Takes (s : NetConnection) : Event → NetConnection → Prop
  | nothing {e : Event} {s' : NetConnection} (hr : ∀ data, e ≠ .readEnds false data)
    (hin : s.incoming e = []) (hq : s'.queued = s.queued) (hi : s'.inbox = s.inbox) : Takes s e s'
  | arrives {data : ByteArray} {s' : NetConnection} (h0 : s.reads > 0)
    (hq : s'.queued = s.queued ++ data) (hi : s'.inbox = s.inbox) :
    Takes s (.readEnds false data) s'
  | handles {i : Nat} {t : Turn} {data : ByteArray} {s' : NetConnection}
    {r : NetPackageParser × List NetPackage × Bool}
    (hp : s.posted[i]? = some (.handleRecvData false data))
    (hr : onDataReceived t.order t.wild t.fuel t.throws s.m_pkgParser data data.length = some r)
    (hq : s'.queued = (s.dequeue i).queued) (hi : s'.inbox = (r.1, s.received ++ r.2.1)) :
    Takes s (.run i t) s'

theorem dequeue_queued {s : NetConnection} {i : Nat} {h : Handler} (hi : s.posted[i]? = some h)
    (hb : h.bytes = []) : (s.dequeue i).queued = s.queued :=
  flatMap_dequeue Handler.bytes hi hb

/-- a handler that brings no bytes -/
theorem takes_run {s s' : NetConnection} {i : Nat} {t : Turn} {h : Handler}
    (hp : s.posted[i]? = some h) (hb : h.bytes = []) (hq : s'.queued = (s.dequeue i).queued)
    (hi : s'.inbox = s.inbox) : Takes s (.run i t) s' := by
  refine .nothing (fun _ he => Event.noConfusion he) ?_ (hq.trans (dequeue_queued hp hb)) hi
  rw [incoming, hp]
  split
  · rename_i data he
    cases he
    exact hb
  · rfl

/-- **What a step does to the reading side.** -/
theorem step_intake {s s' : NetConnection} {e : Event} (h : s.step e = some s') : Takes s e s' := by
  cases step_does h with
  | sendDataAsync h1 =>
    exact .nothing (fun _ he => Event.noConfusion he) rfl (sendDataAsync_queued h1)
      (sendDataAsync_inbox h1)
  | sendDataSync throws =>
    refine .nothing (fun _ he => Event.noConfusion he) rfl ?_ ?_
    · unfold sendDataSync
      split
      · split
        · exact (post_queued s _).trans (List.append_nil _)
        · rfl
      · rfl
    · unfold sendDataSync
      split
      · split <;> rfl
      · rfl
  | close =>
    exact .nothing (fun _ he => Event.noConfusion he) rfl
      ((post_queued s _).trans (List.append_nil _)) rfl
  | removeConnection =>
    exact .nothing (fun _ he => Event.noConfusion he) rfl
      ((post_queued s (.doClose true)).trans (List.append_nil _)) rfl
  | readEnds err data =>
    have hp := post_queued { s with reads := s.reads - 1 } (.handleRecvData err data)
    rw [step] at h
    split at h
    · rename_i hr
      cases err with
      | true =>
        refine .nothing (fun _ he => ?_) rfl (hp.trans (List.append_nil _)) rfl
        cases he
      | false => exact .arrives hr.1 hp rfl
    · cases h
  | writeEnds i err =>
    exact .nothing (fun _ he => Event.noConfusion he) rfl
      ((post_queued _ _).trans (List.append_nil _)) rfl
  | keepAliveExpires _ =>
    exact .nothing (fun _ he => Event.noConfusion he) rfl
      ((post_queued s (.doSendKeepAlive false)).trans (List.append_nil _)) rfl
  | timeoutExpires _ =>
    exact .nothing (fun _ he => Event.noConfusion he) rfl
      ((post_queued s (.doTimeoutCheck false)).trans (List.append_nil _)) rfl
  | doClose t hi => exact takes_run hi rfl (doClose_queued _) (doClose_inbox _)
  | @fails i t hd hi hf =>
    refine takes_run hi ?_ (handleConnectionError_queued _) (handleConnectionError_inbox _)
    cases hd with
    | handleRecvData err data =>
      cases hf
      rfl
    | _ => rfl
  | receives hi hr => exact .handles hi hr (recvData_queued _ _) (recvData_inbox _ _)
  | receivesNothing t hi => exact takes_run hi rfl (recvData_queued _ _) (recvData_inbox _ _)
  | sends hi hq => exact takes_run hi rfl rfl rfl
  | keepAliveAborted t hi => exact takes_run hi rfl rfl rfl
  | keepsAlive hi h1 =>
    have hin := doSendKeepAlive_inbox h1
    exact takes_run hi rfl (doSendKeepAlive_queued h1) hin
  | timeoutAborted t hi => exact takes_run hi rfl rfl rfl
  | inTime hi hf =>
    exact takes_run hi rfl (cancelTimeout_queued _) (cancelTimeout_inbox _)

/-! ## the order of the bytes -/

/-- the bytes of a read that ends well -/
def Event.arrived : Event → ByteArray
  | .readEnds false data => data
  | _ => []

/-- without a handler of a read no bytes are queued -/
theorem queued_nil {s : NetConnection}
    (hc : s.posted.countP (fun h => decide (h.loop = some .read)) = 0) : s.queued = [] := by
  apply List.flatMap_eq_nil_iff.mpr
  intro hd hm
  have hno := List.countP_eq_zero.mp hc hd hm
  cases hd with
  | handleRecvData err data => exact absurd rfl hno
  | _ => rfl

/-- **What is handled comes first of what was read**: the bytes handled, and those queued after the
step, are those queued before it and those that have arrived. -/
theorem step_order {s s' : NetConnection} {e : Event} (h1 : s.turns .read ≤ 1)
    (h : s.step e = some s') : s.incoming e ++ s'.queued = s.queued ++ e.arrived := by
  cases step_intake h with
  | nothing hr hin hq hi =>
    have he : e.arrived = [] := by
      unfold Event.arrived
      split
      · exact absurd rfl (hr _)
      · rfl
    rw [hin, he, hq, List.nil_append, List.append_nil]
  | arrives h0 hq hi => exact hq
  | @handles i t data s' r hp hr hq hi =>
    have ht := dequeue_turns hp .read
    simp only [Handler.loop, if_true] at ht
    have hnone : (s.dequeue i).queued = [] := queued_nil (by unfold turns at ht h1; omega)
    have hall : s.queued = data := flatMap_alone Handler.bytes hp hnone
    rw [hq, hnone, hall, incoming, hp]
    rfl

/-! ## the packages -/

/-- `m_recvBuf.size()` -/
def recvBufSize : Nat := 65536

/-- the handlers of packages return normally -/
def Event.Calm : Event → Prop
  | .run _ t => t.throws = fun _ => false
  | _ => True

/-- after some bytes: the parser waits for more, and holds what is left of them; the packages handed
over are those that the bytes contain -/
structure Inbox (s : NetConnection) (bytes : ByteArray) : Prop where
  ready : s.m_pkgParser.Ready
  rest : (drain plain bytes).failed = false → s.m_pkgParser.live = (drain plain bytes).rest
  received : (drain plain bytes).failed = false →
    s.received = (drain plain bytes).frames.map NetPackage.ofBytes

theorem Inbox.of_inbox {s s' : NetConnection} {bytes : ByteArray} (h : Inbox s bytes)
    (hi : s'.inbox = s.inbox) : Inbox s' bytes := by
  obtain ⟨hp, hr⟩ := Prod.ext_iff.mp hi
  have hp : s'.m_pkgParser = s.m_pkgParser := hp
  have hr : s'.received = s.received := hr
  refine ⟨by rw [hp]; exact h.ready, ?_, ?_⟩
  · rw [hp]
    exact h.rest
  · rw [hr]
    exact h.received

/-- a chunk of a read, behind what the parser holds, lies within reach of `decode` -/
theorem chunk_fits {p : NetPackageParser} (h : p.Ready) {data : ByteArray}
    (hd : data.length ≤ recvBufSize) :
    FitsFrom 0 ((drain plain (p.live ++ data)).frames.map List.length) := by
  have hw := waiting_length h.waiting
  have hf := (drain_frames_front plain (p.live ++ data)).length_le
  rw [List.length_flatten, List.length_append] at hf
  simp only [NET_PACKAGE_INVALID_LENGTH, recvBufSize] at hw hd
  refine fitsFrom_small 0 _ (fun n hn => ?_) (by omega)
  obtain ⟨f, hf', rfl⟩ := List.mem_map.mp hn
  exact frame_sizes _ f hf'

/-- **A chunk hands over the packages that it completes.** -/
theorem chunk_inbox {s s' : NetConnection} {bytes data : ByteArray} (h : Inbox s bytes)
    (hd : data.length ≤ recvBufSize) {t : Turn} (ht : t.throws = fun _ => false)
    {r : NetPackageParser × List NetPackage × Bool}
    (hr : onDataReceived t.order t.wild t.fuel t.throws s.m_pkgParser data data.length = some r)
    (hi : s'.inbox = (r.1, s.received ++ r.2.1)) : Inbox s' (bytes ++ data) := by
  obtain ⟨hp, hrec⟩ := Prod.ext_iff.mp hi
  have hp : s'.m_pkgParser = r.1 := hp
  have hrec : s'.received = s.received ++ r.2.1 := hrec
  have h32 : (data.length : Int) ≤ INT32_MAX := by
    simp only [recvBufSize, INT32_MAX] at hd ⊢
    omega
  rw [ht] at hr
  obtain ⟨p', ps, hcall, hready, hlive, buf, hfront, hps⟩ :=
    onDataReceived_ready t.order t.wild t.fuel h.ready ⟨data, h32⟩
  rw [hcall] at hr
  injection hr with hr
  subst hr
  dsimp only at hp hrec hlive hfront hps
  have hread := readsFrom_fits t.order t.wild buf 0 _ (frame_sizes _) hfront (Nat.zero_le _)
    (chunk_fits h.ready hd)
  -- draining can be interrupted between the bytes so far and the chunk
  have hsplit : (drain plain (bytes ++ data)).failed = false →
      (drain plain (bytes ++ data)).frames = (drain plain bytes).frames
          ++ (drain plain (s.m_pkgParser.live ++ data)).frames ∧
        (drain plain (bytes ++ data)).rest = (drain plain (s.m_pkgParser.live ++ data)).rest ∧
        (drain plain bytes).failed = false := by
    intro hf
    have hf0 := drain_failed_of_append plain bytes data hf
    obtain ⟨a1, a2, _⟩ := drain_append plain bytes data hf0
    rw [← h.rest hf0] at a1 a2
    exact ⟨a1, a2, hf0⟩
  refine ⟨by rw [hp]; exact hready, fun hf => ?_, fun hf => ?_⟩
  · rw [hp, hlive, (hsplit hf).2.1]
  · obtain ⟨a1, _, hf0⟩ := hsplit hf
    rw [hrec, h.received hf0, hps, hread, a1, List.map_append]

theorem step_inbox_of {s s' : NetConnection} {e : Event} {bytes : ByteArray} (h : Inbox s bytes)
    (hc : e.Calm) (hd : (s.incoming e).length ≤ recvBufSize) (hs : s.step e = some s') :
    Inbox s' (bytes ++ s.incoming e) := by
  cases step_intake hs with
  | nothing hr hin hq hi =>
    rw [hin, List.append_nil]
    exact h.of_inbox hi
  | arrives h0 hq hi =>
    rw [show s.incoming _ = [] from rfl, List.append_nil]
    exact h.of_inbox hi
  | @handles i t data s' r hp hr hq hi =>
    have hin : s.incoming (.run i t) = data := by
      rw [incoming, hp]
    rw [hin] at hd ⊢
    exact chunk_inbox h hd hc hr hi

theorem inbox_started (keepAlive timeout now : Int) (b : Bool) :
    Inbox (started none keepAlive timeout now b) [] := by
  have hi : (started none keepAlive timeout now b).inbox = (.fresh, []) := by
    unfold started start
    rw [recvData_inbox]
    dsimp only
    split <;> split <;> rfl
  have h0 : Inbox (accepted none keepAlive timeout) [] :=
    ⟨ready_fresh, fun _ => rfl, fun _ => rfl⟩
  exact h0.of_inbox hi

theorem queued_started (cipher : Option BaseCipher) (keepAlive timeout now : Int) (b : Bool) :
    (started cipher keepAlive timeout now b).queued = [] := by
  unfold started start
  rw [recvData_queued]
  dsimp only
  split <;> split <;> rfl

end NetConnection

end Netwb
