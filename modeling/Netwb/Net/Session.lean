import Netwb.Net.SendQueue
import Netwb.Net.Parser

/-!
# A server connection from its start on

The handlers of `net/NetConnection.cpp` as they run on the strand, for one connection that was
added to the pool (`NetManager::addConnection`) and started.  Whatever may happen next is an
`Event`: a call from another thread, the end of a pending operation, the expiry of a timer, or the
run of any one of the queued handlers.  One handler runs at a time; the calls are atomic.

A closed socket ends its pending operations with an error.  Cancelling an armed timer queues its
handler with an error; a handler that is queued already keeps its result.

`step_does` says once what a step can do, and `step_effect` what it can do to the flags, the pool,
the count of notifications and the send queue; what is proved about runs rests on them.
-/

namespace Netwb
open Wire

def KEEP_ALIVE_INTERVAL : Int := 5
def TIME_OUT_INTERVAL : Int := 600
def NET_CMD_KEEPALIVE : BitVec 16 := 1

/-- the handlers that are posted to the strand; a flag tells whether the error code is set -/
inductive Handler where
  | doClose (active : Bool)
  | handleConnectionError
  | handleRecvData (err : Bool) (data : ByteArray)
  | handleSendData (err : Bool)
  | doSendKeepAlive (err : Bool)
  | doTimeoutCheck (err : Bool)
deriving DecidableEq, Repr

/-- what the environment decides while a handler runs: the clock, the host, the memory outside the
buffers, how long `feedData` may loop, which calls of `onPackageReceived` throw, and whether
`async_read_some` throws -/
structure Turn where
  choice : Choice
  now : Int
  order : ByteOrder
  wild : Int → BYTE
  fuel : Nat
  throws : Nat → Bool
  readThrows : Bool

structure NetConnection where
  queue : SendQueue
  m_bConnected : Bool
  m_pkgParser : NetPackageParser
  m_lastSendTime : Int
  m_lastRecvTime : Int
  m_timeoutInterval : Int
  m_keepAliveInterval : Int
  isOpen : Bool
  /-- `async_read_some`s that have not ended -/
  reads : Nat
  /-- whether `m_sendKATimer`, `m_timeoutTimer` have a wait that has not ended -/
  keepAliveArmed : Bool
  timeoutArmed : Bool
  /-- the handlers that are queued on the strand -/
  posted : List Handler
  /-- whether the connection is in `m_connectionPool` -/
  pooled : Bool
  /-- the packages handed to `onPackageReceived` -/
  received : List NetPackage
  /-- the calls of `NetManager::onConnectionError` for this connection -/
  notified : Nat

namespace NetConnection

def post (s : NetConnection) (h : Handler) : NetConnection := { s with posted := s.posted ++ [h] }

/-- `m_sendKATimer.cancel` -/
def cancelKeepAlive (s : NetConnection) : NetConnection :=
  if s.keepAliveArmed then { s.post (.doSendKeepAlive true) with keepAliveArmed := false } else s

/-- `m_timeoutTimer.cancel` -/
def cancelTimeout (s : NetConnection) : NetConnection :=
  if s.timeoutArmed then { s.post (.doTimeoutCheck true) with timeoutArmed := false } else s

/-- the queue emptied at the end of `doClose` -/
def clear (q : SendQueue) : SendQueue := { q with m_waitingPos := 0, m_bSending := false }

def doClose (s : NetConnection) : NetConnection :=
  let s := { s with m_bConnected := false, isOpen := false }
  let s := s.cancelKeepAlive.cancelTimeout
  { s with queue := clear s.queue }

/-- `NetConnection::close` -/
def close (s : NetConnection) : NetConnection := s.post (.doClose true)

/-- `NetManager::removeConnection` -/
def removeConnection (s : NetConnection) : NetConnection := { s.close with pooled := false }

def handleConnectionError (s : NetConnection) : NetConnection :=
  if s.m_bConnected then
    let s := s.doClose
    { s with notified := s.notified + 1 }.removeConnection
  else s

def recvData (s : NetConnection) (readThrows : Bool) : NetConnection :=
  if readThrows then s.post .handleConnectionError else { s with reads := s.reads + 1 }

/-- `sendDataAsync` and what it returns -/
def sendDataAsync (s : NetConnection) (c : Choice) (data : ByteArray) (len : Int) :
    Option (NetConnection × Bool) :=
  if s.m_bConnected then
    if data ≠ [] ∧ len > 0 then
      (s.queue.append c data len).map fun r =>
        if r.2 then ({ s with queue := r.1 }, true)
        else ({ s with queue := r.1 }.post .handleConnectionError, false)
    else some (s, true)
  else some (s, false)

/-- `sendDataSync` and what it returns; `throws` tells whether `write` does -/
def sendDataSync (s : NetConnection) (throws : Bool) : NetConnection × Bool :=
  if s.m_bConnected then (if throws then s.post .handleConnectionError else s, true)
  else (s, false)

/-! ## the handlers -/

def handleRecvData (s : NetConnection) (t : Turn) (err : Bool) (data : ByteArray) :
    Option NetConnection :=
  if err then some s.handleConnectionError
  else
    let s := { s with m_lastRecvTime := t.now }
    if data ≠ [] then
      (onDataReceived t.order t.wild t.fuel t.throws s.m_pkgParser data data.length).map fun r =>
        { s with m_pkgParser := r.1, received := s.received ++ r.2.1 }.recvData t.readThrows
    else some (s.recvData t.readThrows)

def handleSendData (s : NetConnection) (t : Turn) (err : Bool) : Option NetConnection :=
  if err then some s.handleConnectionError
  else (s.queue.doSendData t.choice).map fun q => { s with queue := q, m_lastSendTime := t.now }

/-- the sixteen bytes of the keep-alive message -/
def keepAliveBytes (o : ByteOrder) : ByteArray :=
  let header := { NetPackageHeader.make NET_CMD_KEEPALIVE 0 0 0 with
    m_length := BitVec.ofNat 32 (4 + NET_PACKAGE_HEADER_LENGTH) }
  (header.encode o (List.replicate (4 + NET_PACKAGE_HEADER_LENGTH) 0) 0).2.1

def keepAliveDue (s : NetConnection) (t : Turn) : Bool :=
  toInt32 (t.now - s.m_lastSendTime) > s.m_keepAliveInterval

def doSendKeepAlive (s : NetConnection) (t : Turn) (err : Bool) : Option NetConnection :=
  if err then some s
  else
    let sent := if s.keepAliveDue t then
        (s.sendDataAsync t.choice (keepAliveBytes t.order) (keepAliveBytes t.order).length).map (·.1)
      else some s
    sent.map fun s => { s.cancelKeepAlive with keepAliveArmed := true }

def doTimeoutCheck (s : NetConnection) (t : Turn) (err : Bool) : NetConnection :=
  if err then s
  else if toInt32 (t.now - s.m_lastRecvTime) ≥ s.m_timeoutInterval then s.handleConnectionError
  else { s.cancelTimeout with timeoutArmed := true }

def handle (s : NetConnection) (t : Turn) : Handler → Option NetConnection
  | .doClose _ => some s.doClose
  | .handleConnectionError => some s.handleConnectionError
  | .handleRecvData err data => s.handleRecvData t err data
  | .handleSendData err => s.handleSendData t err
  | .doSendKeepAlive err => s.doSendKeepAlive t err
  | .doTimeoutCheck err => some (s.doTimeoutCheck t err)

/-! ## events -/

inductive Event where
  | sendDataAsync (data : ByteArray) (len : Int) (c : Choice)
  | sendDataSync (throws : Bool)
  | close
  | removeConnection
  | readEnds (err : Bool) (data : ByteArray)
  | writeEnds (i : Nat) (err : Bool)
  | keepAliveExpires
  | timeoutExpires
  | run (i : Nat) (t : Turn)

def step (s : NetConnection) : Event → Option NetConnection
  | .sendDataAsync data len c => (s.sendDataAsync c data len).map (·.1)
  | .sendDataSync throws => some (s.sendDataSync throws).1
  | .close => some s.close
  | .removeConnection => some s.removeConnection
  | .readEnds err data =>
    if s.reads > 0 ∧ (s.isOpen = false → err = true) then
      some ({ s with reads := s.reads - 1 }.post (.handleRecvData err data))
    else none
  | .writeEnds i err =>
    if i < s.queue.writes.length ∧ (s.isOpen = false → err = true) then
      some ({ s with queue := { s.queue with writes := s.queue.writes.eraseIdx i } }.post
        (.handleSendData err))
    else none
  | .keepAliveExpires =>
    if s.keepAliveArmed then some { s.post (.doSendKeepAlive false) with keepAliveArmed := false }
    else none
  | .timeoutExpires =>
    if s.timeoutArmed then some { s.post (.doTimeoutCheck false) with timeoutArmed := false }
    else none
  | .run i t =>
    match s.posted[i]? with
    | some h => { s with posted := s.posted.eraseIdx i }.handle t h
    | none => none

/-- `start()` -/
def start (s : NetConnection) (now : Int) (readThrows : Bool) : NetConnection :=
  let s := { s with m_bConnected := true, m_lastSendTime := now, m_lastRecvTime := now }
  let s := if s.m_keepAliveInterval > 0 then s.post (.doSendKeepAlive false) else s
  let s := if s.m_timeoutInterval > 0 then s.post (.doTimeoutCheck false) else s
  s.recvData readThrows

/-- a connection that was accepted and added to the pool, before its start -/
def accepted (cipher : Option BaseCipher) (keepAlive timeout : Int) : NetConnection where
  queue := .init cipher.isSome
  m_bConnected := false
  m_pkgParser := NetPackageParser.fresh.setCipher cipher
  m_lastSendTime := INT32_MAX
  m_lastRecvTime := INT32_MAX
  m_timeoutInterval := timeout
  m_keepAliveInterval := keepAlive
  isOpen := true
  reads := 0
  keepAliveArmed := false
  timeoutArmed := false
  posted := []
  pooled := true
  received := []
  notified := 0

/-! ## what a step can do -/

/-- the connection when the handler at `i` begins -/
def dequeue (s : NetConnection) (i : Nat) : NetConnection :=
  { s with posted := s.posted.eraseIdx i }

/-- the handler comes to `handleConnectionError` -/
def failing (s : NetConnection) (t : Turn) : Handler → Bool
  | .doClose _ => false
  | .handleConnectionError => true
  | .handleRecvData err _ => err
  | .handleSendData err => err
  | .doSendKeepAlive _ => false
  | .doTimeoutCheck err =>
    !err && decide (toInt32 (t.now - s.m_lastRecvTime) ≥ s.m_timeoutInterval)

/-- the steps, a handler by what it comes to -/
inductive Does (s : NetConnection) : Event → NetConnection → Prop
  | sendDataAsync {data : ByteArray} {len : Int} {c : Choice} {s' : NetConnection} {b : Bool}
    (h : s.sendDataAsync c data len = some (s', b)) : Does s (.sendDataAsync data len c) s'
  | sendDataSync (throws : Bool) : Does s (.sendDataSync throws) (s.sendDataSync throws).1
  | close : Does s .close s.close
  | removeConnection : Does s .removeConnection s.removeConnection
  | readEnds (err : Bool) (data : ByteArray) : Does s (.readEnds err data)
    ({ s with reads := s.reads - 1 }.post (.handleRecvData err data))
  | writeEnds (i : Nat) (err : Bool) : Does s (.writeEnds i err)
    ({ s with queue := { s.queue with writes := s.queue.writes.eraseIdx i } }.post
      (.handleSendData err))
  | keepAliveExpires (h : s.keepAliveArmed = true) : Does s .keepAliveExpires
    { s.post (.doSendKeepAlive false) with keepAliveArmed := false }
  | timeoutExpires (h : s.timeoutArmed = true) : Does s .timeoutExpires
    { s.post (.doTimeoutCheck false) with timeoutArmed := false }
  | doClose {i : Nat} {active : Bool} (t : Turn) (hi : s.posted[i]? = some (.doClose active)) :
    Does s (.run i t) (s.dequeue i).doClose
  | fails {i : Nat} {t : Turn} {h : Handler} (hi : s.posted[i]? = some h)
    (hf : s.failing t h = true) : Does s (.run i t) (s.dequeue i).handleConnectionError
  | receives {i : Nat} {t : Turn} {data : ByteArray}
    {r : NetPackageParser × List NetPackage × Bool}
    (hi : s.posted[i]? = some (.handleRecvData false data))
    (hr : onDataReceived t.order t.wild t.fuel t.throws s.m_pkgParser data data.length = some r) :
    Does s (.run i t) ({ s.dequeue i with
      m_lastRecvTime := t.now, m_pkgParser := r.1, received := s.received ++ r.2.1 }.recvData
        t.readThrows)
  | receivesNothing {i : Nat} (t : Turn) (hi : s.posted[i]? = some (.handleRecvData false [])) :
    Does s (.run i t) ({ s.dequeue i with m_lastRecvTime := t.now }.recvData t.readThrows)
  | sends {i : Nat} {t : Turn} {q : SendQueue} (hi : s.posted[i]? = some (.handleSendData false))
    (hq : s.queue.doSendData t.choice = some q) :
    Does s (.run i t) { s.dequeue i with queue := q, m_lastSendTime := t.now }
  | keepAliveAborted {i : Nat} (t : Turn) (hi : s.posted[i]? = some (.doSendKeepAlive true)) :
    Does s (.run i t) (s.dequeue i)
  | keepsAlive {i : Nat} {t : Turn} {s' : NetConnection}
    (hi : s.posted[i]? = some (.doSendKeepAlive false))
    (h : (s.dequeue i).doSendKeepAlive t false = some s') : Does s (.run i t) s'
  | timeoutAborted {i : Nat} (t : Turn) (hi : s.posted[i]? = some (.doTimeoutCheck true)) :
    Does s (.run i t) (s.dequeue i)
  | inTime {i : Nat} {t : Turn} (hi : s.posted[i]? = some (.doTimeoutCheck false))
    (hf : s.failing t (.doTimeoutCheck false) = false) :
    Does s (.run i t) { (s.dequeue i).cancelTimeout with timeoutArmed := true }

theorem handle_does {s s' : NetConnection} {i : Nat} {t : Turn} {hd : Handler}
    (hi : s.posted[i]? = some hd) (h : (s.dequeue i).handle t hd = some s') :
    Does s (.run i t) s' := by
  cases hd with
  | doClose active =>
    cases h
    exact .doClose t hi
  | handleConnectionError =>
    cases h
    exact .fails hi rfl
  | handleRecvData err data =>
    rw [handle, handleRecvData] at h
    split at h
    · rename_i herr
      cases h
      exact .fails hi herr
    · rename_i herr
      rw [Bool.eq_false_of_not_eq_true herr] at hi
      dsimp only at h
      split at h
      · obtain ⟨r, hr, rfl⟩ := Option.map_eq_some_iff.mp h
        exact .receives hi hr
      · rename_i hd
        cases h
        rw [not_not.mp hd] at hi
        exact .receivesNothing t hi
  | handleSendData err =>
    rw [handle, handleSendData] at h
    split at h
    · rename_i herr
      cases h
      exact .fails hi herr
    · rename_i herr
      rw [Bool.eq_false_of_not_eq_true herr] at hi
      obtain ⟨q, hq, rfl⟩ := Option.map_eq_some_iff.mp h
      exact .sends hi hq
  | doSendKeepAlive err =>
    cases err with
    | true =>
      cases h
      exact .keepAliveAborted t hi
    | false => exact .keepsAlive hi h
  | doTimeoutCheck err =>
    cases err with
    | true =>
      cases h
      exact .timeoutAborted t hi
    | false =>
      cases h
      rw [doTimeoutCheck, if_neg Bool.false_ne_true]
      split
      · rename_i hlate
        exact .fails hi (decide_eq_true hlate)
      · rename_i hsoon
        exact .inTime hi (decide_eq_false hsoon)

/-- **What a step does.** -/
theorem step_does {s s' : NetConnection} {e : Event} (h : s.step e = some s') : Does s e s' := by
  cases e with
  | sendDataAsync data len c =>
    obtain ⟨⟨s1, b⟩, h1, rfl⟩ := Option.map_eq_some_iff.mp h
    exact .sendDataAsync h1
  | sendDataSync throws =>
    cases h
    exact .sendDataSync throws
  | close =>
    cases h
    exact .close
  | removeConnection =>
    cases h
    exact .removeConnection
  | readEnds err data =>
    rw [step] at h
    split at h
    · cases h
      exact .readEnds err data
    · cases h
  | writeEnds i err =>
    rw [step] at h
    split at h
    · cases h
      exact .writeEnds i err
    · cases h
  | keepAliveExpires =>
    rw [step] at h
    split at h
    · rename_i harmed
      cases h
      exact .keepAliveExpires harmed
    · cases h
  | timeoutExpires =>
    rw [step] at h
    split at h
    · rename_i harmed
      cases h
      exact .timeoutExpires harmed
    · cases h
  | run i t =>
    rw [step] at h
    split at h
    · rename_i hd hi
      exact handle_does hi h
    · cases h

/-- what the invariants are about -/
structure Core where
  connected : Bool
  pooled : Bool
  notified : Nat
  queue : SendQueue

def core (s : NetConnection) : Core := ⟨s.m_bConnected, s.pooled, s.notified, s.queue⟩

/-- the data that a step hands to the send queue -/
def attempt (s : NetConnection) : Event → Option (ByteArray × Int)
  | .sendDataAsync data len _ =>
    if s.m_bConnected ∧ data ≠ [] ∧ len > 0 then some (data, len) else none
  | .run i t =>
    if s.m_bConnected ∧ s.posted[i]? = some (.doSendKeepAlive false) ∧ s.keepAliveDue t then
      some (keepAliveBytes t.order, (keepAliveBytes t.order).length)
    else none
  | _ => none

/-- the step runs a queued `doClose` -/
def closes (s : NetConnection) : Event → Bool
  | .run i _ =>
    match s.posted[i]? with
    | some (.doClose _) => true
    | _ => false
  | _ => false

inductive Effect (s : NetConnection) (e : Event) : Core → Prop
  | idle (ws : List Write) :
    Effect s e { s.core with queue := { s.queue with writes := ws } }
  | append {data : ByteArray} {len : Int} {c : Choice} {r : SendQueue × Bool}
    (ha : s.attempt e = some (data, len)) (hq : s.queue.append c data len = some r) :
    Effect s e { s.core with queue := r.1 }
  | send {c : Choice} {q : SendQueue} (hq : s.queue.doSendData c = some q) :
    Effect s e { s.core with queue := q }
  | remove : Effect s e { s.core with pooled := false }
  | close (hc : s.closes e = true) :
    Effect s e { s.core with connected := false, queue := clear s.queue }
  | fail (hc : s.m_bConnected = true) : Effect s e ⟨false, false, s.notified + 1, clear s.queue⟩

theorem Effect.same {s : NetConnection} {e : Event} {k : Core} (h : k = s.core) : Effect s e k :=
  h ▸ Effect.idle s.queue.writes

@[simp] theorem post_core (s : NetConnection) (h : Handler) : (s.post h).core = s.core := rfl

@[simp] theorem cancelKeepAlive_core (s : NetConnection) : s.cancelKeepAlive.core = s.core := by
  unfold cancelKeepAlive
  split <;> rfl

@[simp] theorem cancelTimeout_core (s : NetConnection) : s.cancelTimeout.core = s.core := by
  unfold cancelTimeout
  split <;> rfl

@[simp] theorem recvData_core (s : NetConnection) (b : Bool) : (s.recvData b).core = s.core := by
  unfold recvData
  split <;> rfl

theorem doClose_core (s : NetConnection) :
    s.doClose.core = { s.core with connected := false, queue := clear s.queue } := by
  have h : ({ s with m_bConnected := false, isOpen := false } :
      NetConnection).cancelKeepAlive.cancelTimeout.core = { s.core with connected := false } := by
    rw [cancelTimeout_core, cancelKeepAlive_core]
    rfl
  have hc := congrArg Core.connected h
  have hp := congrArg Core.pooled h
  have hn := congrArg Core.notified h
  have hq := congrArg Core.queue h
  exact congr (congr (congr (congrArg Core.mk hc) hp) hn) (congrArg clear hq)

/-- **The first failure closes, notifies and removes; a later one does nothing.** -/
theorem handleConnectionError_core (s : NetConnection) : s.handleConnectionError.core
    = if s.m_bConnected then ⟨false, false, s.notified + 1, clear s.queue⟩ else s.core := by
  unfold handleConnectionError
  split
  · have h := doClose_core s
    have hc := congrArg Core.connected h
    have hn := congrArg Core.notified h
    have hq := congrArg Core.queue h
    show Core.mk s.doClose.m_bConnected false (s.doClose.notified + 1) s.doClose.queue = _
    exact congr (congr (congr (congrArg Core.mk hc) rfl) (congrArg (· + 1) hn)) hq
  · rfl

theorem error_effect (s s0 : NetConnection) (e : Event) (h : s0.core = s.core) :
    Effect s e s0.handleConnectionError.core := by
  have hc : s0.m_bConnected = s.m_bConnected := congrArg Core.connected h
  have hn : s0.notified = s.notified := congrArg Core.notified h
  have hq : s0.queue = s.queue := congrArg Core.queue h
  rw [handleConnectionError_core]
  split
  · rename_i hcon
    rw [hn, hq]
    exact .fail (hc ▸ hcon)
  · exact .same h

theorem sendDataAsync_core {s s' : NetConnection} {c : Choice} {data : ByteArray} {len : Int}
    {b : Bool} (h : s.sendDataAsync c data len = some (s', b)) :
    s'.core = s.core ∨ s.m_bConnected = true ∧ data ≠ [] ∧ len > 0 ∧
      ∃ r, s.queue.append c data len = some r ∧ s'.core = { s.core with queue := r.1 } := by
  unfold sendDataAsync at h
  split at h
  · rename_i hc
    split at h
    · rename_i hd
      obtain ⟨r, hr, he⟩ := Option.map_eq_some_iff.mp h
      refine .inr ⟨hc, hd.1, hd.2, r, hr, ?_⟩
      split at he <;> cases he <;> rfl
    · cases h
      exact .inl rfl
  · cases h
    exact .inl rfl

theorem sendDataSync_core (s : NetConnection) (throws : Bool) :
    (s.sendDataSync throws).1.core = s.core := by
  unfold sendDataSync
  split
  · split <;> rfl
  · rfl

theorem keepAlive_effect {s s' : NetConnection} {i : Nat} {t : Turn}
    (hi : s.posted[i]? = some (.doSendKeepAlive false))
    (h : (s.dequeue i).doSendKeepAlive t false = some s') : Effect s (.run i t) s'.core := by
  unfold doSendKeepAlive at h
  rw [if_neg Bool.false_ne_true] at h
  obtain ⟨s1, h1, rfl⟩ := Option.map_eq_some_iff.mp h
  have hcore : ({ s1.cancelKeepAlive with keepAliveArmed := true } : NetConnection).core = s1.core :=
    cancelKeepAlive_core s1
  rw [hcore]
  split at h1
  · rename_i hdue
    obtain ⟨⟨s2, b⟩, h2, rfl⟩ := Option.map_eq_some_iff.mp h1
    rcases sendDataAsync_core h2 with hs | ⟨hc, hd, hl, r, hr, hs⟩
    · exact .same hs
    · rw [hs]
      exact .append (if_pos ⟨hc, hi, hdue⟩) hr
  · cases h1
    exact .same rfl

/-- **What one step does to the flags, the pool, the notifications and the queue.** -/
theorem step_effect {s s' : NetConnection} {e : Event} (h : s.step e = some s') :
    Effect s e s'.core := by
  cases step_does h with
  | sendDataAsync h1 =>
    rcases sendDataAsync_core h1 with hs | ⟨hc, hd, hl, r, hr, hs⟩
    · exact .same hs
    · rw [hs]
      exact .append (if_pos ⟨hc, hd, hl⟩) hr
  | sendDataSync throws => exact .same (sendDataSync_core s throws)
  | close => exact .same rfl
  | removeConnection => exact .remove
  | readEnds err data => exact .same rfl
  | writeEnds i err => exact .idle _
  | keepAliveExpires _ => exact .same rfl
  | timeoutExpires _ => exact .same rfl
  | doClose t hi =>
    rw [doClose_core]
    exact .close (by rw [closes, hi])
  | fails hi hf => exact error_effect s _ _ rfl
  | receives hi hr => exact .same (recvData_core _ _)
  | receivesNothing t hi => exact .same (recvData_core _ _)
  | sends hi hq => exact .send hq
  | keepAliveAborted t hi => exact .same rfl
  | keepsAlive hi h1 => exact keepAlive_effect hi h1
  | timeoutAborted t hi => exact .same rfl
  | inTime hi hf => exact .same (cancelTimeout_core _)

end NetConnection

end Netwb
