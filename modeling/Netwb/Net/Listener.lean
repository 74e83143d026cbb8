import Netwb.Lib.Parts
import Netwb.Net.Loops

/-!
# A server that is running

`NetServer` of `net/NetServer.cpp` from its constructor on: the acceptor and its two timers, the
handlers that are queued on `m_acceptorStrand`, and every connection that was accepted, in the order
of `onAccept`.  What a connection does by itself is the step of `NetConnection`.  The connection that
`startAccept` creates is known to nobody before `handleAccept`; it comes into the list there.

`start` and `onListenTimer` may be left by an exception of `from_string`, `open` or `listen`; the
calls of `stop` and the broadcast swallow theirs.

* `connections_are_sessions` every connection is in a state that `NetConnection` reaches alone;
* `accepts_go_on`   a server that has been started goes on accepting, or trying to listen, with as
                    many tokens at most as it had starts;
* `stop_closes`     after `stop` every connection is closed, except for those whose accept was
                    already queued.
-/

namespace Netwb
open Wire Machine

/-- the handlers that are queued on `m_acceptorStrand`; a flag tells whether the error code is set -/
inductive AcceptorHandler where
  | startAccept
  | handleAccept (err : Bool)
  | onAcceptTimer (err : Bool)
  | onListenTimer (err : Bool)
  | doSendDataToClients (data : ByteArray) (len : Int) (async : Bool)
deriving DecidableEq, Repr

/-- what an attempt to listen comes to; `throws` is an exception of `from_string` or `open` -/
inductive Opening where
  | throws
  | bindFails
  | listenFails
  | listens
deriving DecidableEq, Repr

structure Server where
  connections : List NetConnection
  /-- `m_acceptor.is_open()` -/
  isOpen : Bool
  /-- `async_accept`s that have not ended -/
  accepting : Nat
  /-- whether `m_acceptTimer`, `m_linstenTimer` have a wait that has not ended -/
  acceptArmed : Bool
  listenArmed : Bool
  m_bStopped : Bool
  m_bAutoBind : Bool
  posted : List AcceptorHandler

/-- what the environment decides while a handler of the acceptor runs -/
structure AcceptorTurn where
  now : Int
  readThrows : Bool
  opening : Opening
  /-- for the `i`-th connection: the host, and whether `write` throws -/
  choice : Nat → Choice
  throws : Nat → Bool

namespace Server

/-- after the constructor; with `autoBind` it has opened the acceptor, or has swallowed an exception -/
def init (autoBind isOpen : Bool) : Server :=
  ⟨[], autoBind && isOpen, 0, false, false, false, autoBind, []⟩

def post (s : Server) (h : AcceptorHandler) : Server := { s with posted := s.posted ++ [h] }

/-- `m_acceptTimer.cancel` -/
def cancelAccept (s : Server) : Server :=
  if s.acceptArmed then { s.post (.onAcceptTimer true) with acceptArmed := false } else s

/-- `m_linstenTimer.cancel` -/
def cancelListen (s : Server) : Server :=
  if s.listenArmed then { s.post (.onListenTimer true) with listenArmed := false } else s

/-- `expires_from_now`, which cancels the wait that is pending, and `async_wait` -/
def armAccept (s : Server) : Server := { s.cancelAccept with acceptArmed := true }

def armListen (s : Server) : Server := { s.cancelListen with listenArmed := true }

def startAccept (s : Server) : Server := { s with accepting := s.accepting + 1 }

/-- the end of `start`: what it does with the acceptor open or closed.  Started synchronously, it
throws when it cannot listen. -/
def accept (s : Server) (async : Bool) : Server :=
  if s.isOpen then s.post .startAccept
  else if async then s.armListen else s

def start (s : Server) (async : Bool) (opening : Opening) : Server :=
  if s.m_bAutoBind then s.accept async
  else if s.isOpen then s  -- `open` throws
  else
    match opening with
    | .throws => s
    | .bindFails => s.accept async
    | .listenFails => { s with isOpen := true }
    | .listens => { s with isOpen := true }.accept async

/-- `NetManager::removeAllConnections` -/
def removeAllConnections (s : Server) : Server :=
  { s with connections := s.connections.map fun c => if c.pooled then c.removeConnection else c }

def stop (s : Server) : Server :=
  let s := { s.cancelAccept with isOpen := false }
  { s.cancelListen with m_bStopped := true }.removeAllConnections

def onAccept (s : Server) (t : AcceptorTurn) : Server :=
  { s with connections := s.connections ++
    [(NetConnection.accepted none KEEP_ALIVE_INTERVAL TIME_OUT_INTERVAL).start t.now t.readThrows] }

def handleAccept (s : Server) (t : AcceptorTurn) (err : Bool) : Server :=
  if err then (if s.m_bStopped = false ∧ s.isOpen = true then s.armAccept else s)
  else (s.onAccept t).startAccept

def onAcceptTimer (s : Server) (err : Bool) : Server := if err then s else s.startAccept

def onListenTimer (s : Server) (t : AcceptorTurn) (err : Bool) : Server :=
  if err = false ∧ s.m_bStopped = false then
    if s.isOpen then s
    else
      match t.opening with
      | .throws => s
      | .bindFails => s.armListen
      | .listenFails => s.armListen
      | .listens => { s with isOpen := true }.startAccept
  else s

end Server

/-- `NetConnection::sendData` -/
def NetConnection.sendData (s : NetConnection) (c : Choice) (throws : Bool) (data : ByteArray)
    (len : Int) (async : Bool) : Option NetConnection :=
  if async then (s.sendDataAsync c data len).map (·.1) else some (s.sendDataSync throws).1

namespace Server

/-- one of the sends of a broadcast -/
def sendPooled (data : ByteArray) (len : Int) (async : Bool) (c : Choice) (throws : Bool)
    (s : NetConnection) : Option NetConnection :=
  if s.pooled then s.sendData c throws data len async else some s

/-- the loop over `m_connectionPool`, from the `i`-th connection on -/
def sendAll (t : AcceptorTurn) (data : ByteArray) (len : Int) (async : Bool) :
    Nat → List NetConnection → Option (List NetConnection)
  | _, [] => some []
  | i, c :: cs =>
    (sendPooled data len async (t.choice i) (t.throws i) c).bind fun c' =>
      (sendAll t data len async (i + 1) cs).map (c' :: ·)

def doSendDataToClients (s : Server) (t : AcceptorTurn) (data : ByteArray) (len : Int)
    (async : Bool) : Option Server :=
  (sendAll t data len async 0 s.connections).map fun cs => { s with connections := cs }

def handle (s : Server) (t : AcceptorTurn) : AcceptorHandler → Option Server
  | .startAccept => some s.startAccept
  | .handleAccept err => some (s.handleAccept t err)
  | .onAcceptTimer err => some (s.onAcceptTimer err)
  | .onListenTimer err => some (s.onListenTimer t err)
  | .doSendDataToClients data len async => s.doSendDataToClients t data len async

inductive ServerEvent where
  | start (async : Bool) (opening : Opening)
  | stop
  | sendDataToClients (data : ByteArray) (len : Int) (async : Bool)
  | acceptEnds (err : Bool)
  | acceptExpires
  | listenExpires
  | run (i : Nat) (t : AcceptorTurn)
  | connection (i : Nat) (e : NetConnection.Event)

def dequeue (s : Server) (i : Nat) : Server := { s with posted := s.posted.eraseIdx i }

def step (s : Server) : ServerEvent → Option Server
  | .start async opening => some (s.start async opening)
  | .stop => some s.stop
  | .sendDataToClients data len async => some (s.post (.doSendDataToClients data len async))
  | .acceptEnds err =>
    if s.accepting > 0 ∧ (s.isOpen = false → err = true) then
      some ({ s with accepting := s.accepting - 1 }.post (.handleAccept err))
    else none
  | .acceptExpires =>
    if s.acceptArmed then some { s.post (.onAcceptTimer false) with acceptArmed := false } else none
  | .listenExpires =>
    if s.listenArmed then some { s.post (.onListenTimer false) with listenArmed := false } else none
  | .run i t => s.posted[i]?.bind fun h => (s.dequeue i).handle t h
  | .connection i e => s.connections[i]?.bind fun c => (c.step e).map fun c' =>
    { s with connections := s.connections.modify i fun _ => c' }

end Server

/-! ## a handler that is queued -/

namespace NetConnection

theorem post_posted (s : NetConnection) (h : Handler) : s.posted ⊆ (s.post h).posted :=
  List.subset_append_left _ _

theorem cancelKeepAlive_posted (s : NetConnection) : s.posted ⊆ s.cancelKeepAlive.posted := by
  unfold cancelKeepAlive
  split
  · exact post_posted s _
  · exact List.Subset.refl _

theorem cancelTimeout_posted (s : NetConnection) : s.posted ⊆ s.cancelTimeout.posted := by
  unfold cancelTimeout
  split
  · exact post_posted s _
  · exact List.Subset.refl _

theorem doClose_posted (s : NetConnection) : s.posted ⊆ s.doClose.posted :=
  List.Subset.trans (cancelKeepAlive_posted { s with m_bConnected := false, isOpen := false })
    (cancelTimeout_posted _)

theorem handleConnectionError_posted (s : NetConnection) :
    s.posted ⊆ s.handleConnectionError.posted := by
  unfold handleConnectionError
  split
  · exact List.Subset.trans (doClose_posted s) (post_posted s.doClose _)
  · exact List.Subset.refl _

theorem recvData_posted (s : NetConnection) (b : Bool) : s.posted ⊆ (s.recvData b).posted := by
  unfold recvData
  split
  · exact post_posted s _
  · exact List.Subset.refl _

theorem sendDataAsync_posted {s s' : NetConnection} {c : Choice} {data : ByteArray} {len : Int}
    {b : Bool} (h : s.sendDataAsync c data len = some (s', b)) : s.posted ⊆ s'.posted := by
  unfold sendDataAsync at h
  split at h
  · split at h
    · obtain ⟨r, _, he⟩ := Option.map_eq_some_iff.mp h
      split at he
      · cases he
        exact List.Subset.refl _
      · cases he
        exact List.subset_append_left _ _
    · cases h
      exact List.Subset.refl _
  · cases h
    exact List.Subset.refl _

theorem sendDataSync_posted (s : NetConnection) (throws : Bool) :
    s.posted ⊆ (s.sendDataSync throws).1.posted := by
  unfold sendDataSync
  split
  · split
    · exact post_posted s _
    · exact List.Subset.refl _
  · exact List.Subset.refl _

theorem doSendKeepAlive_posted {s s' : NetConnection} {t : Turn} {err : Bool}
    (h : s.doSendKeepAlive t err = some s') : s.posted ⊆ s'.posted := by
  unfold doSendKeepAlive at h
  split at h
  · cases h
    exact List.Subset.refl _
  · obtain ⟨s1, h1, rfl⟩ := Option.map_eq_some_iff.mp h
    refine List.Subset.trans ?_ (cancelKeepAlive_posted s1)
    split at h1
    · obtain ⟨⟨s2, b⟩, h2, rfl⟩ := Option.map_eq_some_iff.mp h1
      exact sendDataAsync_posted h2
    · cases h1
      exact List.Subset.refl _

theorem handle_posted {s s' : NetConnection} {t : Turn} {h : Handler}
    (hs : s.handle t h = some s') : s.posted ⊆ s'.posted := by
  cases h with
  | doClose active =>
    cases hs
    exact doClose_posted s
  | handleConnectionError =>
    cases hs
    exact handleConnectionError_posted s
  | handleRecvData err data =>
    rw [handle, handleRecvData] at hs
    split at hs
    · cases hs
      exact handleConnectionError_posted s
    · dsimp only at hs
      split at hs
      · obtain ⟨r, _, rfl⟩ := Option.map_eq_some_iff.mp hs
        have hr := recvData_posted ({ s with
          m_lastRecvTime := t.now, m_pkgParser := r.1, received := s.received ++ r.2.1 } :
            NetConnection) t.readThrows
        exact hr
      · cases hs
        have hr := recvData_posted { s with m_lastRecvTime := t.now } t.readThrows
        exact hr
  | handleSendData err =>
    rw [handle, handleSendData] at hs
    split at hs
    · cases hs
      exact handleConnectionError_posted s
    · obtain ⟨q, _, rfl⟩ := Option.map_eq_some_iff.mp hs
      exact List.Subset.refl _
  | doSendKeepAlive err => exact doSendKeepAlive_posted hs
  | doTimeoutCheck err =>
    cases hs
    unfold doTimeoutCheck
    split
    · exact List.Subset.refl _
    · split
      · exact handleConnectionError_posted s
      · exact cancelTimeout_posted s

/-- **A handler that is queued stays queued until it runs.** -/
theorem step_posted {s s' : NetConnection} {e : Event} (hs : s.step e = some s') {h : Handler}
    (hm : h ∈ s.posted) :
    h ∈ s'.posted ∨ ∃ i t, e = .run i t ∧ s.posted[i]? = some h := by
  cases e with
  | sendDataAsync data len c =>
    obtain ⟨⟨s1, b⟩, h1, rfl⟩ := Option.map_eq_some_iff.mp hs
    exact .inl (sendDataAsync_posted h1 hm)
  | sendDataSync throws =>
    cases hs
    exact .inl (sendDataSync_posted s throws hm)
  | close =>
    cases hs
    exact .inl (post_posted s _ hm)
  | removeConnection =>
    cases hs
    exact .inl (post_posted s _ hm)
  | readEnds err data =>
    rw [step] at hs
    split at hs
    · cases hs
      exact .inl (List.mem_append_left _ hm)
    · cases hs
  | writeEnds i err =>
    rw [step] at hs
    split at hs
    · cases hs
      exact .inl (List.mem_append_left _ hm)
    · cases hs
  | keepAliveExpires =>
    rw [step] at hs
    split at hs
    · cases hs
      exact .inl (List.mem_append_left _ hm)
    · cases hs
  | timeoutExpires =>
    rw [step] at hs
    split at hs
    · cases hs
      exact .inl (List.mem_append_left _ hm)
    · cases hs
  | run i t =>
    rw [step] at hs
    split at hs
    · rename_i hd hi
      rcases List.mem_cons.mp ((perm_dequeue hi).mem_iff.mpr hm) with rfl | hm'
      · exact .inr ⟨i, t, rfl, hi⟩
      · exact .inl (handle_posted hs hm')
    · cases hs

/-! ## a connection on its way down -/

/-- a `doClose` is queued -/
def closeQueued (s : NetConnection) : Prop := ∃ active, Handler.doClose active ∈ s.posted

/-- in the pool, or closed, or about to be -/
def Covered (s : NetConnection) : Prop :=
  s.m_bConnected = true → s.pooled = true ∨ s.closeQueued

/-- not in the pool, and closed or about to be -/
structure Closing (s : NetConnection) : Prop where
  unpooled : s.pooled = false
  closes : s.m_bConnected = true → s.closeQueued

theorem step_closeQueued {s s' : NetConnection} {e : Event} (hs : s.step e = some s')
    (hup : s'.m_bConnected = true) (hq : s.closeQueued) : s'.closeQueued := by
  obtain ⟨active, hm⟩ := hq
  rcases step_posted hs hm with hm' | ⟨i, t, rfl, hi⟩
  · exact ⟨active, hm'⟩
  · rw [step, hi] at hs
    cases hs
    have hdown := congrArg Core.connected (doClose_core (s.dequeue i))
    have hdown : (s.dequeue i).doClose.m_bConnected = false := hdown
    exact absurd (hdown.symm.trans hup) (by decide)

theorem sendDataAsync_pooled {s s' : NetConnection} {c : Choice} {data : ByteArray} {len : Int}
    {b : Bool} (h : s.sendDataAsync c data len = some (s', b)) : s'.pooled = s.pooled := by
  show s'.core.pooled = s.core.pooled
  rcases sendDataAsync_core h with hs | ⟨_, _, _, r, _, hs⟩
  · rw [hs]
  · rw [hs]

theorem doSendKeepAlive_pooled {s s' : NetConnection} {t : Turn}
    (h : s.doSendKeepAlive t false = some s') : s'.pooled = s.pooled := by
  rw [doSendKeepAlive, if_neg Bool.false_ne_true] at h
  obtain ⟨s1, h1, rfl⟩ := Option.map_eq_some_iff.mp h
  have hp := congrArg Core.pooled (cancelKeepAlive_core s1)
  refine Eq.trans (b := s1.pooled) hp ?_
  split at h1
  · obtain ⟨⟨s2, b⟩, h2, rfl⟩ := Option.map_eq_some_iff.mp h1
    exact sendDataAsync_pooled h2
  · cases h1
    rfl

/-- a connection that is up leaves the pool with a `doClose` queued -/
theorem step_unpooled {s s' : NetConnection} {e : Event} (hs : s.step e = some s')
    (hup : s'.m_bConnected = true) (hp : s.pooled = true) :
    s'.pooled = true ∨ s'.closeQueued := by
  have same : s'.pooled = s.pooled → s'.pooled = true ∨ s'.closeQueued :=
    fun h => .inl (h.trans hp)
  cases step_does hs with
  | sendDataAsync h1 => exact same (sendDataAsync_pooled h1)
  | sendDataSync throws => exact same (congrArg Core.pooled (sendDataSync_core s throws))
  | close => exact same rfl
  | removeConnection => exact .inr ⟨true, List.mem_append_right _ (List.mem_singleton.mpr rfl)⟩
  | readEnds err data => exact same rfl
  | writeEnds i err => exact same rfl
  | keepAliveExpires _ => exact same rfl
  | timeoutExpires _ => exact same rfl
  | @doClose i active t hi =>
    have hdown := congrArg Core.connected (doClose_core (s.dequeue i))
    have hdown : (s.dequeue i).doClose.m_bConnected = false := hdown
    exact absurd (hdown.symm.trans hup) (by decide)
  | @fails i t hd hi hf =>
    have hdown := down_after_error (s.dequeue i)
    exact absurd (hdown.symm.trans hup) (by decide)
  | receives hi hr => exact same (congrArg Core.pooled (recvData_core _ _))
  | receivesNothing t hi => exact same (congrArg Core.pooled (recvData_core _ _))
  | sends hi hq => exact same rfl
  | keepAliveAborted t hi => exact same rfl
  | keepsAlive hi h1 =>
    have hpool := doSendKeepAlive_pooled h1
    exact same hpool
  | timeoutAborted t hi => exact same rfl
  | inTime hi hf => exact same (congrArg Core.pooled (cancelTimeout_core _))

theorem step_covered {s s' : NetConnection} {e : Event} (h : s.Covered)
    (hs : s.step e = some s') : s'.Covered := by
  intro hup
  rcases h (NetClient.connection_step_down hs hup) with hp | hq
  · exact step_unpooled hs hup hp
  · exact .inr (step_closeQueued hs hup hq)

/-- a connection does not come back into the pool -/
theorem step_closing {s s' : NetConnection} {e : Event} (h : s.Closing)
    (hs : s.step e = some s') : s'.Closing := by
  refine ⟨?_, fun hup => ?_⟩
  · have heff := step_effect hs
    generalize hk : s'.core = k at heff
    have hpool : s'.pooled = k.pooled := hk ▸ rfl
    rw [hpool]
    cases heff with
    | idle ws => exact h.unpooled
    | append _ _ => exact h.unpooled
    | send _ => exact h.unpooled
    | remove => rfl
    | close _ => exact h.unpooled
    | fail _ => rfl
  · exact step_closeQueued hs hup (h.closes (NetClient.connection_step_down hs hup))

theorem removeConnection_closing (s : NetConnection) : s.removeConnection.Closing :=
  ⟨rfl, fun _ => ⟨true, List.mem_append_right _ (List.mem_singleton.mpr rfl)⟩⟩

theorem started_covered (now : Int) (b : Bool) :
    (started none KEEP_ALIVE_INTERVAL TIME_OUT_INTERVAL now b).Covered := fun _ =>
  .inl (congrArg Core.pooled (started_core none KEEP_ALIVE_INTERVAL TIME_OUT_INTERVAL now b))

theorem Covered.closing {s : NetConnection} (h : s.Covered) (hp : s.pooled = false) : s.Closing :=
  ⟨hp, fun hup => (h hup).resolve_left fun hc => absurd (hp.symm.trans hc) (by decide)⟩

theorem sendData_reaches {s s' : NetConnection} {c : Choice} {throws async : Bool}
    {data : ByteArray} {len : Int} (h : s.sendData c throws data len async = some s') :
    Reaches step s s' := by
  unfold sendData at h
  split at h
  · exact reaches_step (e := .sendDataAsync data len c) h
  · exact reaches_step (e := .sendDataSync throws) h

end NetConnection

/-! ## the connections of a server -/

namespace Server

/-- a state that a connection reaches that was accepted and started -/
def IsSession (c : NetConnection) : Prop := ∃ now b, Reaches NetConnection.step
  (NetConnection.started none KEEP_ALIVE_INTERVAL TIME_OUT_INTERVAL now b) c

/-- what a step does to the connections: each makes moves of its own, and one may be accepted -/
abbrev Sessions : List NetConnection → List NetConnection → Prop :=
  Grows (Reaches NetConnection.step) IsSession

theorem sessions_refl (cs : List NetConnection) : Sessions cs cs := grows_refl reaches_refl cs

theorem sendAll_sessions {t : AcceptorTurn} {data : ByteArray} {len : Int} {async : Bool} {i : Nat}
    {cs cs' : List NetConnection} (h : sendAll t data len async i cs = some cs') :
    List.Forall₂ (Reaches NetConnection.step) cs cs' := by
  induction cs generalizing i cs' with
  | nil =>
    cases h
    exact .nil
  | cons c cs ih =>
    obtain ⟨c', hc, h⟩ := Option.bind_eq_some_iff.mp h
    obtain ⟨cs1, hcs, rfl⟩ := Option.map_eq_some_iff.mp h
    refine .cons ?_ (ih hcs)
    unfold sendPooled at hc
    split at hc
    · exact NetConnection.sendData_reaches hc
    · cases hc
      exact reaches_refl c

theorem removeAllConnections_sessions (s : Server) :
    Sessions s.connections s.removeAllConnections.connections := by
  refine grows_map _ fun c => ?_
  split
  · exact reaches_step (e := .removeConnection) rfl
  · exact reaches_refl c

/-- only the connections are looked at -/
theorem cancelAccept_connections (s : Server) : s.cancelAccept.connections = s.connections := by
  unfold cancelAccept
  split <;> rfl

theorem cancelListen_connections (s : Server) : s.cancelListen.connections = s.connections := by
  unfold cancelListen
  split <;> rfl

theorem stop_connections (s : Server) :
    s.stop.connections = s.removeAllConnections.connections := by
  have hc : ({ s.cancelAccept with isOpen := false } : Server).cancelListen.connections
      = s.connections := (cancelListen_connections _).trans (cancelAccept_connections s)
  unfold stop removeAllConnections
  dsimp only
  rw [hc]

theorem accept_connections (s : Server) (async : Bool) :
    (s.accept async).connections = s.connections := by
  unfold accept
  split
  · rfl
  · split
    · exact cancelListen_connections s
    · rfl

theorem start_connections (s : Server) (async : Bool) (o : Opening) :
    (s.start async o).connections = s.connections := by
  unfold start
  split
  · exact accept_connections s async
  · split
    · rfl
    · cases o with
      | throws => rfl
      | bindFails => exact accept_connections s async
      | listenFails => rfl
      | listens => exact accept_connections { s with isOpen := true } async

theorem onListenTimer_connections (s : Server) (t : AcceptorTurn) (err : Bool) :
    (s.onListenTimer t err).connections = s.connections := by
  unfold onListenTimer
  split
  · split
    · rfl
    · cases t.opening with
      | throws => rfl
      | bindFails => exact cancelListen_connections s
      | listenFails => exact cancelListen_connections s
      | listens => rfl
  · rfl

/-- **A step lets the connections make their own moves, and accepts one at most.** -/
theorem step_sessions {s s' : Server} {e : ServerEvent} (h : s.step e = some s') :
    Sessions s.connections s'.connections := by
  cases e with
  | start async o =>
    cases h
    rw [start_connections]
    exact sessions_refl _
  | stop =>
    cases h
    rw [stop_connections]
    exact removeAllConnections_sessions s
  | sendDataToClients data len async =>
    cases h
    exact sessions_refl _
  | acceptEnds err =>
    rw [step] at h
    split at h
    · cases h
      exact sessions_refl _
    · cases h
  | acceptExpires =>
    rw [step] at h
    split at h
    · cases h
      exact sessions_refl _
    · cases h
  | listenExpires =>
    rw [step] at h
    split at h
    · cases h
      exact sessions_refl _
    · cases h
  | run i t =>
    obtain ⟨hd, hi, h⟩ := Option.bind_eq_some_iff.mp h
    cases hd with
    | startAccept =>
      cases h
      exact sessions_refl _
    | handleAccept err =>
      cases h
      unfold handleAccept
      split
      · split
        · show Sessions s.connections (s.dequeue i).cancelAccept.connections
          rw [cancelAccept_connections]
          exact sessions_refl _
        · exact sessions_refl _
      · exact grows_push reaches_refl _ ⟨t.now, t.readThrows, reaches_refl _⟩
    | onAcceptTimer err =>
      cases h
      unfold onAcceptTimer
      split <;> exact sessions_refl _
    | onListenTimer err =>
      cases h
      rw [onListenTimer_connections]
      exact sessions_refl _
    | doSendDataToClients data len async =>
      obtain ⟨cs, hcs, rfl⟩ := Option.map_eq_some_iff.mp h
      exact grows_of_forall₂ (sendAll_sessions hcs)
  | connection i e =>
    obtain ⟨c, hc, h⟩ := Option.bind_eq_some_iff.mp h
    obtain ⟨c', hc', rfl⟩ := Option.map_eq_some_iff.mp h
    exact grows_modify reaches_refl hc (reaches_step hc')

theorem run_sessions {s s' : Server} {es : List ServerEvent} (h : run step s es = some s') :
    Sessions s.connections s'.connections := by
  refine run_grows (fun s => s.connections) reaches_refl (fun _ _ _ => Reaches.trans)
    (fun c c' hc hr => ?_) (fun _ _ _ => step_sessions) h
  obtain ⟨now, b, hc⟩ := hc
  exact ⟨now, b, hc.trans hr⟩

end Server

/-! ## the tokens of the acceptor -/

/-- what the acceptor repeats: it accepts, or tries to listen -/
inductive AcceptorLoop where
  | accept
  | listen
deriving DecidableEq, Repr

/-- the loop that a handler goes on with -/
def AcceptorHandler.loop : AcceptorHandler → Option AcceptorLoop
  | .startAccept => some .accept
  | .handleAccept _ => some .accept
  | .onAcceptTimer false => some .accept
  | .onListenTimer false => some .listen
  | _ => none

namespace Server

def pending (s : Server) : AcceptorLoop → Nat
  | .accept => s.accepting + s.acceptArmed.toNat
  | .listen => s.listenArmed.toNat

def turns (s : Server) (l : AcceptorLoop) : Nat :=
  s.pending l + s.posted.countP fun h => h.loop = some l

theorem post_turns (s : Server) (h : AcceptorHandler) (l : AcceptorLoop) :
    (s.post h).turns l = s.turns l + if h.loop = some l then 1 else 0 := by
  unfold turns post
  rw [countP_enqueue, ← Nat.add_assoc]
  cases l <;> simp [pending]

theorem dequeue_turns {s : Server} {i : Nat} {h : AcceptorHandler} (hi : s.posted[i]? = some h)
    (l : AcceptorLoop) :
    (s.dequeue i).turns l + (if h.loop = some l then 1 else 0) = s.turns l := by
  have hc := countP_dequeue (fun h : AcceptorHandler => decide (h.loop = some l)) hi
  simp only [decide_eq_true_eq] at hc
  unfold turns
  rw [← hc, ← Nat.add_assoc]
  rfl

theorem startAccept_turns (s : Server) (l : AcceptorLoop) :
    s.startAccept.turns l = s.turns l + if l = .accept then 1 else 0 := by
  unfold turns startAccept
  cases l
  · simp only [pending, if_true]
    omega
  · simp [pending]

theorem cancelAccept_turns (s : Server) (l : AcceptorLoop) :
    s.cancelAccept.turns l + (if l = .accept then s.acceptArmed.toNat else 0) = s.turns l := by
  unfold cancelAccept
  split
  · rename_i harmed
    have hp := post_turns s (.onAcceptTimer true) l
    unfold turns at hp ⊢
    cases l <;> (simp [pending, post, harmed, AcceptorHandler.loop] at hp ⊢; try omega)
  · rename_i hoff
    rw [Bool.eq_false_iff.mpr hoff]
    simp

theorem cancelListen_turns (s : Server) (l : AcceptorLoop) :
    s.cancelListen.turns l + (if l = .listen then s.listenArmed.toNat else 0) = s.turns l := by
  unfold cancelListen
  split
  · rename_i harmed
    have hp := post_turns s (.onListenTimer true) l
    unfold turns at hp ⊢
    cases l <;> (simp [pending, post, harmed, AcceptorHandler.loop] at hp ⊢; try omega)
  · rename_i hoff
    rw [Bool.eq_false_iff.mpr hoff]
    simp

theorem cancelAccept_off (s : Server) : s.cancelAccept.acceptArmed = false := by
  unfold cancelAccept
  split
  · rfl
  · rename_i hoff
    exact Bool.eq_false_iff.mpr hoff

theorem cancelListen_off (s : Server) : s.cancelListen.listenArmed = false := by
  unfold cancelListen
  split
  · rfl
  · rename_i hoff
    exact Bool.eq_false_iff.mpr hoff

/-- a timer that is armed again is one token all the same -/
theorem armAccept_turns (s : Server) (l : AcceptorLoop) :
    s.armAccept.turns l + (if l = .accept then s.acceptArmed.toNat else 0)
      = s.turns l + if l = .accept then 1 else 0 := by
  have h := cancelAccept_turns s l
  have hoff := cancelAccept_off s
  unfold turns at h ⊢
  cases l
  · simp only [pending, armAccept, if_true, hoff, Bool.toNat_false, Bool.toNat_true] at h ⊢
    omega
  · simpa [pending, armAccept] using h

theorem armListen_turns (s : Server) (l : AcceptorLoop) :
    s.armListen.turns l + (if l = .listen then s.listenArmed.toNat else 0)
      = s.turns l + if l = .listen then 1 else 0 := by
  have h := cancelListen_turns s l
  have hoff := cancelListen_off s
  unfold turns at h ⊢
  cases l
  · simpa [pending, armListen] using h
  · simp only [pending, armListen, if_true, hoff, Bool.toNat_false, Bool.toNat_true] at h ⊢
    omega

/-! ## a step of the acceptor -/

/-- what a step does to the acceptor and its tokens -/
inductive Turned (s : Server) : ServerEvent → Server → Prop
  | idle {e : ServerEvent} {s' : Server} (ho : s'.isOpen = s.isOpen)
    (hs : s'.m_bStopped = s.m_bStopped) (ht : ∀ l, s'.turns l = s.turns l) : Turned s e s'
  | stops {s' : Server} (ho : s'.isOpen = false) (hs : s'.m_bStopped = true)
    (ht : ∀ l, s'.turns l ≤ s.turns l) : Turned s .stop s'
  | accepts {async : Bool} {o : Opening} {s' : Server} (ho : s'.isOpen = true)
    (hs : s'.m_bStopped = s.m_bStopped) (ha : s'.turns .accept = s.turns .accept + 1)
    (hl : s'.turns .listen = s.turns .listen) : Turned s (.start async o) s'
  | fails {async : Bool} {s' : Server} (hb : s.m_bAutoBind = false) (hc : s.isOpen = false)
    (hs : s'.m_bStopped = s.m_bStopped) (ht : ∀ l, s'.turns l = s.turns l) :
    Turned s (.start async .listenFails) s'
  | waits {async : Bool} {o : Opening} {s' : Server} (hc : s.isOpen = false)
    (ho : s'.isOpen = false) (hs : s'.m_bStopped = s.m_bStopped)
    (ha : s'.turns .accept = s.turns .accept) (h1 : 1 ≤ s'.turns .listen)
    (hl : s'.turns .listen ≤ s.turns .listen + 1) : Turned s (.start async o) s'
  | retries {i : Nat} {t : AcceptorTurn} {s' : Server} (ho : s'.isOpen = s.isOpen)
    (hs : s'.m_bStopped = s.m_bStopped) (h1 : 1 ≤ s'.turns .accept)
    (ha : s'.turns .accept ≤ s.turns .accept) (hl : s'.turns .listen = s.turns .listen) :
    Turned s (.run i t) s'
  | givesUp {i : Nat} {t : AcceptorTurn} {s' : Server} (hc : ¬ (s.m_bStopped = false ∧ s.isOpen = true))
    (ho : s'.isOpen = s.isOpen) (hs : s'.m_bStopped = s.m_bStopped)
    (ha : s'.turns .accept + 1 = s.turns .accept) (hl : s'.turns .listen = s.turns .listen) :
    Turned s (.run i t) s'
  | settled {i : Nat} {t : AcceptorTurn} {s' : Server} (hc : s.m_bStopped = true ∨ s.isOpen = true)
    (ho : s'.isOpen = s.isOpen) (hs : s'.m_bStopped = s.m_bStopped)
    (ha : s'.turns .accept = s.turns .accept) (hl : s'.turns .listen + 1 = s.turns .listen) :
    Turned s (.run i t) s'
  | throws {i : Nat} {t : AcceptorTurn} {s' : Server}
    (hi : s.posted[i]? = some (.onListenTimer false)) (hx : t.opening = .throws)
    (ho : s'.isOpen = s.isOpen) (hs : s'.m_bStopped = s.m_bStopped)
    (ha : s'.turns .accept = s.turns .accept) (hl : s'.turns .listen + 1 = s.turns .listen) :
    Turned s (.run i t) s'
  | waitsOn {i : Nat} {t : AcceptorTurn} {s' : Server} (ho : s'.isOpen = s.isOpen)
    (hs : s'.m_bStopped = s.m_bStopped) (ha : s'.turns .accept = s.turns .accept)
    (h1 : 1 ≤ s'.turns .listen) (hl : s'.turns .listen ≤ s.turns .listen) : Turned s (.run i t) s'
  | listens {i : Nat} {t : AcceptorTurn} {s' : Server} (hn : s.m_bStopped = false)
    (ho : s'.isOpen = true) (hs : s'.m_bStopped = s.m_bStopped)
    (ha : s'.turns .accept = s.turns .accept + 1) (hl : s'.turns .listen + 1 = s.turns .listen) :
    Turned s (.run i t) s'

/-- `m_acceptor` and `m_bStopped` -/
def gate (s : Server) : Bool × Bool := (s.isOpen, s.m_bStopped)

theorem cancelAccept_gate (s : Server) : s.cancelAccept.gate = s.gate := by
  unfold cancelAccept
  split <;> rfl

theorem cancelListen_gate (s : Server) : s.cancelListen.gate = s.gate := by
  unfold cancelListen
  split <;> rfl

theorem accept_turned {s s0 : Server} (async : Bool) (o : Opening) (h0 : s0.isOpen = s.isOpen ∨
    s0.isOpen = true) (hs : s0.m_bStopped = s.m_bStopped) (ht : ∀ l, s0.turns l = s.turns l) :
    Turned s (.start async o) (s0.accept async) := by
  unfold accept
  split
  · rename_i hopen
    have hp := post_turns s0 .startAccept
    refine .accepts hopen hs ?_ ?_
    · rw [hp, ht]
      rfl
    · rw [hp, ht]
      rfl
  · rename_i hclosed
    have hc := Bool.eq_false_iff.mpr hclosed
    have hc' : s.isOpen = false := by
      rcases h0 with h0 | h0
      · exact h0 ▸ hc
      · exact absurd h0 hclosed
    split
    · have hg := cancelListen_gate s0
      have ha := armListen_turns s0 .accept
      have hl := armListen_turns s0 .listen
      have hle := Bool.toNat_le s0.listenArmed
      rw [ht] at ha hl
      simp only [reduceCtorEq, if_false, if_true] at ha hl
      refine .waits hc' ((congrArg Prod.fst hg).trans hc) ((congrArg Prod.snd hg).trans hs) ha
        ?_ (by omega)
      show 1 ≤ s0.armListen.pending .listen + _
      exact Nat.le_add_right 1 _
    · exact .idle (hc.trans hc'.symm) hs ht

theorem start_turned (s : Server) (async : Bool) (o : Opening) :
    Turned s (.start async o) (s.start async o) := by
  unfold start
  split
  · exact accept_turned async o (.inl rfl) rfl fun _ => rfl
  · rename_i hb
    split
    · exact .idle rfl rfl fun _ => rfl
    · rename_i hc
      cases o with
      | throws => exact .idle rfl rfl fun _ => rfl
      | bindFails => exact accept_turned async _ (.inl rfl) rfl fun _ => rfl
      | listenFails =>
        exact .fails (Bool.eq_false_iff.mpr hb) (Bool.eq_false_iff.mpr hc) rfl fun l => by
          cases l <;> rfl
      | listens => exact accept_turned async _ (.inr rfl) rfl fun l => by cases l <;> rfl

theorem stop_turned (s : Server) : Turned s .stop s.stop := by
  have h1 := cancelAccept_turns s
  have h2 := cancelListen_turns { s.cancelAccept with isOpen := false }
  have hg := cancelListen_gate { s.cancelAccept with isOpen := false }
  refine .stops (congrArg Prod.fst hg) rfl fun l => ?_
  have e1 : ({ s.cancelAccept with isOpen := false } : Server).turns l = s.cancelAccept.turns l := by
    cases l <;> rfl
  have e2 : s.stop.turns l = ({ s.cancelAccept with isOpen := false } : Server).cancelListen.turns l := by
    cases l <;> rfl
  have h1 := h1 l
  have h2 := h2 l
  omega

section
variable {s : Server} {i : Nat} {t : AcceptorTurn}

theorem handleAccept_turned {err : Bool} (hi : s.posted[i]? = some (.handleAccept err)) :
    Turned s (.run i t) ((s.dequeue i).handleAccept t err) := by
  have ha := dequeue_turns hi .accept
  have hl := dequeue_turns hi .listen
  simp only [AcceptorHandler.loop, Option.some.injEq, reduceCtorEq, if_true, if_false] at ha hl
  unfold handleAccept
  split
  · split
    · -- the accept timer may have been armed by another of the loops
      have ha' := armAccept_turns (s.dequeue i) .accept
      have hl' := armAccept_turns (s.dequeue i) .listen
      have hg := cancelAccept_gate (s.dequeue i)
      simp only [reduceCtorEq, if_true, if_false] at ha' hl'
      refine .retries (congrArg Prod.fst hg) (congrArg Prod.snd hg) ?_ (by omega) (by omega)
      have hone : 1 ≤ (s.dequeue i).armAccept.pending .accept := Nat.le_add_left 1 _
      exact Nat.le_add_right_of_le hone
    · rename_i hc
      exact .givesUp hc rfl rfl ha hl
  · have h1 := startAccept_turns ((s.dequeue i).onAccept t)
    have h2 : ∀ l, ((s.dequeue i).onAccept t).turns l = (s.dequeue i).turns l := fun l => by
      cases l <;> rfl
    refine .idle rfl rfl fun l => ?_
    have h1 := h1 l
    have h2 := h2 l
    cases l
    · simp only [if_true] at h1
      omega
    · simp only [reduceCtorEq, if_false] at h1
      omega

/-- a handler that has used up its token and starts the next accept -/
theorem startAccept_turned {h : AcceptorHandler} (hi : s.posted[i]? = some h)
    (hl : h.loop = some .accept) : Turned s (.run i t) (s.dequeue i).startAccept := by
  refine .idle rfl rfl fun l => ?_
  have h1 := dequeue_turns hi l
  have h2 := startAccept_turns (s.dequeue i) l
  rw [hl] at h1
  cases l
  · simp only [if_true] at h1 h2
    omega
  · simp only [Option.some.injEq, reduceCtorEq, if_false] at h1 h2
    omega

/-- a handler that goes on with nothing -/
theorem dequeue_turned {h : AcceptorHandler} (hi : s.posted[i]? = some h) (hl : h.loop = none) :
    Turned s (.run i t) (s.dequeue i) := by
  refine .idle rfl rfl fun l => ?_
  have h1 := dequeue_turns hi l
  rw [hl] at h1
  simpa using h1

/-- the accept that is started when the listen timer has found a port -/
theorem listening_turns (s : Server) :
    ({ s with isOpen := true } : Server).startAccept.turns .accept = s.turns .accept + 1 ∧
      ({ s with isOpen := true } : Server).startAccept.turns .listen = s.turns .listen := by
  have ha := startAccept_turns { s with isOpen := true } .accept
  have hl := startAccept_turns { s with isOpen := true } .listen
  exact ⟨ha, hl⟩

theorem onListenTimer_turned {err : Bool} (hi : s.posted[i]? = some (.onListenTimer err)) :
    Turned s (.run i t) ((s.dequeue i).onListenTimer t err) := by
  unfold onListenTimer
  split
  · rename_i hgo
    obtain ⟨rfl, hn⟩ := hgo
    have ha := dequeue_turns hi .accept
    have hl := dequeue_turns hi .listen
    simp only [AcceptorHandler.loop, Option.some.injEq, reduceCtorEq, if_true, if_false] at ha hl
    have hwaits : Turned s (.run i t) (s.dequeue i).armListen := by
      have ha' := armListen_turns (s.dequeue i) .accept
      have hl' := armListen_turns (s.dequeue i) .listen
      have hg := cancelListen_gate (s.dequeue i)
      simp only [reduceCtorEq, if_true, if_false] at ha' hl'
      refine .waitsOn (congrArg Prod.fst hg) (congrArg Prod.snd hg) (by omega) ?_ (by omega)
      show 1 ≤ (s.dequeue i).armListen.pending .listen + _
      exact Nat.le_add_right 1 _
    split
    · rename_i hopen
      exact .settled (.inr hopen) rfl rfl ha hl
    · cases ho : t.opening with
      | throws => exact .throws hi ho rfl rfl ha hl
      | bindFails => exact hwaits
      | listenFails => exact hwaits
      | listens =>
        obtain ⟨h1, h2⟩ := listening_turns (s.dequeue i)
        exact .listens hn rfl rfl (h1.trans (congrArg (· + 1) ha)) (by rw [h2]; exact hl)
  · rename_i hno
    cases err with
    | true => exact dequeue_turned hi rfl
    | false =>
      have ha := dequeue_turns hi .accept
      have hl := dequeue_turns hi .listen
      simp only [AcceptorHandler.loop, Option.some.injEq, reduceCtorEq, if_true, if_false] at ha hl
      refine .settled (.inl ?_) rfl rfl ha hl
      cases hst : s.m_bStopped with
      | true => rfl
      | false => exact absurd ⟨rfl, hst⟩ hno

end

theorem run_turned {s s' : Server} {i : Nat} {t : AcceptorTurn} {h : AcceptorHandler}
    (hi : s.posted[i]? = some h) (hs : (s.dequeue i).handle t h = some s') :
    Turned s (.run i t) s' := by
  cases h with
  | startAccept =>
    cases hs
    exact startAccept_turned hi rfl
  | handleAccept err =>
    cases hs
    exact handleAccept_turned hi
  | onAcceptTimer err =>
    cases hs
    cases err with
    | true => exact dequeue_turned hi rfl
    | false => exact startAccept_turned hi rfl
  | onListenTimer err =>
    cases hs
    exact onListenTimer_turned hi
  | doSendDataToClients data len async =>
    obtain ⟨cs, _, rfl⟩ := Option.map_eq_some_iff.mp hs
    refine .idle rfl rfl fun l => ?_
    have h1 := dequeue_turns hi l
    have h2 : ({ s.dequeue i with connections := cs } : Server).turns l = (s.dequeue i).turns l := by
      cases l <;> rfl
    rw [h2]
    simpa [AcceptorHandler.loop] using h1

/-- **What a step does to the acceptor and its tokens.** -/
theorem step_turned {s s' : Server} {e : ServerEvent} (h : s.step e = some s') :
    Turned s e s' := by
  cases e with
  | start async o =>
    cases h
    exact start_turned s async o
  | stop =>
    cases h
    exact stop_turned s
  | sendDataToClients data len async =>
    cases h
    exact .idle rfl rfl fun l => post_turns s (.doSendDataToClients data len async) l
  | acceptEnds err =>
    rw [step] at h
    split at h
    · rename_i ha
      cases h
      refine .idle rfl rfl fun l => ?_
      rw [post_turns]
      unfold turns
      cases l <;> (simp [pending, AcceptorHandler.loop]; try omega)
    · cases h
  | acceptExpires =>
    rw [step] at h
    split at h
    · rename_i harmed
      cases h
      refine .idle rfl rfl fun l => ?_
      have hp := post_turns s (.onAcceptTimer false) l
      unfold turns at hp ⊢
      cases l <;> (simp [pending, harmed, post, AcceptorHandler.loop] at hp ⊢; try omega)
    · cases h
  | listenExpires =>
    rw [step] at h
    split at h
    · rename_i harmed
      cases h
      refine .idle rfl rfl fun l => ?_
      have hp := post_turns s (.onListenTimer false) l
      unfold turns at hp ⊢
      cases l <;> (simp [pending, harmed, post, AcceptorHandler.loop] at hp ⊢; try omega)
    · cases h
  | run i t =>
    obtain ⟨hd, hi, h⟩ := Option.bind_eq_some_iff.mp h
    exact run_turned hi h
  | connection i e =>
    obtain ⟨c, _, h⟩ := Option.bind_eq_some_iff.mp h
    obtain ⟨c', _, rfl⟩ := Option.map_eq_some_iff.mp h
    exact .idle rfl rfl fun l => by cases l <;> rfl

/-! ## accepts go on -/

/-- the tokens of a server -/
def total (s : Server) : Nat := s.turns .accept + s.turns .listen

/-- a call of `start`, which may add a token -/
def ServerEvent.starts : ServerEvent → Bool
  | .start _ _ => true
  | _ => false

theorem step_total {s s' : Server} {e : ServerEvent} (h : s.step e = some s') :
    s'.total ≤ s.total + if ServerEvent.starts e then 1 else 0 := by
  unfold total
  cases step_turned h with
  | idle ho hs ht =>
    rw [ht, ht]
    exact Nat.le_add_right _ _
  | stops ho hs ht =>
    have ha := ht .accept
    have hl := ht .listen
    omega
  | accepts ho hs ha hl => simp only [ServerEvent.starts, if_true]; omega
  | fails hb hc hs ht =>
    rw [ht, ht]
    exact Nat.le_add_right _ _
  | waits hc ho hs ha h1 hl => simp only [ServerEvent.starts, if_true]; omega
  | retries ho hs h1 ha hl => omega
  | givesUp hc ho hs ha hl => omega
  | settled hc ho hs ha hl => omega
  | throws hi hx ho hs ha hl => omega
  | waitsOn ho hs ha h1 hl => omega
  | listens hn ho hs ha hl => omega

/-- a server that has not been stopped and has its token: open, it accepts; closed, it tries to
listen, and no accept is left -/
structure Serving (s : Server) : Prop where
  on : s.m_bStopped = false
  accepts : s.isOpen = true → 1 ≤ s.turns .accept
  listens : s.isOpen = false → 1 ≤ s.turns .listen ∧ s.turns .accept = 0

/-- the step neither stops the server nor is left by an exception with the acceptor half open or the
token used up -/
def Steady (s : Server) : ServerEvent → Prop
  | .stop => False
  | .start _ o => s.m_bAutoBind = false → s.isOpen = false → o ≠ .listenFails
  | .run i t => s.posted[i]? = some (.onListenTimer false) → t.opening ≠ .throws
  | _ => True

instance (s : Server) : ∀ e, Decidable (Steady s e)
  | .start _ _ => inferInstanceAs (Decidable (_ → _ → _))
  | .run _ _ => inferInstanceAs (Decidable (_ → _))
  | .stop => .isFalse id
  | .sendDataToClients .. => .isTrue trivial
  | .acceptEnds _ => .isTrue trivial
  | .acceptExpires => .isTrue trivial
  | .listenExpires => .isTrue trivial
  | .connection .. => .isTrue trivial

theorem step_serving {s s' : Server} {e : ServerEvent} (h : Serving s) (he : Steady s e)
    (hs : s.step e = some s') : Serving s' := by
  cases step_turned hs with
  | idle ho hs ht =>
    refine ⟨hs.trans h.on, fun hop => ?_, fun hcl => ?_⟩
    · rw [ht]
      exact h.accepts (ho ▸ hop)
    · rw [ht, ht]
      exact h.listens (ho ▸ hcl)
  | stops ho hs ht => exact he.elim
  | accepts ho hs ha hl =>
    refine ⟨hs.trans h.on, fun _ => by omega, fun hcl => ?_⟩
    exact absurd (ho.symm.trans hcl) (by decide)
  | fails hb hc hs ht => exact absurd rfl (he hb hc)
  | waits hc ho hs ha h1 hl =>
    refine ⟨hs.trans h.on, fun hop => ?_, fun _ => ⟨h1, ha.trans (h.listens hc).2⟩⟩
    exact absurd (ho.symm.trans hop) (by decide)
  | retries ho hs h1 ha hl =>
    refine ⟨hs.trans h.on, fun _ => h1, fun hcl => ?_⟩
    obtain ⟨hl', ha'⟩ := h.listens (ho ▸ hcl)
    omega
  | givesUp hc ho hs ha hl =>
    refine ⟨hs.trans h.on, fun hop => absurd ⟨h.on, ho ▸ hop⟩ hc, fun hcl => ?_⟩
    have := (h.listens (ho ▸ hcl)).2
    omega
  | settled hc ho hs ha hl =>
    have hop : s.isOpen = true :=
      hc.resolve_left fun hst => absurd (h.on.symm.trans hst) (by decide)
    refine ⟨hs.trans h.on, fun _ => ha ▸ h.accepts hop, fun hcl => ?_⟩
    exact absurd (hop.symm.trans (ho ▸ hcl)) (by decide)
  | throws hi hx ho hs ha hl => exact absurd hx (he hi)
  | waitsOn ho hs ha h1 hl =>
    refine ⟨hs.trans h.on, fun hop => ha ▸ h.accepts (ho ▸ hop), fun hcl => ?_⟩
    exact ⟨h1, ha.trans (h.listens (ho ▸ hcl)).2⟩
  | listens hn ho hs ha hl =>
    refine ⟨hs.trans h.on, fun _ => by omega, fun hcl => ?_⟩
    exact absurd (ho.symm.trans hcl) (by decide)

theorem start_serving {s : Server} {async : Bool} {o : Opening} (h0 : s.m_bStopped = false)
    (ha : ∀ l, s.turns l = 0) (hne : 0 < (s.start async o).total) :
    Serving (s.start async o) := by
  have hturned := start_turned s async o
  generalize s.start async o = s' at hturned hne
  unfold total at hne
  cases hturned with
  | idle ho hs ht =>
    rw [ht, ht, ha, ha] at hne
    omega
  | accepts ho hs ha' hl =>
    refine ⟨hs.trans h0, fun _ => by omega, fun hcl => ?_⟩
    exact absurd (ho.symm.trans hcl) (by decide)
  | fails hb hc hs ht =>
    rw [ht, ht, ha, ha] at hne
    omega
  | waits hc ho hs ha' h1 hl =>
    refine ⟨hs.trans h0, fun hop => ?_, fun _ => ⟨h1, ha'.trans (ha _)⟩⟩
    exact absurd (ho.symm.trans hop) (by decide)

/-- `start` comes back normally -/
def Starts (autoBind isOpen async : Bool) (o : Opening) : Prop :=
  if autoBind then isOpen = true ∨ async = true
  else o = .listens ∨ o = .bindFails ∧ async = true

instance (autoBind isOpen async : Bool) (o : Opening) :
    Decidable (Starts autoBind isOpen async o) := by
  unfold Starts
  infer_instance

theorem starts_total : ∀ {autoBind isOpen async : Bool} {o : Opening},
    Starts autoBind isOpen async o → 0 < ((init autoBind isOpen).start async o).total := by
  intro autoBind isOpen async o h
  cases autoBind <;> cases isOpen <;> cases async <;> cases o <;> first
    | exact absurd h (by decide)
    | decide

/-- accepts, or tries to listen, with this many tokens at most -/
structure Goes (n : Nat) (s : Server) : Prop where
  atMost : s.total ≤ n
  accepts : s.isOpen = true → 1 ≤ s.turns .accept
  listens : s.isOpen = false → 1 ≤ s.turns .listen

/-- **A server goes on accepting.**  Once `start` has come back normally, in every run without a
`stop` and without an exception that uses up a token, the server has a token of its accepts when it
is open and one of its attempts to listen when it is not, and altogether not more of them than it
was started. -/
theorem accepts_go_on (autoBind isOpen async : Bool) (o : Opening) {es : List ServerEvent}
    {s : Server} (hstart : Starts autoBind isOpen async o)
    (he : Along step Steady ((init autoBind isOpen).start async o) es)
    (h : run step ((init autoBind isOpen).start async o) es = some s) :
    Goes (1 + es.countP ServerEvent.starts) s := by
  have hinit : ∀ l, (init autoBind isOpen).turns l = 0 := fun l => by cases l <;> rfl
  have h1 := start_serving (s := init autoBind isOpen) rfl hinit (starts_total hstart)
  have hs := run_inv Serving (fun _ _ _ hI hP hs => step_serving hI hP hs) h1 he h
  have h2 : ((init autoBind isOpen).start async o).total ≤ 1 := by
    have := step_total (s := init autoBind isOpen) (e := .start async o) rfl
    unfold total at this
    rw [hinit, hinit] at this
    exact this
  have h3 := run_adds total ServerEvent.starts (fun _ _ _ => step_total) h
  exact ⟨by omega, hs.accepts, fun hc => (hs.listens hc).1⟩

/-- the port is taken, then free; a client is accepted, and the next accept fails -/
def lateStart : List ServerEvent :=
  [.listenExpires, .run 0 ⟨0, false, .listens, fun _ => SendQueue.still, fun _ => false⟩,
   .acceptEnds false, .run 0 ⟨0, false, .throws, fun _ => SendQueue.still, fun _ => false⟩,
   .acceptEnds true, .run 0 ⟨0, false, .throws, fun _ => SendQueue.still, fun _ => false⟩]

theorem accepts_go_on_late : ∃ s,
    run step ((init false false).start true .bindFails) lateStart = some s ∧ Goes 1 s := by
  have hrun : (run step ((init false false).start true .bindFails) lateStart).isSome = true := by
    decide +kernel
  obtain ⟨s, h⟩ := Option.isSome_iff_exists.mp hrun
  exact ⟨s, h, accepts_go_on false false true .bindFails (by decide) (by decide +kernel) h⟩

/-! ## stop -/

/-- the accepts that have ended well and whose `handleAccept` is queued -/
def queuedAccepts (s : Server) : Nat := s.posted.countP fun h => h = .handleAccept false

theorem post_queuedAccepts (s : Server) (h : AcceptorHandler) :
    (s.post h).queuedAccepts = s.queuedAccepts + if h = .handleAccept false then 1 else 0 := by
  unfold queuedAccepts post
  rw [countP_enqueue]
  simp

theorem dequeue_queuedAccepts {s : Server} {i : Nat} {h : AcceptorHandler}
    (hi : s.posted[i]? = some h) :
    (s.dequeue i).queuedAccepts + (if h = .handleAccept false then 1 else 0) = s.queuedAccepts := by
  have hc := countP_dequeue (fun h : AcceptorHandler => decide (h = .handleAccept false)) hi
  simp only [decide_eq_true_eq] at hc
  exact hc

/-- the connections there are, and those that are still to come from accepts that have ended -/
def accepted (s : Server) : Nat := s.connections.length + s.queuedAccepts

theorem post_accepted (s : Server) {h : AcceptorHandler} (hne : h ≠ .handleAccept false) :
    (s.post h).accepted = s.accepted := by
  unfold accepted
  rw [post_queuedAccepts, if_neg hne]
  rfl

theorem cancelAccept_accepted (s : Server) : s.cancelAccept.accepted = s.accepted := by
  unfold cancelAccept
  split
  · exact post_accepted s (h := .onAcceptTimer true) (by decide)
  · rfl

theorem cancelListen_accepted (s : Server) : s.cancelListen.accepted = s.accepted := by
  unfold cancelListen
  split
  · exact post_accepted s (h := .onListenTimer true) (by decide)
  · rfl

theorem stop_accepted (s : Server) : s.stop.accepted = s.accepted := by
  have h : s.stop.accepted
      = ({ s.cancelAccept with isOpen := false } : Server).cancelListen.accepted := by
    unfold stop removeAllConnections accepted
    dsimp only
    rw [List.length_map]
    rfl
  rw [h, cancelListen_accepted]
  exact cancelAccept_accepted s

theorem sendAll_length {t : AcceptorTurn} {data : ByteArray} {len : Int} {async : Bool} {i : Nat}
    {cs cs' : List NetConnection} (h : sendAll t data len async i cs = some cs') :
    cs'.length = cs.length := (sendAll_sessions h).length_eq.symm

theorem run_accepted {s s' : Server} {i : Nat} {t : AcceptorTurn} {h : AcceptorHandler}
    (hi : s.posted[i]? = some h) (hs : (s.dequeue i).handle t h = some s') :
    s'.accepted ≤ s.accepted := by
  have hq := dequeue_queuedAccepts hi
  have hle : (s.dequeue i).accepted ≤ s.accepted :=
    Nat.add_le_add_left (Nat.le.intro hq) s.connections.length
  cases h with
  | startAccept =>
    cases hs
    exact hle
  | handleAccept err =>
    cases hs
    unfold handleAccept
    cases err with
    | true =>
      rw [if_pos rfl]
      split
      · exact Nat.le_trans (Nat.le_of_eq (cancelAccept_accepted (s.dequeue i))) hle
      · exact hle
    | false =>
      -- a queued accept has become a connection
      have hone : ((s.dequeue i).onAccept t).startAccept.accepted
          = s.connections.length + 1 + (s.dequeue i).queuedAccepts := by
        show (s.connections ++ [_]).length + _ = _
        rw [List.length_append]
        rfl
      rw [if_neg Bool.false_ne_true, hone]
      rw [if_pos rfl] at hq
      unfold accepted
      omega
  | onAcceptTimer err =>
    cases hs
    unfold onAcceptTimer
    split <;> exact hle
  | onListenTimer err =>
    cases hs
    have hwaits : (s.dequeue i).armListen.accepted ≤ s.accepted :=
      Nat.le_trans (Nat.le_of_eq (cancelListen_accepted (s.dequeue i))) hle
    unfold onListenTimer
    split
    · split
      · exact hle
      · cases t.opening with
        | throws => exact hle
        | bindFails => exact hwaits
        | listenFails => exact hwaits
        | listens => exact hle
    · exact hle
  | doSendDataToClients data len async =>
    obtain ⟨cs, hcs, rfl⟩ := Option.map_eq_some_iff.mp hs
    have hlen := sendAll_length hcs
    show cs.length + _ ≤ _
    rw [hlen]
    exact hle

/-- a server that was stopped, and not started since -/
structure Stopped (n : Nat) (s : Server) : Prop where
  closed : s.isOpen = false
  stopped : s.m_bStopped = true
  accepted : s.accepted ≤ n

theorem step_stopped {n : Nat} {s s' : Server} {e : ServerEvent} (h : Stopped n s)
    (he : ServerEvent.starts e = false) (hs : s.step e = some s') : Stopped n s' := by
  have hgate : s'.isOpen = false ∧ s'.m_bStopped = true := by
    cases step_turned hs with
    | idle ho hst _ => exact ⟨ho.trans h.closed, hst.trans h.stopped⟩
    | stops ho hst _ => exact ⟨ho, hst⟩
    | accepts _ _ _ _ => cases he
    | fails _ _ _ _ => cases he
    | waits _ _ _ _ _ _ => cases he
    | retries ho hst _ _ _ => exact ⟨ho.trans h.closed, hst.trans h.stopped⟩
    | givesUp _ ho hst _ _ => exact ⟨ho.trans h.closed, hst.trans h.stopped⟩
    | settled _ ho hst _ _ => exact ⟨ho.trans h.closed, hst.trans h.stopped⟩
    | throws _ _ ho hst _ _ => exact ⟨ho.trans h.closed, hst.trans h.stopped⟩
    | waitsOn ho hst _ _ _ => exact ⟨ho.trans h.closed, hst.trans h.stopped⟩
    | listens hn _ _ _ _ => exact absurd (hn.symm.trans h.stopped) (by decide)
  refine ⟨hgate.1, hgate.2, Nat.le_trans ?_ h.accepted⟩
  cases e with
  | start async o => cases he
  | stop =>
    cases hs
    exact Nat.le_of_eq (stop_accepted s)
  | sendDataToClients data len async =>
    cases hs
    exact Nat.le_of_eq (post_accepted s (h := .doSendDataToClients data len async)
      AcceptorHandler.noConfusion)
  | acceptEnds err =>
    rw [step] at hs
    split at hs
    · rename_i ha
      cases hs
      have herr := ha.2 h.closed
      subst herr
      exact Nat.le_of_eq (post_accepted { s with accepting := s.accepting - 1 }
        (h := .handleAccept true) (by decide))
    · cases hs
  | acceptExpires =>
    rw [step] at hs
    split at hs
    · cases hs
      exact Nat.le_of_eq (post_accepted s (h := .onAcceptTimer false) (by decide))
    · cases hs
  | listenExpires =>
    rw [step] at hs
    split at hs
    · cases hs
      exact Nat.le_of_eq (post_accepted s (h := .onListenTimer false) (by decide))
    · cases hs
  | run i t =>
    obtain ⟨hd, hi, hs⟩ := Option.bind_eq_some_iff.mp hs
    exact run_accepted hi hs
  | connection i e =>
    obtain ⟨c, _, hs⟩ := Option.bind_eq_some_iff.mp hs
    obtain ⟨c', _, rfl⟩ := Option.map_eq_some_iff.mp hs
    show (s.connections.modify i fun _ => c').length + _ ≤ _
    rw [List.length_modify]
    exact Nat.le_refl _

/-- what every connection of a server has: it is in a state that `NetConnection` reaches by itself,
it has reported a failure once at most, each of its loops has one token at most, and when it is up
it is in the pool or about to be closed -/
structure Session (c : NetConnection) : Prop where
  reached : IsSession c
  once : c.notified ≤ 1
  one : ∀ l, c.turns l ≤ 1
  covered : c.Covered

theorem IsSession.session {c : NetConnection} (h : IsSession c) : Session c := by
  have hr := h
  obtain ⟨now, b, es, hes⟩ := hr
  have hn := congrArg NetConnection.Core.notified
    (NetConnection.started_core none KEEP_ALIVE_INTERVAL TIME_OUT_INTERVAL now b)
  have hnoticed := run_keeps NetConnection.Noticed (fun _ _ _ => NetConnection.step_noticed)
    (.inl hn) hes
  refine ⟨h, ?_, NetConnection.run_turns none _ _ _ _ hes,
    run_keeps NetConnection.Covered (fun _ _ _ => NetConnection.step_covered)
      (NetConnection.started_covered now b) hes⟩
  rcases hnoticed with h0 | h1
  · omega
  · have := h1.1
    omega

/-- **Every connection of a server is a session of its own**, whatever the server and the other
connections do. -/
theorem connections_are_sessions (autoBind isOpen : Bool) {es : List ServerEvent} {s : Server}
    (h : run step (init autoBind isOpen) es = some s) : ∀ c ∈ s.connections, Session c := by
  refine (run_sessions h).keeps (fun c c' hc hr => ?_) (fun c hc => hc.session) ?_
  · obtain ⟨now, b, hc⟩ := hc.reached
    exact IsSession.session ⟨now, b, hc.trans hr⟩
  · intro c hc
    cases hc

/-- a client is accepted, data is sent to it as to all, and it is removed -/
theorem connections_are_sessions_broadcast : ∃ s, run step (init false false)
      [.start true .listens, .run 0 ⟨0, false, .throws, fun _ => SendQueue.still, fun _ => false⟩,
       .acceptEnds false, .run 0 ⟨0, false, .throws, fun _ => SendQueue.still, fun _ => false⟩,
       .sendDataToClients [1] 1 true,
       .run 0 ⟨0, false, .throws, fun _ => SendQueue.still, fun _ => false⟩,
       .connection 0 .removeConnection] = some s ∧
    s.connections.length = 1 ∧ ∀ c ∈ s.connections, Session c := by
  have hrun : (run step (init false false)
      [.start true .listens, .run 0 ⟨0, false, .throws, fun _ => SendQueue.still, fun _ => false⟩,
       .acceptEnds false, .run 0 ⟨0, false, .throws, fun _ => SendQueue.still, fun _ => false⟩,
       .sendDataToClients [1] 1 true,
       .run 0 ⟨0, false, .throws, fun _ => SendQueue.still, fun _ => false⟩,
       .connection 0 .removeConnection]).any (fun s => decide (s.connections.length = 1)) = true := by
    decide +kernel
  obtain ⟨s, h, hs⟩ := Option.any_eq_true _ _ |>.mp hrun
  exact ⟨s, h, of_decide_eq_true hs, connections_are_sessions false false h⟩

/-- of the connections after a `stop`: those there were are out of the pool and closed or about to
be, and no others come than those whose accept had ended -/
structure StopsAll (m s : Server) : Prop where
  closing : ∀ i c, i < m.connections.length → s.connections[i]? = some c → c.Closing
  late : s.connections.length ≤ m.connections.length + m.queuedAccepts

theorem removeAllConnections_closing {s : Server} (h : ∀ c ∈ s.connections, c.Covered) :
    ∀ c ∈ s.removeAllConnections.connections, c.Closing := by
  intro c' hc'
  obtain ⟨c, hc, rfl⟩ := List.mem_map.mp hc'
  split
  · exact c.removeConnection_closing
  · rename_i hp
    exact (h c hc).closing (Bool.eq_false_iff.mpr hp)

theorem stop_removes {s : Server} (h : ∀ c ∈ s.connections, c.Covered) :
    ∀ c ∈ s.stop.connections, c.Closing := by
  rw [stop_connections]
  exact removeAllConnections_closing h

theorem queuedAccepts_le (s : Server) : s.queuedAccepts ≤ s.total := by
  have hc : s.queuedAccepts ≤ s.posted.countP fun h => h.loop = some .accept := by
    refine List.countP_mono_left fun hd _ he => ?_
    rw [of_decide_eq_true he]
    rfl
  refine Nat.le_trans hc ?_
  unfold total turns
  omega

/-- **`stop` closes every connection.**  After a `stop`, and as long as the server is not started
again, every connection that there was is out of the pool for good, and closed or about to be.  The
connections that may come after it are those whose accept had ended and was queued, one for each
start at most. -/
theorem stop_closes (autoBind isOpen : Bool) {es fs : List ServerEvent} {s : Server}
    (h : run step (init autoBind isOpen) (es ++ .stop :: fs) = some s)
    (hfs : ∀ e ∈ fs, ServerEvent.starts e = false) :
    ∃ m, run step (init autoBind isOpen) es = some m ∧ StopsAll m s ∧
      m.queuedAccepts ≤ es.countP ServerEvent.starts := by
  obtain ⟨m, h1, h⟩ := run_append h
  obtain ⟨m', hm, h2⟩ := run_cons h
  cases hm
  have hcovered : ∀ c ∈ m.connections, c.Covered := by
    refine (run_sessions h1).keeps (fun c c' hc hr => ?_) (fun c hc => hc.session.covered) ?_
    · obtain ⟨gs, hg⟩ := hr
      exact run_keeps NetConnection.Covered (fun _ _ _ => NetConnection.step_covered) hc hg
    · intro c hc
      cases hc
  have hlen : m.stop.connections.length = m.connections.length := by
    rw [stop_connections]
    exact List.length_map _
  have hstop := step_turned (s := m) (e := .stop) rfl
  have hstopped : Stopped m.accepted s := by
    have hstarts : Along step (fun _ e => ServerEvent.starts e = false) m.stop fs :=
      along_events m.stop hfs
    refine run_inv (Stopped m.accepted) (fun _ _ _ hI he hs => step_stopped hI he hs) ?_
      hstarts h2
    cases hstop with
    | idle ho hst _ =>
      refine ⟨?_, rfl, Nat.le_of_eq (stop_accepted m)⟩
      exact congrArg Prod.fst (cancelListen_gate { m.cancelAccept with isOpen := false })
    | stops ho hst _ => exact ⟨ho, hst, Nat.le_of_eq (stop_accepted m)⟩
  have htotal := run_adds total ServerEvent.starts (fun _ _ _ => step_total) h1
  have h0 : (init autoBind isOpen).total = 0 := rfl
  refine ⟨m, h1, ⟨fun i c hi hc => ?_, ?_⟩, ?_⟩
  · have hi' : i < m.stop.connections.length := hlen ▸ hi
    have hc0 := stop_removes hcovered _ (List.getElem_mem hi')
    obtain ⟨gs, hg⟩ := (run_sessions h2).at (List.getElem?_eq_getElem hi') hc
    exact run_keeps NetConnection.Closing (fun _ _ _ => NetConnection.step_closing) hc0 hg
  · exact Nat.le_trans (Nat.le_add_right _ _) hstopped.accepted
  · have := queuedAccepts_le m
    omega

/-- a client is accepted before the server is stopped, another one while it is -/
def lateAccept : List ServerEvent :=
  [.start true .listens, .run 0 ⟨0, false, .throws, fun _ => SendQueue.still, fun _ => false⟩,
   .acceptEnds false, .run 0 ⟨0, false, .throws, fun _ => SendQueue.still, fun _ => false⟩,
   .acceptEnds false]

theorem stop_closes_late : ∃ s, run step (init false false) (lateAccept ++ .stop ::
      [.run 0 ⟨0, false, .throws, fun _ => SendQueue.still, fun _ => false⟩]) = some s ∧
    ∃ m, run step (init false false) lateAccept = some m ∧ StopsAll m s ∧
      m.queuedAccepts ≤ lateAccept.countP ServerEvent.starts := by
  have hrun : (run step (init false false) (lateAccept ++ .stop ::
      [.run 0 ⟨0, false, .throws, fun _ => SendQueue.still, fun _ => false⟩])).isSome = true := by
    decide +kernel
  obtain ⟨s, h⟩ := Option.isSome_iff_exists.mp hrun
  refine ⟨s, h, stop_closes false false h fun e he => ?_⟩
  rw [List.mem_singleton] at he
  rw [he]
  rfl

end Server

end Netwb
