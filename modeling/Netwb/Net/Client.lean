import Netwb.Net.Session

/-!
# A client and its connections

`NetClient` of `net/NetClient.cpp`: every connection that it has created, numbered in the order of
their creation, the number of the one in `m_connection`, the connects in progress, the handlers
that are posted to the service, and the reconnect timer.  What a connection does by itself is the
step of `NetConnection`; when it reports an error the client arms the reconnect timer.

`startConnectAsync` looks only at whether the connection in `m_connection` is connected.  While a
connect is in progress it is not, so that a second start overwrites it, and both may succeed.

* `step_current`   a step that starts no connect beside another keeps all that is connected or being
                   connected in `m_connection`;
* `one_session`    in every run of such steps there is one session, and `m_connection` has it.
-/

namespace Netwb
open Wire

/-- the handlers that are posted to the service; the flag tells whether the error code is set -/
inductive ClientHandler where
  | startConnectAsync
  | onConnectionError
  | removeAllConnections
  | onReconnectTimer (err : Bool)
deriving DecidableEq, Repr

structure NetClient where
  connections : List NetConnection
  m_connection : Option Nat
  /-- `async_connect`s whose `handleConnect` has not run -/
  connecting : List Nat
  posted : List ClientHandler
  /-- whether `m_reconnectTimer` has a wait that has not ended -/
  reconnectArmed : Bool

namespace NetClient

/-- a client without a connection -/
def init : NetClient := ⟨[], none, [], [], false⟩

def post (s : NetClient) (h : ClientHandler) : NetClient := { s with posted := s.posted ++ [h] }

def update (s : NetClient) (i : Nat) (f : NetConnection → NetConnection) : NetClient :=
  { s with connections := s.connections.modify i f }

/-- whether the connection of this number is connected -/
def connectedAt (s : NetClient) (i : Nat) : Bool :=
  match s.connections[i]? with
  | some c => c.m_bConnected
  | none => false

def isConnected (s : NetClient) : Bool :=
  match s.m_connection with
  | some i => s.connectedAt i
  | none => false

/-- `start(true)` -/
def start (s : NetClient) : NetClient := s.post .startConnectAsync

/-- the end of a wait that is cancelled -/
def cancelReconnect (s : NetClient) : NetClient :=
  if s.reconnectArmed then { s.post (.onReconnectTimer true) with reconnectArmed := false } else s

def stop (s : NetClient) : NetClient := s.cancelReconnect.post .removeAllConnections

/-- `expires_from_now` cancels the wait that is pending -/
def reconnect (s : NetClient) : NetClient := { s.cancelReconnect with reconnectArmed := true }

def onConnectionError (s : NetClient) : NetClient := s.reconnect

def createConnection : NetConnection :=
  { NetConnection.accepted none KEEP_ALIVE_INTERVAL TIME_OUT_INTERVAL with pooled := false }

/-- `startConnectAsync`; `throws` tells whether `async_connect` does -/
def startConnectAsync (s : NetClient) (throws : Bool) : NetClient :=
  if s.isConnected then s
  else
    let i := s.connections.length
    let s := { s with connections := s.connections ++ [createConnection], m_connection := some i }
    if throws then s.post .onConnectionError else { s with connecting := s.connecting ++ [i] }

/-- `handleConnect(err, connection)`; `same` tells whether the two end points of the socket are the
same.  Then the connection is closed, and started all the same. -/
def handleConnect (s : NetClient) (i : Nat) (err same : Bool) (now : Int) (readThrows : Bool) :
    NetClient :=
  if err then s.onConnectionError
  else
    let s := if same then (s.update i NetConnection.close).onConnectionError else s
    s.update i fun c => { c with pooled := true }.start now readThrows

def removeAllConnections (s : NetClient) : NetClient :=
  { s with connections := s.connections.map fun c => if c.pooled then c.removeConnection else c }

def onReconnectTimer (s : NetClient) (err throws : Bool) : NetClient :=
  if err then s else s.startConnectAsync throws

def handle (s : NetClient) (throws : Bool) : ClientHandler → NetClient
  | .startConnectAsync => s.startConnectAsync throws
  | .onConnectionError => s.onConnectionError
  | .removeAllConnections => s.removeAllConnections
  | .onReconnectTimer err => s.onReconnectTimer err throws

inductive ClientEvent where
  | start
  | stop
  | reconnectExpires
  | run (i : Nat) (throws : Bool)
  /-- the `k`-th of the connects in progress ends -/
  | connectEnds (k : Nat) (err same : Bool) (now : Int) (readThrows : Bool)
  | connection (i : Nat) (e : NetConnection.Event)

def step (s : NetClient) : ClientEvent → Option NetClient
  | .start => some s.start
  | .stop => some s.stop
  | .reconnectExpires =>
    if s.reconnectArmed then
      some { s.post (.onReconnectTimer false) with reconnectArmed := false }
    else none
  | .run i throws => s.posted[i]?.map fun h =>
    { s with posted := s.posted.eraseIdx i }.handle throws h
  | .connectEnds k err same now readThrows => s.connecting[k]?.map fun i =>
    { s with connecting := s.connecting.eraseIdx k }.handleConnect i err same now readThrows
  | .connection i e => s.connections[i]?.bind fun c => (c.step e).map fun c' =>
    let s := s.update i fun _ => c'
    if c'.notified > c.notified then s.onConnectionError else s

/-! ## what is connected -/

/-- what is connected or being connected is in `m_connection` -/
structure Current (s : NetClient) : Prop where
  connected : ∀ i, s.connectedAt i = true → s.m_connection = some i
  connecting : ∀ i ∈ s.connecting, s.m_connection = some i

theorem current_init : Current init := ⟨fun _ h => Bool.noConfusion h, fun _ h => nomatch h⟩

/-- only the connections, `m_connection` and the connects in progress are looked at -/
theorem Current.same {s s' : NetClient} (h : Current s) (hc : s'.connections = s.connections)
    (hm : s'.m_connection = s.m_connection) (hp : ∀ i ∈ s'.connecting, i ∈ s.connecting) :
    Current s' := by
  refine ⟨fun i hi => ?_, fun i hi => ?_⟩
  · rw [hm]
    apply h.connected i
    unfold connectedAt at hi ⊢
    rwa [hc] at hi
  · rw [hm]
    exact h.connecting i (hp i hi)

theorem cancelReconnect_fields (s : NetClient) : s.cancelReconnect.connections = s.connections ∧
    s.cancelReconnect.m_connection = s.m_connection ∧
    s.cancelReconnect.connecting = s.connecting := by
  unfold cancelReconnect
  split
  · exact ⟨rfl, rfl, rfl⟩
  · exact ⟨rfl, rfl, rfl⟩

theorem Current.onConnectionError {s : NetClient} (h : Current s) :
    Current s.onConnectionError := by
  obtain ⟨h1, h2, h3⟩ := cancelReconnect_fields s
  exact h.same h1 h2 fun i hi => h3 ▸ hi

/-- the connection at a number after one of them has changed -/
theorem connectedAt_update (s : NetClient) (i j : Nat) (f : NetConnection → NetConnection) :
    (s.update i f).connectedAt j = match s.connections[j]? with
      | some c => if i = j then (f c).m_bConnected else c.m_bConnected
      | none => false := by
  unfold connectedAt update
  dsimp only
  rw [List.getElem?_modify]
  cases s.connections[j]? with
  | none => rfl
  | some c =>
    show (if i = j then f c else c).m_bConnected = _
    dsimp only
    split
    · rfl
    · rfl

/-- a change that connects nothing -/
theorem Current.update {s : NetClient} (h : Current s) (i : Nat) {f : NetConnection → NetConnection}
    (hf : ∀ c, s.connections[i]? = some c → (f c).m_bConnected = true → c.m_bConnected = true) :
    Current (s.update i f) := by
  refine ⟨fun j hj => ?_, h.connecting⟩
  apply h.connected j
  rw [connectedAt_update] at hj
  unfold connectedAt
  cases hc : s.connections[j]? with
  | none =>
    rw [hc] at hj
    cases hj
  | some c =>
    rw [hc] at hj
    dsimp only at hj ⊢
    split at hj
    · rename_i e
      exact hf c (e ▸ hc) hj
    · exact hj

/-- a change of the connection in `m_connection` -/
theorem Current.update_current {s : NetClient} (h : Current s) {i : Nat}
    (hi : s.m_connection = some i) (f : NetConnection → NetConnection) :
    Current (s.update i f) := by
  refine ⟨fun j hj => ?_, h.connecting⟩
  rw [connectedAt_update] at hj
  by_cases e : i = j
  · exact e ▸ hi
  · apply h.connected j
    unfold connectedAt
    cases hc : s.connections[j]? with
    | none =>
      rw [hc] at hj
      cases hj
    | some c =>
      rw [hc] at hj
      dsimp only at hj ⊢
      rwa [if_neg e] at hj

/-! ## a step -/

/-- no connect is in progress when `startConnectAsync` gets past its test -/
def Alone (s : NetClient) : ClientEvent → Prop
  | .run i _ => s.posted[i]? = some .startConnectAsync ∨
      s.posted[i]? = some (.onReconnectTimer false) → s.isConnected = false → s.connecting = []
  | _ => True

instance (s : NetClient) : ∀ e, Decidable (Alone s e)
  | .run _ _ => inferInstanceAs (Decidable (_ ∨ _ → _ → _))
  | .start => .isTrue trivial
  | .stop => .isTrue trivial
  | .reconnectExpires => .isTrue trivial
  | .connectEnds .. => .isTrue trivial
  | .connection .. => .isTrue trivial

/-- a connection does not become connected by itself -/
theorem connection_step_down {c c' : NetConnection} {e : NetConnection.Event}
    (h : c.step e = some c') (hup : c'.m_bConnected = true) : c.m_bConnected = true := by
  have hcore := NetConnection.step_effect h
  generalize hk : c'.core = k at hcore
  have hup : k.connected = true := hk ▸ hup
  cases hcore with
  | idle ws => exact hup
  | append _ _ => exact hup
  | send _ => exact hup
  | remove => exact hup
  | close _ => cases hup
  | fail hc => exact hc

theorem connectedAt_created (s : NetClient) (m : Option Nat) (i : Nat) :
    ({ s with connections := s.connections ++ [createConnection], m_connection := m } :
      NetClient).connectedAt i = s.connectedAt i := by
  by_cases hi : i < s.connections.length
  · unfold connectedAt
    dsimp only
    rw [List.getElem?_append_left hi]
  · have hnone : s.connectedAt i = false := by
      unfold connectedAt
      rw [List.getElem?_eq_none (by omega)]
    rw [hnone]
    unfold connectedAt
    dsimp only
    rw [List.getElem?_append_right (by omega)]
    cases i - s.connections.length with
    | zero => rfl
    | succ n => rfl

theorem Current.none_connected {s : NetClient} (h : Current s) (hdown : s.isConnected = false)
    (i : Nat) : s.connectedAt i = false := by
  cases hup : s.connectedAt i with
  | true =>
    rw [isConnected, h.connected i hup] at hdown
    exact absurd (hdown.symm.trans hup) Bool.false_ne_true
  | false => rfl

theorem Current.startConnectAsync {s : NetClient} (h : Current s) (throws : Bool)
    (ha : s.isConnected = false → s.connecting = []) : Current (s.startConnectAsync throws) := by
  unfold NetClient.startConnectAsync
  split
  · exact h
  · rename_i hup
    have hdown := Bool.eq_false_iff.mpr hup
    have hidle := ha hdown
    have hnone := h.none_connected hdown
    dsimp only
    split
    · refine ⟨fun i hi => ?_, fun i hi => ?_⟩
      · have hi := (connectedAt_created s (some s.connections.length) i).symm.trans hi
        exact absurd ((hnone i).symm.trans hi) Bool.false_ne_true
      · exact absurd (show i ∈ s.connecting from hi) (by rw [hidle]; exact List.not_mem_nil)
    · refine ⟨fun i hi => ?_, fun i hi => ?_⟩
      · have hi := (connectedAt_created s (some s.connections.length) i).symm.trans hi
        exact absurd ((hnone i).symm.trans hi) Bool.false_ne_true
      · rw [hidle] at hi
        exact congrArg some (List.mem_singleton.mp hi).symm

theorem Current.removeAllConnections {s : NetClient} (h : Current s) :
    Current s.removeAllConnections := by
  refine ⟨fun i hi => h.connected i ?_, h.connecting⟩
  unfold connectedAt NetClient.removeAllConnections at hi
  dsimp only at hi
  rw [List.getElem?_map] at hi
  unfold connectedAt
  cases hc : s.connections[i]? with
  | none =>
    rw [hc] at hi
    cases hi
  | some c =>
    rw [hc] at hi
    dsimp only [Option.map_some] at hi ⊢
    split at hi
    · exact hi
    · exact hi

theorem Current.handleConnect {s : NetClient} (h : Current s) {i : Nat}
    (hi : s.m_connection = some i) (err same : Bool) (now : Int) (readThrows : Bool) :
    Current (s.handleConnect i err same now readThrows) := by
  unfold NetClient.handleConnect
  split
  · exact h.onConnectionError
  · split
    · have hclosed : Current (s.update i NetConnection.close) := h.update i fun _ _ hup => hup
      have hm := (cancelReconnect_fields (s.update i NetConnection.close)).2.1
      exact hclosed.onConnectionError.update_current (hm.trans hi) _
    · exact h.update_current hi _

/-- **A step that starts no connect beside another keeps all that is connected or being connected in
`m_connection`.** -/
theorem step_current {s s' : NetClient} {e : ClientEvent} (h : Current s) (ha : Alone s e)
    (hs : s.step e = some s') : Current s' := by
  cases e with
  | start =>
    cases hs
    exact h.same rfl rfl fun _ hi => hi
  | stop =>
    cases hs
    obtain ⟨h1, h2, h3⟩ := cancelReconnect_fields s
    exact h.same h1 h2 fun i hi => h3 ▸ hi
  | reconnectExpires =>
    rw [step] at hs
    split at hs
    · cases hs
      exact h.same rfl rfl fun _ hi => hi
    · cases hs
  | run i throws =>
    obtain ⟨hd, hi, rfl⟩ := Option.map_eq_some_iff.mp hs
    have h' : Current { s with posted := s.posted.eraseIdx i } := h.same rfl rfl fun _ hi => hi
    cases hd with
    | startConnectAsync => exact h'.startConnectAsync throws (ha (.inl hi))
    | onConnectionError => exact h'.onConnectionError
    | removeAllConnections => exact h'.removeAllConnections
    | onReconnectTimer err =>
      cases err with
      | true => exact h'
      | false => exact h'.startConnectAsync throws (ha (.inr hi))
  | connectEnds k err same now readThrows =>
    obtain ⟨i, hi, rfl⟩ := Option.map_eq_some_iff.mp hs
    have h' : Current { s with connecting := s.connecting.eraseIdx k } :=
      h.same rfl rfl fun _ hj => List.mem_of_mem_eraseIdx hj
    exact h'.handleConnect (h.connecting i (List.mem_of_getElem? hi)) err same now readThrows
  | connection i e =>
    obtain ⟨c, hc, hs⟩ := Option.bind_eq_some_iff.mp hs
    obtain ⟨c', hc', rfl⟩ := Option.map_eq_some_iff.mp hs
    have h' : Current (s.update i fun _ => c') := by
      refine h.update i fun x hx hup => ?_
      rw [hc] at hx
      cases hx
      exact connection_step_down hc' hup
    dsimp only
    split
    · exact h'.onConnectionError
    · exact h'

/-! ## runs -/

/-- at most one connection is connected, and it is `m_connection` -/
structure OneSession (s : NetClient) : Prop where
  one : ∀ i j, s.connectedAt i = true → s.connectedAt j = true → i = j
  current : ∀ i, s.connectedAt i = true → s.m_connection = some i

/-- **A client has one session in every run in which `startConnectAsync` never starts a connect
beside another.** -/
theorem one_session {es : List ClientEvent} {s : NetClient} (ha : Machine.Along step Alone init es)
    (h : Machine.run step init es = some s) : OneSession s := by
  have hc : Current s := Machine.run_inv Current (fun _ _ _ hI hP hs => step_current hI hP hs)
    current_init ha h
  refine ⟨fun i j hi hj => ?_, hc.connected⟩
  exact Option.some.inj ((hc.connected i hi).symm.trans (hc.connected j hj))

/-- a connect fails, the reconnect timer expires, and the next one succeeds -/
def reconnectRun : List ClientEvent :=
  [.start, .run 0 false, .connectEnds 0 true false 0 false, .reconnectExpires, .run 0 false,
   .connectEnds 0 false false 0 false]

theorem one_session_reconnected : ∃ s, Machine.run step init reconnectRun = some s ∧
    s.connectedAt 1 = true ∧ OneSession s := by
  have hrun : (Machine.run step init reconnectRun).any (fun s => s.connectedAt 1) = true := by
    decide +kernel
  obtain ⟨s, h, h1⟩ := Option.any_eq_true _ _ |>.mp hrun
  exact ⟨s, h, h1, one_session (by decide +kernel) h⟩

/-- two starts, two connects, and both succeed -/
def twoStarts : List ClientEvent :=
  [.start, .start, .run 0 false, .run 0 false, .connectEnds 0 false false 0 false,
   .connectEnds 0 false false 0 false]

theorem two_sessions : ∃ s, Machine.run step init twoStarts = some s ∧ s.connectedAt 0 = true ∧
    s.connectedAt 1 = true ∧ ¬ OneSession s := by
  have hrun : (Machine.run step init twoStarts).any (fun s => s.connectedAt 0 && s.connectedAt 1)
      = true := by
    decide +kernel
  obtain ⟨s, h, hs⟩ := Option.any_eq_true _ _ |>.mp hrun
  obtain ⟨h0, h1⟩ := Bool.and_eq_true_iff.mp hs
  exact ⟨s, h, h0, h1, fun ho => absurd (ho.one 0 1 h0 h1) (by decide)⟩

end NetClient

end Netwb
