import Netwb.Net.Loops

/-!
# The runs of a client

What `NetClient` keeps up from one connection to the next.

* `never_gives_up`      a client that was started has a session, is making one or will try again, as
                        long as nobody takes its connection down or cancels the reconnect timer;
* `connections_start_once` each connection is started once at most and does nothing until then; none
                        has two reads, two writes or two waits of a timer at a time, and none fails
                        twice.
-/

namespace Netwb
open Wire Machine

/-- a handler that leads to a connect, or to the timer of one -/
def ClientHandler.retries : ClientHandler → Bool
  | .startConnectAsync => true
  | .onConnectionError => true
  | .onReconnectTimer false => true
  | _ => false

namespace NetConnection

/-! ## a connection that has not been started -/

/-- before its start: down, with nothing on its way and nothing queued that goes on with a loop -/
structure Unstarted (s : NetConnection) : Prop where
  down : s.m_bConnected = false
  none : ∀ l, s.turns l = 0
  empty : s.queue.m_waitingPos = 0
  idle : s.queue.m_bSending = false
  unnoticed : s.notified = 0

/-- after its start -/
structure Running (s : NetConnection) : Prop where
  one : ∀ l, s.turns l ≤ 1
  writing : s.writing
  noticed : s.Noticed

theorem Unstarted.no_loop {s : NetConnection} (h : s.Unstarted) {i : Nat} {hd : Handler}
    (hi : s.posted[i]? = some hd) : hd.loop = Option.none := by
  cases hl : hd.loop with
  | none => rfl
  | some l =>
    have h1 := dequeue_turns hi l
    rw [h.none l, if_pos hl] at h1
    omega

/-- a change that leaves the state, the queue and the loops alone -/
theorem Unstarted.same {s s' : NetConnection} (h : s.Unstarted) (hc : s'.core = s.core)
    (ht : ∀ l, s'.turns l ≤ s.turns l) : s'.Unstarted := by
  have hd : s'.m_bConnected = s.m_bConnected := congrArg Core.connected hc
  have hn : s'.notified = s.notified := congrArg Core.notified hc
  have hq : s'.queue = s.queue := congrArg Core.queue hc
  refine ⟨hd.trans h.down, fun l => Nat.le_zero.mp ((h.none l) ▸ ht l), ?_, ?_, hn.trans h.unnoticed⟩
  · rw [hq]
    exact h.empty
  · rw [hq]
    exact h.idle

theorem Unstarted.dequeue {s : NetConnection} (h : s.Unstarted) {i : Nat} {hd : Handler}
    (hi : s.posted[i]? = some hd) : (s.dequeue i).Unstarted :=
  h.same rfl fun l => dequeue_turns_le hi l

theorem Unstarted.post {s : NetConnection} (h : s.Unstarted) {k : Handler}
    (hl : k.loop = Option.none) : (s.post k).Unstarted :=
  h.same rfl fun l => Nat.le_of_eq (post_turns_none s hl l)

theorem Unstarted.unpool {s : NetConnection} (h : s.Unstarted) (b : Bool) :
    ({ s with pooled := b } : NetConnection).Unstarted :=
  ⟨h.down, fun l => (by have hl := h.none l; cases l <;> exact hl), h.empty, h.idle, h.unnoticed⟩

theorem Unstarted.doClose {s : NetConnection} (h : s.Unstarted) : s.doClose.Unstarted := by
  have hc := doClose_core s
  have hd := congrArg Core.connected hc
  have hn := congrArg Core.notified hc
  have hq := congrArg Core.queue hc
  refine ⟨hd, fun l => Nat.le_zero.mp ((h.none l) ▸ doClose_turns s l), ?_, ?_, ?_⟩
  · show s.doClose.core.queue.m_waitingPos = 0
    rw [hq]
    rfl
  · show s.doClose.core.queue.m_bSending = false
    rw [hq]
    rfl
  · show s.doClose.core.notified = 0
    rw [hn]
    exact h.unnoticed

theorem Unstarted.handleConnectionError {s : NetConnection} (h : s.Unstarted) :
    s.handleConnectionError.Unstarted := by
  unfold NetConnection.handleConnectionError
  rw [if_neg (Bool.eq_false_iff.mp h.down)]
  exact h

/-- **Before its start a connection does nothing.** -/
theorem step_unstarted {s s' : NetConnection} {e : Event} (h : s.Unstarted)
    (hs : s.step e = some s') : s'.Unstarted := by
  have hdown := Bool.eq_false_iff.mp h.down
  have hreads : s.reads = 0 := Nat.eq_zero_of_add_eq_zero_right (h.none .read)
  have hwrites : s.queue.writes.length = 0 := Nat.eq_zero_of_add_eq_zero_right (h.none .write)
  have hka : s.keepAliveArmed.toNat = 0 := Nat.eq_zero_of_add_eq_zero_right (h.none .keepAlive)
  have hto : s.timeoutArmed.toNat = 0 := Nat.eq_zero_of_add_eq_zero_right (h.none .timeout)
  cases step_does hs with
  | @sendDataAsync data len c s' b h1 =>
    rw [NetConnection.sendDataAsync, if_neg hdown] at h1
    cases h1
    exact h
  | sendDataSync throws =>
    rw [NetConnection.sendDataSync, if_neg hdown]
    exact h
  | close => exact h.post rfl
  | removeConnection => exact (h.post (k := .doClose true) rfl).unpool false
  | readEnds err data =>
    rw [step, if_neg (fun hc => by omega)] at hs
    cases hs
  | writeEnds i err =>
    rw [step, if_neg (fun hc => by omega)] at hs
    cases hs
  | keepAliveExpires harmed =>
    rw [harmed] at hka
    cases hka
  | timeoutExpires harmed =>
    rw [harmed] at hto
    cases hto
  | doClose t hi => exact (h.dequeue hi).doClose
  | fails hi hf => exact (h.dequeue hi).handleConnectionError
  | receives hi hr => cases h.no_loop hi
  | receivesNothing t hi => cases h.no_loop hi
  | sends hi hq => cases h.no_loop hi
  | keepAliveAborted t hi => exact h.dequeue hi
  | keepsAlive hi h1 => cases h.no_loop hi
  | timeoutAborted t hi => exact h.dequeue hi
  | inTime hi hf => cases h.no_loop hi

theorem step_running {s s' : NetConnection} {e : Event} (h : s.Running)
    (hs : s.step e = some s') : s'.Running := by
  have hw := step_writing h.writing hs
  refine ⟨fun l => ?_, hw, step_noticed h.noticed hs⟩
  by_cases hl : l = .write
  · exact hl ▸ hw.one
  · exact Nat.le_trans (step_turns hs hl) (h.one l)

theorem start_core (s : NetConnection) (now : Int) (b : Bool) :
    (s.start now b).core = { s.core with connected := true } := by
  unfold start
  rw [recvData_core]
  dsimp only
  split <;> split <;> rfl

theorem Unstarted.start_turns {s : NetConnection} (h : s.Unstarted) (now : Int) (b : Bool)
    (l : Loop) : (s.start now b).turns l ≤ if l = .write then 0 else 1 := by
  have h0 := h.none l
  have hbase : ({ s with m_bConnected := true, m_lastSendTime := now, m_lastRecvTime := now } :
      NetConnection).turns l = 0 := by
    cases l <;> exact h0
  unfold start
  dsimp only
  refine Nat.le_trans (recvData_turns _ _ l) ?_
  split <;> split <;> simp only [post_turns, hbase] <;> cases l <;> decide

/-- a start makes one token for each loop but the writes -/
theorem Unstarted.start {s : NetConnection} (h : s.Unstarted) (now : Int) (b : Bool) :
    (s.start now b).Running := by
  have ht := h.start_turns now b
  have hc := start_core s now b
  have hw : (s.start now b).turns .write = 0 := Nat.le_zero.mp (ht .write)
  refine ⟨fun l => Nat.le_trans (ht l) (by split <;> decide), ?_, .inl ?_⟩
  · show Writing _ (s.start now b).core.connected (s.start now b).core.queue
    rw [hc, hw]
    refine ⟨Nat.zero_le _, fun _ h1 => absurd h1 (by decide), fun _ _ => ⟨fun hs => ?_, fun hp => ?_⟩,
      fun _ => h.empty⟩
    · exact absurd (h.idle.symm.trans hs) (by decide)
    · exact absurd h.empty hp
  · show (s.start now b).core.notified = 0
    rw [hc]
    exact h.unnoticed

end NetConnection

namespace NetClient

/-! ## trying on -/

/-- a connect will be tried: the timer is armed, or a handler queued that leads to it -/
def WillTry (s : NetClient) : Prop :=
  s.reconnectArmed = true ∨ ∃ h ∈ s.posted, h.retries = true

/-- the client has a session, is making one, or will try to -/
def Trying (s : NetClient) : Prop :=
  s.isConnected = true ∨ (∃ i ∈ s.connecting, s.m_connection = some i) ∨ s.WillTry

/-- the step does not cancel the reconnect timer for good, and is no `doClose` of the connection in
`m_connection` while it is up -/
def Persists (s : NetClient) : ClientEvent → Prop
  | .stop => s.reconnectArmed = false
  | .connection i e => s.m_connection = some i →
    ∀ c ∈ s.connections[i]?, c.closes e = true → c.m_bConnected = false
  | _ => True

instance (s : NetClient) : ∀ e, Decidable (Persists s e)
  | .stop => inferInstanceAs (Decidable (_ = _))
  | .connection _ _ => inferInstanceAs (Decidable (_ → _))
  | .start => .isTrue trivial
  | .reconnectExpires => .isTrue trivial
  | .run .. => .isTrue trivial
  | .connectEnds .. => .isTrue trivial

theorem willTry_post {s : NetClient} (h : s.WillTry) (hd : ClientHandler) : (s.post hd).WillTry :=
  h.imp id fun ⟨x, hx, hr⟩ => ⟨x, List.mem_append_left _ hx, hr⟩

theorem willTry_posted (s : NetClient) {h : ClientHandler} (hr : h.retries = true) :
    (s.post h).WillTry :=
  .inr ⟨h, List.mem_append_right _ (List.mem_singleton.mpr rfl), hr⟩

theorem onConnectionError_willTry (s : NetClient) : s.onConnectionError.WillTry := .inl rfl

/-- taking a handler that leads to no connect -/
theorem willTry_dequeue {s : NetClient} {i : Nat} {h : ClientHandler} (hi : s.posted[i]? = some h)
    (hr : h.retries = false) (ht : s.WillTry) :
    ({ s with posted := s.posted.eraseIdx i } : NetClient).WillTry := by
  refine ht.imp id fun ⟨x, hx, hxr⟩ => ⟨x, ?_, hxr⟩
  rcases List.mem_cons.mp ((perm_dequeue hi).mem_iff.mpr hx) with rfl | hx'
  · exact absurd (hr.symm.trans hxr) (by decide)
  · exact hx'

theorem trying_same {s s' : NetClient} (h : Trying s) (hc : s'.isConnected = s.isConnected)
    (hm : s'.m_connection = s.m_connection) (hp : s'.connecting = s.connecting)
    (ht : s.WillTry → s'.WillTry) : Trying s' := by
  rcases h with hup | hmaking | htry
  · exact .inl (hc.trans hup)
  · exact .inr (.inl (by rw [hp, hm]; exact hmaking))
  · exact .inr (.inr (ht htry))

/-- what `isConnected` asks the connection in `m_connection` -/
theorem isConnected_congr {s s' : NetClient} (hm : s'.m_connection = s.m_connection)
    (h : ∀ i, s.m_connection = some i → s'.connectedAt i = s.connectedAt i) :
    s'.isConnected = s.isConnected := by
  unfold isConnected
  rw [hm]
  cases hi : s.m_connection with
  | none => rfl
  | some i => exact h i hi

theorem startConnectAsync_trying (s : NetClient) (throws : Bool) :
    Trying (s.startConnectAsync throws) := by
  unfold startConnectAsync
  split
  · rename_i hup
    exact .inl hup
  · dsimp only
    split
    · exact .inr (.inr (willTry_posted _ rfl))
    · refine .inr (.inl ⟨s.connections.length, ?_, rfl⟩)
      exact List.mem_append_right _ (List.mem_singleton.mpr rfl)

theorem removeAllConnections_isConnected (s : NetClient) :
    s.removeAllConnections.isConnected = s.isConnected := by
  refine isConnected_congr rfl fun i _ => ?_
  unfold connectedAt removeAllConnections
  dsimp only
  rw [List.getElem?_map]
  cases s.connections[i]? with
  | none => rfl
  | some c =>
    dsimp only [Option.map_some]
    split <;> rfl

theorem run_trying {s : NetClient} (h : Trying s) {i : Nat} {hd : ClientHandler}
    (hi : s.posted[i]? = some hd) (throws : Bool) :
    Trying ({ s with posted := s.posted.eraseIdx i }.handle throws hd) := by
  cases hd with
  | startConnectAsync => exact startConnectAsync_trying _ throws
  | onConnectionError => exact .inr (.inr (onConnectionError_willTry _))
  | removeAllConnections =>
    refine trying_same h ?_ rfl rfl (willTry_dequeue hi rfl)
    exact removeAllConnections_isConnected _
  | onReconnectTimer err =>
    cases err with
    | true => exact trying_same h rfl rfl rfl (willTry_dequeue hi rfl)
    | false => exact startConnectAsync_trying _ throws

/-! ## the connections -/

/-- the connections that a step starts: those of the connects that end without an error -/
def starts (s : NetClient) : ClientEvent → List Nat
  | .connectEnds k false _ _ _ => s.connecting[k]?.toList
  | _ => []

/-- the connections that have been started are different ones, and run; the others do nothing, and
the connects in progress are about different ones of them -/
structure Phases (s : NetClient) (started : List Nat) : Prop where
  once : started.Nodup
  nodup : s.connecting.Nodup
  made : ∀ i ∈ started, i < s.connections.length
  fresh : ∀ i ∈ s.connecting, i < s.connections.length ∧ i ∉ started
  before : ∀ i c, s.connections[i]? = some c → i ∉ started → c.Unstarted
  running : ∀ i c, s.connections[i]? = some c → i ∈ started → c.Running

theorem phases_init : Phases init [] :=
  ⟨List.nodup_nil, List.nodup_nil, fun _ hi => absurd hi List.not_mem_nil,
    fun _ hi => absurd hi List.not_mem_nil, fun _ _ hc => (nomatch hc), fun _ _ hc => (nomatch hc)⟩

/-- the connection of a connect in progress has not been started -/
theorem Phases.unstarted {s : NetClient} {started : List Nat} (h : Phases s started) {i : Nat}
    (hi : i ∈ s.connecting) : ∃ c, s.connections[i]? = some c ∧ c.Unstarted := by
  obtain ⟨hlt, hn⟩ := h.fresh i hi
  exact ⟨_, List.getElem?_eq_getElem hlt, h.before i _ (List.getElem?_eq_getElem hlt) hn⟩

theorem Phases.same {s s' : NetClient} {started : List Nat} (h : Phases s started)
    (hc : s'.connections = s.connections) (hp : s'.connecting = s.connecting) :
    Phases s' started := by
  refine ⟨h.once, hp ▸ h.nodup, ?_, ?_, ?_, ?_⟩
  · rw [hc]
    exact h.made
  · rw [hp, hc]
    exact h.fresh
  · rw [hc]
    exact h.before
  · rw [hc]
    exact h.running

theorem Phases.onConnectionError {s : NetClient} {started : List Nat} (h : Phases s started) :
    Phases s.onConnectionError started := by
  obtain ⟨h1, _, h3⟩ := cancelReconnect_fields s
  exact h.same h1 h3

theorem update_get (s : NetClient) (i j : Nat) (f : NetConnection → NetConnection) :
    (s.update i f).connections[j]? = s.connections[j]?.map fun c => if i = j then f c else c := by
  show (s.connections.modify i f)[j]? = _
  rw [List.getElem?_modify]
  cases s.connections[j]? with
  | none => rfl
  | some c => rfl

theorem update_at {s : NetClient} {i : Nat} {c : NetConnection} (hc : s.connections[i]? = some c)
    (f : NetConnection → NetConnection) : (s.update i f).connections[i]? = some (f c) := by
  rw [update_get, hc, Option.map_some, if_pos rfl]

theorem update_other (s : NetClient) {i j : Nat} (hne : i ≠ j) (f : NetConnection → NetConnection) :
    (s.update i f).connections[j]? = s.connections[j]? := by
  rw [update_get]
  simp only [if_neg hne, Option.map_id']

theorem update_length (s : NetClient) (i : Nat) (f : NetConnection → NetConnection) :
    (s.update i f).connections.length = s.connections.length :=
  List.length_modify ..

/-- a connection makes a move of its own -/
theorem Phases.update {s : NetClient} {started : List Nat} (h : Phases s started) {i : Nat}
    {c : NetConnection} (hc : s.connections[i]? = some c) {f : NetConnection → NetConnection}
    (hu : c.Unstarted → (f c).Unstarted) (hr : c.Running → (f c).Running) :
    Phases (s.update i f) started := by
  have hlen := update_length s i f
  refine ⟨h.once, h.nodup, fun j hj => hlen ▸ h.made j hj, fun j hj => hlen ▸ h.fresh j hj,
    fun j d hd hn => ?_, fun j d hd hj => ?_⟩
  · by_cases hij : i = j
    · subst hij
      rw [update_at hc] at hd
      exact Option.some.inj hd ▸ hu (h.before i c hc hn)
    · exact h.before j d ((update_other s hij f).symm.trans hd) hn
  · by_cases hij : i = j
    · subst hij
      rw [update_at hc] at hd
      exact Option.some.inj hd ▸ hr (h.running i c hc hj)
    · exact h.running j d ((update_other s hij f).symm.trans hd) hj

/-- a connection is made, which is not started yet -/
theorem Phases.make {s : NetClient} {started : List Nat} (h : Phases s started) :
    Phases { s with connections := s.connections ++ [createConnection] } started := by
  have hnew : createConnection.Unstarted :=
    ⟨rfl, fun l => by cases l <;> rfl, rfl, rfl, rfl⟩
  have hlen : (s.connections ++ [createConnection]).length = s.connections.length + 1 :=
    List.length_append
  have hold : ∀ {i c}, (s.connections ++ [createConnection])[i]? = some c →
      s.connections[i]? = some c ∨ i = s.connections.length ∧ c = createConnection := by
    intro i c hc
    by_cases hi : i < s.connections.length
    · exact .inl ((List.getElem?_append_left hi).symm.trans hc)
    · have hlt := (List.getElem?_eq_some_iff.mp hc).1
      obtain rfl : i = s.connections.length := by omega
      rw [List.getElem?_concat_length] at hc
      exact .inr ⟨rfl, (Option.some.inj hc).symm⟩
  refine ⟨h.once, h.nodup, fun i hi => ?_, fun i hi => ?_, fun i c hc hn => ?_, fun i c hc hi => ?_⟩
  · have := h.made i hi
    show i < (s.connections ++ [createConnection]).length
    omega
  · have := (h.fresh i hi).1
    refine ⟨?_, (h.fresh i hi).2⟩
    show i < (s.connections ++ [createConnection]).length
    omega
  · rcases hold hc with hc | ⟨_, rfl⟩
    · exact h.before i c hc hn
    · exact hnew
  · rcases hold hc with hc | ⟨rfl, _⟩
    · exact h.running i c hc hi
    · exact absurd (h.made _ hi) (Nat.lt_irrefl _)

theorem Phases.startConnectAsync {s : NetClient} {started : List Nat} (h : Phases s started)
    (throws : Bool) : Phases (s.startConnectAsync throws) started := by
  unfold NetClient.startConnectAsync
  split
  · exact h
  · dsimp only
    split
    · exact h.make.same rfl rfl
    · have hm := h.make
      have hn : s.connections.length ∉ started := fun hi => Nat.lt_irrefl _ (h.made _ hi)
      refine ⟨hm.once, ?_, hm.made, fun i hi => ?_, hm.before, hm.running⟩
      · refine List.nodup_append.mpr ⟨h.nodup, List.nodup_singleton _, fun a ha b hb hab => ?_⟩
        have := (h.fresh a ha).1
        rw [List.mem_singleton.mp hb] at hab
        omega
      · rcases List.mem_append.mp hi with hi | hi
        · exact hm.fresh i hi
        · rw [List.mem_singleton.mp hi]
          refine ⟨?_, hn⟩
          show s.connections.length < (s.connections ++ [createConnection]).length
          rw [List.length_append]
          exact Nat.lt_succ_self _

theorem Phases.removeAllConnections {s : NetClient} {started : List Nat} (h : Phases s started) :
    Phases s.removeAllConnections started := by
  have hmove : ∀ c : NetConnection, (c.Unstarted → (if c.pooled then c.removeConnection else
      c).Unstarted) ∧ (c.Running → (if c.pooled then c.removeConnection else c).Running) := by
    intro c
    split
    · exact ⟨fun hc => NetConnection.step_unstarted (e := .removeConnection) hc rfl,
        fun hc => NetConnection.step_running (e := .removeConnection) hc rfl⟩
    · exact ⟨id, id⟩
  have hlen : s.removeAllConnections.connections.length = s.connections.length := List.length_map ..
  have hold : ∀ {i : Nat} {c}, s.removeAllConnections.connections[i]? = some c →
      ∃ d : NetConnection, s.connections[i]? = some d ∧ (if d.pooled then d.removeConnection else d) = c := by
    intro i c hc
    exact Option.map_eq_some_iff.mp (List.getElem?_map ▸ hc)
  refine ⟨h.once, h.nodup, fun i hi => hlen ▸ h.made i hi, fun i hi => hlen ▸ h.fresh i hi,
    fun i c hc hn => ?_, fun i c hc hi => ?_⟩
  · obtain ⟨d, hd, rfl⟩ := hold hc
    exact (hmove d).1 (h.before i d hd hn)
  · obtain ⟨d, hd, rfl⟩ := hold hc
    exact (hmove d).2 (h.running i d hd hi)

/-- a connection that none of the connects has is started for the first time -/
theorem Phases.start {s : NetClient} {started : List Nat} (h : Phases s started) {i : Nat}
    {c : NetConnection} (hc : s.connections[i]? = some c) (hn : i ∉ started)
    (hp : i ∉ s.connecting) (now : Int) (readThrows : Bool) :
    Phases (s.update i fun c => { c with pooled := true }.start now readThrows)
      (started ++ [i]) := by
  have hlen := update_length s i fun c => { c with pooled := true }.start now readThrows
  have hlt := (List.getElem?_eq_some_iff.mp hc).1
  have hmem : ∀ {j}, j ∈ started ++ [i] ↔ j ∈ started ∨ j = i := by
    intro j
    rw [List.mem_append, List.mem_singleton]
  refine ⟨?_, h.nodup, fun j hj => ?_, fun j hj => ?_, fun j d hd hj => ?_, fun j d hd hj => ?_⟩
  · refine List.nodup_append.mpr ⟨h.once, List.nodup_singleton _, fun a ha b hb hab => ?_⟩
    exact hn ((hab.trans (List.mem_singleton.mp hb)) ▸ ha)
  · rw [hlen]
    rcases hmem.mp hj with hj | rfl
    · exact h.made j hj
    · exact hlt
  · rw [hlen]
    obtain ⟨hj1, hj2⟩ := h.fresh j hj
    refine ⟨hj1, fun hm => ?_⟩
    rcases hmem.mp hm with hm | rfl
    · exact hj2 hm
    · exact hp hj
  · have hij : i ≠ j := fun e => hj (hmem.mpr (.inr e.symm))
    exact h.before j d ((update_other s hij _).symm.trans hd) fun hm => hj (hmem.mpr (.inl hm))
  · by_cases hij : i = j
    · subst hij
      rw [update_at hc] at hd
      exact Option.some.inj hd ▸ ((h.before i c hc hn).unpool true).start now readThrows
    · refine h.running j d ((update_other s hij _).symm.trans hd) ?_
      exact (hmem.mp hj).resolve_right fun e => hij e.symm

/-- the connection of a connect that has ended well is started, and no other connect has it -/
theorem Phases.handleConnect {s : NetClient} {started : List Nat} (h : Phases s started) {k i : Nat}
    (hk : s.connecting[k]? = some i) (err same : Bool) (now : Int) (readThrows : Bool) :
    Phases ({ s with connecting := s.connecting.eraseIdx k }.handleConnect i err same now
      readThrows) (started ++ s.starts (.connectEnds k err same now readThrows)) := by
  have hnodup := List.nodup_cons.mp ((perm_dequeue hk).nodup_iff.mpr h.nodup)
  have h0 : Phases { s with connecting := s.connecting.eraseIdx k } started :=
    ⟨h.once, hnodup.2, h.made, fun j hj => h.fresh j (List.mem_of_mem_eraseIdx hj), h.before,
      h.running⟩
  cases err with
  | true =>
    rw [NetClient.handleConnect, if_pos rfl, starts, List.append_nil]
    · exact h0.onConnectionError
    · exact fun _ _ _ _ e => nomatch e
  | false =>
    obtain ⟨c, hc, _⟩ := h.unstarted (List.mem_of_getElem? hk)
    obtain ⟨_, hn⟩ := h.fresh i (List.mem_of_getElem? hk)
    rw [NetClient.handleConnect, if_neg Bool.false_ne_true, starts, hk]
    dsimp only [Option.toList]
    split
    · have hclose : Phases (({ s with connecting := s.connecting.eraseIdx k } : NetClient).update i
          NetConnection.close) started :=
        h0.update (f := NetConnection.close) hc (fun hu => hu.post rfl)
          fun hr => NetConnection.step_running (e := .close) hr rfl
      obtain ⟨e1, _, e3⟩ := cancelReconnect_fields (({ s with
        connecting := s.connecting.eraseIdx k } : NetClient).update i NetConnection.close)
      have hclosed : (NetClient.cancelReconnect (({ s with
          connecting := s.connecting.eraseIdx k } : NetClient).update i
          NetConnection.close)).connections[i]? = some c.close := by
        rw [e1]
        exact update_at hc _
      refine hclose.onConnectionError.start hclosed hn (fun hm => hnodup.1 ?_) now readThrows
      have hin : i ∈ (NetClient.cancelReconnect _).connecting := hm
      rw [e3] at hin
      exact hin
    · exact h0.start hc hn hnodup.1 now readThrows

theorem step_phases {s s' : NetClient} {started : List Nat} {e : ClientEvent}
    (h : Phases s started) (hs : s.step e = some s') : Phases s' (started ++ s.starts e) := by
  cases e with
  | start =>
    cases hs
    exact (List.append_nil started).symm ▸ h.same rfl rfl
  | stop =>
    cases hs
    obtain ⟨h1, _, h3⟩ := cancelReconnect_fields s
    exact (List.append_nil started).symm ▸ h.same h1 h3
  | reconnectExpires =>
    rw [step] at hs
    split at hs
    · cases hs
      exact (List.append_nil started).symm ▸ h.same rfl rfl
    · cases hs
  | run i throws =>
    obtain ⟨hd, hi, rfl⟩ := Option.map_eq_some_iff.mp hs
    have h0 : Phases { s with posted := s.posted.eraseIdx i } started := h.same rfl rfl
    refine (List.append_nil started).symm ▸ ?_
    cases hd with
    | startConnectAsync => exact h0.startConnectAsync throws
    | onConnectionError => exact h0.onConnectionError
    | removeAllConnections => exact h0.removeAllConnections
    | onReconnectTimer err =>
      cases err with
      | true => exact h0
      | false => exact h0.startConnectAsync throws
  | connectEnds k err same now readThrows =>
    obtain ⟨i, hk, rfl⟩ := Option.map_eq_some_iff.mp hs
    exact h.handleConnect hk err same now readThrows
  | connection i e =>
    obtain ⟨c, hc, hs⟩ := Option.bind_eq_some_iff.mp hs
    obtain ⟨c', hc', rfl⟩ := Option.map_eq_some_iff.mp hs
    have h0 : Phases (s.update i fun _ => c') started := h.update hc
      (fun hu => NetConnection.step_unstarted hu hc') fun hr => NetConnection.step_running hr hc'
    refine (List.append_nil started).symm ▸ ?_
    dsimp only
    split
    · exact h0.onConnectionError
    · exact h0

/-! ## a step of a client that is trying -/

theorem connectedAt_at {s : NetClient} {i : Nat} {c : NetConnection}
    (hc : s.connections[i]? = some c) : s.connectedAt i = c.m_bConnected := by
  unfold connectedAt
  rw [hc]

/-- a change of a connection that is not the one in `m_connection` -/
theorem isConnected_other {s : NetClient} {i : Nat} (hne : s.m_connection ≠ some i)
    (f : NetConnection → NetConnection) : (s.update i f).isConnected = s.isConnected := by
  refine isConnected_congr rfl fun j hm => ?_
  have hij : i ≠ j := fun e => hne (e ▸ hm)
  unfold connectedAt
  rw [update_other s hij]

theorem handleConnect_trying {s : NetClient} {started : List Nat} (hp : Phases s started)
    (h : Trying s) {k i : Nat}
    (hk : s.connecting[k]? = some i) (err same : Bool) (now : Int) (readThrows : Bool) :
    Trying ({ s with connecting := s.connecting.eraseIdx k }.handleConnect i err same now
      readThrows) := by
  obtain ⟨c, hc, _⟩ := hp.unstarted (List.mem_of_getElem? hk)
  -- the client before the start of the connection
  have hstart : ∀ s1 : NetClient, s1.m_connection = s.m_connection →
      (∃ d, s1.connections[i]? = some d) → (s.m_connection ≠ some i → Trying s1) →
      Trying (s1.update i fun c => { c with pooled := true }.start now readThrows) := by
    intro s1 hm ⟨d, hd⟩ hother
    by_cases hmi : s.m_connection = some i
    · refine .inl ?_
      have hm1 : (s1.update i fun c => { c with pooled := true }.start now readThrows).m_connection
          = some i := hm.trans hmi
      rw [isConnected, hm1]
      dsimp only
      rw [connectedAt_at (update_at hd _)]
      exact congrArg NetConnection.Core.connected (NetConnection.start_core _ now readThrows)
    · exact trying_same (hother hmi) (isConnected_other (hm ▸ hmi) _) rfl rfl id
  have herased : s.m_connection ≠ some i →
      Trying { s with connecting := s.connecting.eraseIdx k } := by
    intro hmi
    rcases h with hup | ⟨j, hj, hm⟩ | htry
    · exact .inl hup
    · refine .inr (.inl ⟨j, ?_, hm⟩)
      rcases List.mem_cons.mp ((perm_dequeue hk).mem_iff.mpr hj) with rfl | hj'
      · exact absurd hm hmi
      · exact hj'
    · exact .inr (.inr htry)
  unfold handleConnect
  split
  · exact .inr (.inr (onConnectionError_willTry _))
  · split
    · obtain ⟨e1, e2, _⟩ := cancelReconnect_fields (({ s with
        connecting := s.connecting.eraseIdx k } : NetClient).update i NetConnection.close)
      refine hstart _ e2 ⟨c.close, ?_⟩ fun _ => .inr (.inr (onConnectionError_willTry _))
      show (NetClient.cancelReconnect _).connections[i]? = _
      rw [e1]
      exact update_at hc _
    · exact hstart _ rfl ⟨c, hc⟩ herased

/-- **A connection that goes down by itself reports it.** -/
theorem goes_down {c c' : NetConnection} {e : NetConnection.Event} (hs : c.step e = some c')
    (hup : c.m_bConnected = true) (hdown : c'.m_bConnected = false) :
    c.closes e = true ∨ c'.notified > c.notified := by
  have heff := NetConnection.step_effect hs
  generalize hk : c'.core = k at heff
  have hcon : c'.m_bConnected = k.connected := hk ▸ rfl
  have hnot : c'.notified = k.notified := hk ▸ rfl
  rw [hcon] at hdown
  cases heff with
  | idle ws => exact absurd (hup.symm.trans hdown) (by decide)
  | append _ _ => exact absurd (hup.symm.trans hdown) (by decide)
  | send _ => exact absurd (hup.symm.trans hdown) (by decide)
  | remove => exact absurd (hup.symm.trans hdown) (by decide)
  | close hc => exact .inl hc
  | fail _ =>
    rw [hnot]
    exact .inr (Nat.lt_succ_self _)

theorem step_trying {s s' : NetClient} {started : List Nat} {e : ClientEvent}
    (hp : Phases s started) (h : Trying s) (hP : Persists s e) (hs : s.step e = some s') : Trying s' := by
  cases e with
  | start =>
    cases hs
    exact .inr (.inr (willTry_posted s rfl))
  | stop =>
    cases hs
    have hoff : s.cancelReconnect = s := if_neg (Bool.eq_false_iff.mp hP)
    unfold stop
    rw [hoff]
    exact trying_same h rfl rfl rfl fun ht => willTry_post ht _
  | reconnectExpires =>
    rw [step] at hs
    split at hs
    · cases hs
      exact .inr (.inr (.inr ⟨.onReconnectTimer false,
        List.mem_append_right _ (List.mem_singleton.mpr rfl), rfl⟩))
    · cases hs
  | run i throws =>
    obtain ⟨hd, hi, rfl⟩ := Option.map_eq_some_iff.mp hs
    exact run_trying h hi throws
  | connectEnds k err same now readThrows =>
    obtain ⟨i, hk, rfl⟩ := Option.map_eq_some_iff.mp hs
    exact handleConnect_trying hp h hk err same now readThrows
  | connection i e =>
    obtain ⟨c, hc, hs⟩ := Option.bind_eq_some_iff.mp hs
    obtain ⟨c', hc', rfl⟩ := Option.map_eq_some_iff.mp hs
    dsimp only
    split
    · exact .inr (.inr (onConnectionError_willTry _))
    · rename_i hquiet
      by_cases hm : s.m_connection = some i
      · rcases h with hup | hmaking | htry
        · refine .inl ?_
          have hm' : (s.update i fun _ => c').m_connection = some i := hm
          have hcup : c.m_bConnected = true := by
            rw [isConnected, hm] at hup
            exact (connectedAt_at hc).symm.trans hup
          rw [isConnected, hm']
          dsimp only
          rw [connectedAt_at (update_at hc _)]
          cases hdown : c'.m_bConnected with
          | true => rfl
          | false =>
            rcases goes_down hc' hcup hdown with hcl | hn
            · exact absurd (hcup.symm.trans (hP hm c hc hcl)) (by decide)
            · exact absurd hn hquiet
        · exact .inr (.inl hmaking)
        · exact .inr (.inr htry)
      · exact trying_same h (isConnected_other hm _) rfl rfl id

/-! ## runs -/

/-- **A client never gives up.**  From the first `start` on, in every run in which no `stop` cancels
a wait of the reconnect timer and no `doClose` takes down the connection in `m_connection`, the
client is connected, or that connection is being connected, or the timer is armed or a handler
queued that leads to the next connect. -/
theorem never_gives_up {es : List ClientEvent} {s : NetClient}
    (hP : Along step Persists init.start es) (h : run step init.start es = some s) :
    Trying s := by
  have h0 : (∃ started, Phases init.start started) ∧ Trying init.start :=
    ⟨⟨[], phases_init.same rfl rfl⟩, .inr (.inr (willTry_posted init rfl))⟩
  exact (run_inv (fun s => (∃ started, Phases s started) ∧ Trying s)
    (fun _ _ _ ⟨⟨_, hp⟩, ht⟩ hP hs => ⟨⟨_, step_phases hp hs⟩, step_trying hp ht hP hs⟩) h0 hP h).2

/-- a connect fails, the next one succeeds, the connection is lost, and the timer expires -/
def lostRun : List ClientEvent :=
  [.run 0 false, .connectEnds 0 true false 0 false, .reconnectExpires, .run 0 false,
   .connectEnds 0 false false 0 false, .connection 1 (.readEnds true []),
   .connection 1 (.run 2 NetConnection.calm), .reconnectExpires]

theorem never_gives_up_lost : ∃ s, run step init.start lostRun = some s ∧
    s.isConnected = false ∧ Trying s := by
  have hrun : (run step init.start lostRun).any (fun s => decide (s.isConnected = false)) = true := by
    decide +kernel
  obtain ⟨s, h, hs⟩ := Option.any_eq_true _ _ |>.mp hrun
  exact ⟨s, h, of_decide_eq_true hs, never_gives_up (by decide +kernel) h⟩

/-- what every connection of a client has, started or not -/
structure Sound (c : NetConnection) : Prop where
  one : ∀ l, c.turns l ≤ 1
  once : c.notified ≤ 1

theorem sound_unstarted {c : NetConnection} (h : c.Unstarted) : Sound c := by
  refine ⟨fun l => ?_, ?_⟩
  · rw [h.none l]
    exact Nat.zero_le _
  · rw [h.unnoticed]
    exact Nat.zero_le _

theorem sound_running {c : NetConnection} (h : c.Running) : Sound c := by
  refine ⟨h.one, ?_⟩
  rcases h.noticed with h0 | h1
  · omega
  · have := h1.1
    omega

/-- how the connections of a client are when those in `started` have been started, one after the
other: no connection twice, and the others do nothing -/
structure StartOnce (s : NetClient) (started : List Nat) : Prop where
  once : started.Nodup
  before : ∀ i c, s.connections[i]? = some c → i ∉ started → c.Unstarted
  sound : ∀ c ∈ s.connections, Sound c

/-- **A connection is started once at most, and does nothing until then**: in every run of a client,
however its starts, connects and timers overlap, no connection is started twice, has two reads,
writes or waits of one timer at a time, or reports two failures. -/
theorem connections_start_once {es : List ClientEvent} {s : NetClient}
    (h : run step init es = some s) : StartOnce s (Machine.collect step starts init es) := by
  have hp : Phases s (Machine.collect step starts init es) :=
    run_collect (P := fun _ _ => True) Phases (fun _ _ _ _ hJ _ hs => step_phases hJ hs)
      phases_init (along_events _ fun _ _ => trivial) h
  refine ⟨hp.once, hp.before, fun c hc => ?_⟩
  obtain ⟨i, hi⟩ := List.mem_iff_getElem?.mp hc
  by_cases hm : i ∈ Machine.collect step starts init es
  · exact sound_running (hp.running i c hi hm)
  · exact sound_unstarted (hp.before i c hi hm)

/-- two starts, two connects, and both succeed -/
theorem connections_start_once_two : ∃ s, run step init twoStarts = some s ∧
    s.connections.length = 2 ∧ StartOnce s [0, 1] := by
  have hrun : (run step init twoStarts).any (fun s => decide (s.connections.length = 2)) = true := by
    decide +kernel
  have hstarted : Machine.collect step starts init twoStarts = [0, 1] := by
    decide +kernel
  obtain ⟨s, h, hs⟩ := Option.any_eq_true _ _ |>.mp hrun
  exact ⟨s, h, of_decide_eq_true hs, hstarted ▸ connections_start_once h⟩

end NetClient

end Netwb
