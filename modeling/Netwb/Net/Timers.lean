import Netwb.Net.SessionRuns

/-!
# The keep-alive timer of a closed connection

`doSendKeepAlive` looks at its error code and not at the connection: whenever it runs with a clear
code it arms the timer again.  `doClose` cancels the timer, but a wait that has expired already is
queued on the strand with a clear code, and so is the first one, which `start` posts itself.

Here `start` is an event like the others, and beside the connection a run keeps whether `doClose`
has run and how many of the handlers that were queued at that moment are still to come (`Life`).

* `keepAlive_rearms`   a successful handler leaves the timer armed, on any connection;
* `closed_is_quiet`    a connection is quiet after `doClose` in any run in which `doClose` finds no
                       successful keep-alive handler queued and `start` does not come after it.
-/

namespace Netwb.NetConnection
open Wire

/-! ## a timer that stays off -/

/-- the keep-alive timer is off, and no successful handler of it is queued -/
structure Asleep (s : NetConnection) : Prop where
  off : s.keepAliveArmed = false
  none_queued : Handler.doSendKeepAlive false ∉ s.posted

/-- **A successful handler leaves the timer armed**, whatever the state of the connection. -/
theorem keepAlive_rearms {s s' : NetConnection} {t : Turn}
    (h : s.doSendKeepAlive t false = some s') : s'.keepAliveArmed = true := by
  rw [doSendKeepAlive, if_neg Bool.false_ne_true] at h
  obtain ⟨s1, _, rfl⟩ := Option.map_eq_some_iff.mp h
  rfl

theorem not_mem_post {s : NetConnection} (h : Handler.doSendKeepAlive false ∉ s.posted)
    (hd : Handler) (hne : hd ≠ .doSendKeepAlive false) :
    Handler.doSendKeepAlive false ∉ (s.post hd).posted := by
  intro hm
  rcases List.mem_append.mp hm with hm | hm
  · exact h hm
  · exact hne (List.mem_singleton.mp hm).symm

theorem Asleep.post {s : NetConnection} (h : Asleep s) (hd : Handler)
    (hne : hd ≠ .doSendKeepAlive false) : Asleep (s.post hd) :=
  ⟨h.off, not_mem_post h.none_queued hd hne⟩

/-- cancelling puts it to sleep, if no successful handler is queued -/
theorem asleep_cancelKeepAlive {s : NetConnection}
    (h : Handler.doSendKeepAlive false ∉ s.posted) : Asleep s.cancelKeepAlive := by
  unfold cancelKeepAlive
  split
  · exact ⟨rfl, not_mem_post h (.doSendKeepAlive true) (by simp)⟩
  · rename_i hoff
    exact ⟨Bool.eq_false_iff.mpr hoff, h⟩

theorem Asleep.cancelTimeout {s : NetConnection} (h : Asleep s) : Asleep s.cancelTimeout := by
  unfold NetConnection.cancelTimeout
  split
  · exact ⟨h.off, not_mem_post h.none_queued (.doTimeoutCheck true) (by simp)⟩
  · exact h

theorem asleep_doClose {s : NetConnection} (h : Handler.doSendKeepAlive false ∉ s.posted) :
    Asleep s.doClose := by
  have hc : Asleep ({ s with m_bConnected := false, isOpen := false } :
      NetConnection).cancelKeepAlive := asleep_cancelKeepAlive h
  exact ⟨hc.cancelTimeout.off, hc.cancelTimeout.none_queued⟩

/-- a failure closes a connection that is up and leaves one that is down alone -/
theorem asleep_handleConnectionError {s : NetConnection}
    (h : Handler.doSendKeepAlive false ∉ s.posted) (hs : s.m_bConnected = true ∨ Asleep s) :
    Asleep s.handleConnectionError := by
  unfold handleConnectionError
  split
  · have hc := asleep_doClose h
    exact ⟨hc.off, not_mem_post (s := s.doClose) hc.none_queued (.doClose true) (by simp)⟩
  · rename_i hdown
    exact hs.resolve_left hdown

theorem Asleep.recvData {s : NetConnection} (h : Asleep s) (b : Bool) : Asleep (s.recvData b) := by
  unfold NetConnection.recvData
  split
  · exact h.post .handleConnectionError (by simp)
  · exact ⟨h.off, h.none_queued⟩

theorem Asleep.sendDataAsync {s s' : NetConnection} {c : Choice} {data : ByteArray} {len : Int}
    {b : Bool} (ha : Asleep s) (h : s.sendDataAsync c data len = some (s', b)) : Asleep s' := by
  unfold NetConnection.sendDataAsync at h
  split at h
  · split at h
    · obtain ⟨r, _, he⟩ := Option.map_eq_some_iff.mp h
      split at he
      · cases he
        exact ⟨ha.off, ha.none_queued⟩
      · cases he
        exact ⟨ha.off, not_mem_post (s := { s with queue := r.1 }) ha.none_queued
          .handleConnectionError (by simp)⟩
    · cases h
      exact ha
  · cases h
    exact ha

/-! ## what runs `doClose` -/

/-- the step runs `doClose`, by itself or from the handling of a failure -/
def runsDoClose (s : NetConnection) : Event → Bool
  | .run i t =>
    match s.posted[i]? with
    | some (.doClose _) => true
    | some .handleConnectionError => s.m_bConnected
    | some (.handleRecvData err _) => err && s.m_bConnected
    | some (.handleSendData err) => err && s.m_bConnected
    | some (.doSendKeepAlive _) => false
    | some (.doTimeoutCheck err) =>
      !err && decide (toInt32 (t.now - s.m_lastRecvTime) ≥ s.m_timeoutInterval) && s.m_bConnected
    | none => false
  | _ => false

/-- the run of a handler, by whether it comes to a failure -/
theorem runsDoClose_failing {s : NetConnection} {i : Nat} {t : Turn} {h : Handler}
    (hi : s.posted[i]? = some h) (hf : s.failing t h = true) :
    s.runsDoClose (.run i t) = s.m_bConnected := by
  rw [runsDoClose, hi]
  cases h with
  | doClose active => cases hf
  | handleConnectionError => rfl
  | handleRecvData err data => exact (congrArg (· && _) hf).trans (Bool.true_and _)
  | handleSendData err => exact (congrArg (· && _) hf).trans (Bool.true_and _)
  | doSendKeepAlive err => cases hf
  | doTimeoutCheck err => exact (congrArg (· && _) hf).trans (Bool.true_and _)

theorem runsDoClose_inTime {s : NetConnection} {i : Nat} {t : Turn}
    (hi : s.posted[i]? = some (.doTimeoutCheck false))
    (hf : s.failing t (.doTimeoutCheck false) = false) : s.runsDoClose (.run i t) = false := by
  rw [runsDoClose, hi]
  exact (congrArg (· && _) hf).trans (Bool.false_and _)

/-- **A step keeps the timer asleep; one that runs `doClose` puts it to sleep, if no successful
handler is queued.** -/
theorem step_asleep {s s' : NetConnection} {e : Event}
    (hq : Handler.doSendKeepAlive false ∉ s.posted)
    (ha : Asleep s ∨ s.runsDoClose e = true) (h : s.step e = some s') : Asleep s' := by
  have hq' : ∀ i, Handler.doSendKeepAlive false ∉ (s.dequeue i).posted :=
    fun i hm => hq (List.mem_of_mem_eraseIdx hm)
  have ha' : ∀ i, Asleep s → Asleep (s.dequeue i) := fun i ha => ⟨ha.off, hq' i⟩
  have hrest : s.runsDoClose e = false → Asleep s :=
    fun hn => ha.resolve_right fun hy => Bool.false_ne_true (hn.symm.trans hy)
  cases step_does h with
  | sendDataAsync h1 => exact (hrest rfl).sendDataAsync h1
  | sendDataSync throws =>
    unfold sendDataSync
    split
    · split
      · exact (hrest rfl).post .handleConnectionError (by simp)
      · exact hrest rfl
    · exact hrest rfl
  | close => exact (hrest rfl).post (.doClose true) (by simp)
  | removeConnection =>
    have hs := (hrest rfl).post (.doClose true) (by simp)
    exact ⟨hs.off, hs.none_queued⟩
  | readEnds err data =>
    have hs := (hrest rfl).post (.handleRecvData err data) (by simp)
    exact ⟨hs.off, hs.none_queued⟩
  | writeEnds i err =>
    have hs := (hrest rfl).post (.handleSendData err) (by simp)
    exact ⟨hs.off, hs.none_queued⟩
  | keepAliveExpires harmed =>
    rw [(hrest rfl).off] at harmed
    cases harmed
  | timeoutExpires harmed =>
    have hs := (hrest rfl).post (.doTimeoutCheck false) (by simp)
    exact ⟨hs.off, hs.none_queued⟩
  | doClose t hi => exact asleep_doClose (hq' _)
  | fails hi hf =>
    rw [runsDoClose_failing hi hf] at ha
    exact asleep_handleConnectionError (hq' _) (ha.symm.imp_right (ha' _))
  | receives hi hr =>
    have hs := hrest (by rw [runsDoClose, hi]; rfl)
    apply Asleep.recvData
    exact ⟨hs.off, hq' _⟩
  | receivesNothing t hi =>
    have hs := hrest (by rw [runsDoClose, hi]; rfl)
    apply Asleep.recvData
    exact ⟨hs.off, hq' _⟩
  | sends hi hs =>
    have hs := hrest (by rw [runsDoClose, hi]; rfl)
    exact ⟨hs.off, hq' _⟩
  | keepAliveAborted t hi => exact ha' _ (hrest (by rw [runsDoClose, hi]))
  | keepsAlive hi h1 => exact absurd (List.mem_of_getElem? hi) hq
  | timeoutAborted t hi => exact ha' _ (hrest (by rw [runsDoClose, hi]; rfl))
  | @inTime i t hi hf =>
    have hs := (ha' i (hrest (runsDoClose_inTime hi hf))).cancelTimeout
    exact ⟨hs.off, hs.none_queued⟩

/-- a failure takes down a connection that is up -/
theorem handleConnectionError_down {s : NetConnection} (hup : s.m_bConnected = true) :
    s.handleConnectionError.m_bConnected = false := by
  have h := congrArg Core.connected (handleConnectionError_core s)
  rw [if_pos hup] at h
  exact h

theorem doSendKeepAlive_connected {s s' : NetConnection} {t : Turn} {err : Bool}
    (h : s.doSendKeepAlive t err = some s') : s'.m_bConnected = s.m_bConnected := by
  unfold doSendKeepAlive at h
  split at h
  · cases h
    rfl
  · obtain ⟨s1, h1, rfl⟩ := Option.map_eq_some_iff.mp h
    apply (congrArg Core.connected (cancelKeepAlive_core s1)).trans
    split at h1
    · obtain ⟨⟨s2, b⟩, h2, rfl⟩ := Option.map_eq_some_iff.mp h1
      rcases sendDataAsync_core h2 with hs | ⟨_, _, _, r, _, hs⟩
      · exact congrArg Core.connected hs
      · exact congrArg Core.connected hs
    · cases h1
      rfl

/-- **A connection that is up goes down exactly in the steps that run `doClose`.** -/
theorem runsDoClose_iff {s s' : NetConnection} {e : Event} (hup : s.m_bConnected = true)
    (h : s.step e = some s') : s'.m_bConnected = false ↔ s.runsDoClose e = true := by
  have hstays : ∀ {x : NetConnection}, x.m_bConnected = s.m_bConnected →
      s.runsDoClose e = false → (x.m_bConnected = false ↔ s.runsDoClose e = true) := by
    intro x hx hb
    rw [hx, hup, hb]
    exact ⟨Eq.symm, Eq.symm⟩
  cases step_does h with
  | sendDataAsync h1 =>
    refine hstays ?_ rfl
    rcases sendDataAsync_core h1 with hs | ⟨_, _, _, r, _, hs⟩
    · exact congrArg Core.connected hs
    · exact congrArg Core.connected hs
  | sendDataSync throws => exact hstays (congrArg Core.connected (sendDataSync_core s throws)) rfl
  | close => exact hstays rfl rfl
  | removeConnection => exact hstays rfl rfl
  | readEnds err data => exact hstays rfl rfl
  | writeEnds i err => exact hstays rfl rfl
  | keepAliveExpires _ => exact hstays rfl rfl
  | timeoutExpires _ => exact hstays rfl rfl
  | doClose t hi =>
    exact iff_of_true (congrArg Core.connected (doClose_core _)) (by rw [runsDoClose, hi])
  | fails hi hf =>
    exact iff_of_true (handleConnectionError_down hup) ((runsDoClose_failing hi hf).trans hup)
  | receives hi hr =>
    exact hstays (congrArg Core.connected (recvData_core _ _)) (by rw [runsDoClose, hi]; rfl)
  | receivesNothing t hi =>
    exact hstays (congrArg Core.connected (recvData_core _ _)) (by rw [runsDoClose, hi]; rfl)
  | sends hi hq => exact hstays rfl (by rw [runsDoClose, hi]; rfl)
  | keepAliveAborted t hi => exact hstays rfl (by rw [runsDoClose, hi])
  | keepsAlive hi h1 =>
    have hc := doSendKeepAlive_connected h1
    exact hstays hc (by rw [runsDoClose, hi])
  | timeoutAborted t hi => exact hstays rfl (by rw [runsDoClose, hi]; rfl)
  | inTime hi hf =>
    exact hstays (congrArg Core.connected (cancelTimeout_core _)) (runsDoClose_inTime hi hf)

/-! ## from the start on -/

/-- a connection, whether `doClose` has run, and how many of the handlers that were queued when it
did are still to come (they are in front of those that were queued later) -/
structure Life where
  conn : NetConnection
  closed : Bool
  old : Nat

inductive LifeEvent where
  | start (now : Int) (readThrows : Bool)
  | event (e : Event)

namespace Life

/-- a connection that has not been started -/
def fresh (cipher : Option BaseCipher) (keepAlive timeout : Int) : Life :=
  ⟨accepted cipher keepAlive timeout, false, 0⟩

/-- the handlers of before `doClose` that are left after a step -/
def oldAfter (l : Life) (e : Event) : Nat :=
  match e with
  | .run i _ =>
    if l.closed then (if i < l.old then l.old - 1 else l.old)
    else if l.conn.runsDoClose e then l.conn.posted.length - 1 else 0
  | _ => l.old

def step (l : Life) : LifeEvent → Option Life
  | .start now readThrows => some { l with conn := l.conn.start now readThrows }
  | .event e => (l.conn.step e).map fun s =>
    ⟨s, l.closed || l.conn.runsDoClose e, l.oldAfter e⟩

/-- after `doClose`, when the handlers that were queued before it have run, the keep-alive timer is
off -/
def Quiet (l : Life) : Prop :=
  l.closed = true → l.old = 0 → l.conn.keepAliveArmed = false

instance (l : Life) : Decidable (Quiet l) := inferInstanceAs (Decidable (_ → _))

/-- `doClose` finds no successful keep-alive handler queued, and `start`, which posts one, does not
come after it -/
def Unqueued (l : Life) : LifeEvent → Prop
  | .start _ _ => l.closed = true → l.conn.m_keepAliveInterval ≤ 0
  | .event e => l.conn.runsDoClose e = true → Handler.doSendKeepAlive false ∉ l.conn.posted

instance (l : Life) : ∀ e, Decidable (Unqueued l e)
  | .start _ _ => inferInstanceAs (Decidable (_ → _))
  | .event _ => inferInstanceAs (Decidable (_ → _))

theorem asleep_start {s : NetConnection} (h : Asleep s) (hk : s.m_keepAliveInterval ≤ 0)
    (now : Int) (b : Bool) : Asleep (s.start now b) := by
  have hoff : ¬ s.m_keepAliveInterval > 0 := by omega
  unfold NetConnection.start
  apply Asleep.recvData
  dsimp only
  rw [if_neg hoff]
  split
  · exact ⟨h.off, not_mem_post h.none_queued (.doTimeoutCheck false) (by simp)⟩
  · exact ⟨h.off, h.none_queued⟩

theorem step_quiet {l l' : Life} {e : LifeEvent} (h : l.closed = true → Asleep l.conn)
    (hP : Unqueued l e) (hs : l.step e = some l') : l'.closed = true → Asleep l'.conn := by
  cases e with
  | start now b =>
    cases hs
    intro hc
    exact asleep_start (h hc) (hP hc) now b
  | event e =>
    obtain ⟨s', hs', rfl⟩ := Option.map_eq_some_iff.mp hs
    intro hc
    rcases (Bool.or_eq_true_iff.mp hc) with hcl | hcl
    · exact step_asleep (h hcl).none_queued (.inl (h hcl)) hs'
    · exact step_asleep (hP hcl) (.inr hcl) hs'

/-- **A closed connection goes quiet in every run in which `doClose` finds no successful keep-alive
handler queued and `start` does not come after it.** -/
theorem closed_is_quiet (cipher : Option BaseCipher) (keepAlive timeout : Int)
    {es : List LifeEvent} {l : Life}
    (hP : Machine.Along step Unqueued (fresh cipher keepAlive timeout) es)
    (h : Machine.run step (fresh cipher keepAlive timeout) es = some l) :
    Quiet l ∧ (l.closed = true → Handler.doSendKeepAlive false ∉ l.conn.posted) := by
  have ha : l.closed = true → Asleep l.conn := by
    refine Machine.run_inv (fun l => l.closed = true → Asleep l.conn) ?_ ?_ hP h
    · exact fun _ _ _ hI hU hs => step_quiet hI hU hs
    · exact fun hc => Bool.noConfusion hc
  exact ⟨fun hc _ => (ha hc).off, fun hc => (ha hc).none_queued⟩

/-- both timers are armed, the connection is closed, and what is queued is run -/
theorem closed_is_quiet_armed : ∃ l, Machine.run step (fresh none 5 600)
      [.start 0 false, .event (.run 0 calm), .event (.run 0 calm), .event .close,
       .event (.run 0 calm), .event (.run 0 calm), .event (.run 0 calm)] = some l ∧
    l.closed = true ∧ l.old = 0 ∧
    (Quiet l ∧ (l.closed = true → Handler.doSendKeepAlive false ∉ l.conn.posted)) := by
  have hrun : (Machine.run step (fresh none 5 600)
      [.start 0 false, .event (.run 0 calm), .event (.run 0 calm), .event .close,
       .event (.run 0 calm), .event (.run 0 calm), .event (.run 0 calm)]).any
        (fun l => decide (l.closed = true ∧ l.old = 0)) = true := by
    decide +kernel
  obtain ⟨l, h, hl⟩ := Option.any_eq_true _ _ |>.mp hrun
  obtain ⟨h1, h2⟩ := of_decide_eq_true hl
  exact ⟨l, h, h1, h2, closed_is_quiet none 5 600 (by decide +kernel) h⟩

/-- the keep-alive wait expires between the call of `close` and the run of `doClose` -/
def expiresBeforeClose : List LifeEvent :=
  [.start 0 false, .event (.run 0 calm), .event (.run 0 calm), .event .close,
   .event .keepAliveExpires, .event (.run 0 calm), .event (.run 0 calm)]

theorem closed_rearms : ∃ l, Machine.run step (fresh none 5 600) expiresBeforeClose = some l ∧
    l.conn.m_bConnected = false ∧ ¬ Quiet l := by
  have hrun : (Machine.run step (fresh none 5 600) expiresBeforeClose).any
      (fun l => decide (l.conn.m_bConnected = false ∧ ¬ Quiet l)) = true := by
    decide +kernel
  obtain ⟨l, h, hl⟩ := Option.any_eq_true _ _ |>.mp hrun
  exact ⟨l, h, of_decide_eq_true hl⟩

end Life

end Netwb.NetConnection
