import Netwb.Net.Client

/-!
# Reconnecting from the error handler

`BaseClient::onConnectionError` of `sample/BaseClient.cpp` calls `start(false)`; `start` and
`startConnectSync` of `net/NetClient.cpp` make the connect at once and call `onConnectionError`, a
virtual function, when it fails.  Nothing waits between two attempts, and the calls are nested: with
every attempt that fails there is one more.  `NetClient::onConnectionError`, which is overridden,
arms a timer instead.

`Attempt` is the outcome of one attempt; the calls of `onConnectionError` may be nested up to a depth
that is given, `none` when it is not enough.

* `unreachable_deep`       no depth is enough for attempts that fail as often;
* `reconnect_returns_iff`  the call returns if and only if some attempt succeeds.
-/

namespace Netwb

/-- one pass through the `try` of `startConnectSync` -/
inductive Attempt where
  /-- `createConnection` gives none, and the error is posted -/
  | missing
  /-- `connect` sets the error -/
  | fails
  /-- an exception before the connection is connected, with `m_connection` set before or not -/
  | throws (created : Bool)
  /-- the connection is started; an exception may follow -/
  | succeeds (now : Int) (readThrows throws : Bool)

/-- there is no attempt after it -/
def Attempt.Ends : Attempt → Prop
  | .missing => True
  | .fails => False
  | .throws _ => False
  | .succeeds _ _ _ => True

namespace NetClient

/-- `m_connection = createConnection()` -/
def create (s : NetClient) : NetClient :=
  { s with
    connections := s.connections ++ [createConnection]
    m_connection := some s.connections.length }

/-- `addConnection(m_connection)` and `m_connection->start()` for a new connection -/
def connect (s : NetClient) (now : Int) (readThrows : Bool) : NetClient :=
  s.create.update s.connections.length fun c => { c with pooled := true }.start now readThrows

section
variable (onConnectionError : NetClient → Nat → Option (NetClient × Nat))
  (attempts : Nat → Attempt)

/-- `startConnectSync` after `k` attempts -/
def startConnectSync (s : NetClient) (k : Nat) : Option (NetClient × Nat) :=
  if s.isConnected then some (s, k)
  else
    match attempts k with
    | .missing => some ({ s with m_connection := none }.post .onConnectionError, k + 1)
    | .fails => onConnectionError s.create (k + 1)
    | .throws created => onConnectionError (if created then s.create else s) (k + 1)
    | .succeeds now readThrows throws =>
      if throws then onConnectionError (s.connect now readThrows) (k + 1)
      else some (s.connect now readThrows, k + 1)

/-- `start(async)` -/
def startMode (s : NetClient) (async : Bool) (k : Nat) : Option (NetClient × Nat) :=
  if async then some (s.start, k) else startConnectSync onConnectionError attempts s k

end

end NetClient

/-- `BaseClient::onConnectionError` after `k` attempts, with its calls nested up to a depth -/
def BaseClient.onConnectionError (m_autoReConnect : Int) (attempts : Nat → Attempt) :
    Nat → NetClient → Nat → Option (NetClient × Nat)
  | 0, _, _ => none
  | depth + 1, s, k =>
    if ¬ s.isConnected ∧ m_autoReConnect ≠ 0 then
      s.startMode (BaseClient.onConnectionError m_autoReConnect attempts depth) attempts false k
    else some (s, k)

/-! ## one attempt -/

namespace NetClient

theorem create_down (s : NetClient) : s.create.isConnected = false := by
  show s.create.connectedAt s.connections.length = false
  unfold connectedAt create
  dsimp only
  rw [List.getElem?_concat_length]
  rfl

theorem connect_up (s : NetClient) (now : Int) (readThrows : Bool) :
    (s.connect now readThrows).isConnected = true := by
  show (s.connect now readThrows).connectedAt s.connections.length = true
  unfold connect
  rw [connectedAt_update]
  unfold create
  dsimp only
  rw [List.getElem?_concat_length]
  dsimp only
  rw [if_pos rfl]
  cases readThrows <;> rfl

end NetClient

open NetClient Machine

section
variable {auto : Int} (hauto : auto ≠ 0) {attempts : Nat → Attempt}
include hauto

/-- a call while the client is not connected makes an attempt -/
theorem onConnectionError_down {s : NetClient} (hs : s.isConnected = false) (depth k : Nat) :
    BaseClient.onConnectionError auto attempts (depth + 1) s k
      = match attempts k with
        | .missing => some ({ s with m_connection := none }.post .onConnectionError, k + 1)
        | .fails => BaseClient.onConnectionError auto attempts depth s.create (k + 1)
        | .throws created =>
          BaseClient.onConnectionError auto attempts depth (if created then s.create else s) (k + 1)
        | .succeeds now readThrows throws =>
          if throws then
            BaseClient.onConnectionError auto attempts depth (s.connect now readThrows) (k + 1)
          else some (s.connect now readThrows, k + 1) := by
  have hcond : ¬ s.isConnected = true ∧ auto ≠ 0 :=
    ⟨by rw [hs]; exact Bool.false_ne_true, hauto⟩
  rw [BaseClient.onConnectionError, if_pos hcond, startMode, if_neg Bool.false_ne_true,
    startConnectSync, if_neg hcond.1]

omit hauto in
theorem onConnectionError_up {s : NetClient} (hs : s.isConnected = true) (depth k : Nat) :
    BaseClient.onConnectionError auto attempts (depth + 1) s k = some (s, k) := by
  rw [BaseClient.onConnectionError, if_neg fun h => h.1 hs]

/-- **An attempt that fails is followed by the next one, one call deeper.** -/
theorem onConnectionError_deeper {s : NetClient} (hs : s.isConnected = false) {k : Nat}
    (hk : ¬ (attempts k).Ends) : ∃ s', s'.isConnected = false ∧ ∀ depth,
      BaseClient.onConnectionError auto attempts (depth + 1) s k
        = BaseClient.onConnectionError auto attempts depth s' (k + 1) := by
  cases ha : attempts k with
  | missing =>
    rw [ha] at hk
    exact absurd trivial hk
  | fails =>
    refine ⟨s.create, create_down s, fun depth => ?_⟩
    rw [onConnectionError_down hauto hs, ha]
  | throws created =>
    refine ⟨if created then s.create else s, ?_, fun depth => ?_⟩
    · cases created with
      | false => exact hs
      | true => exact create_down s
    · rw [onConnectionError_down hauto hs, ha]
  | succeeds now readThrows throws =>
    rw [ha] at hk
    exact absurd trivial hk

/-- an attempt that does not fail ends the calls -/
theorem onConnectionError_ends {s : NetClient} (hs : s.isConnected = false) {k : Nat}
    (hk : (attempts k).Ends) : ∃ s', ∀ depth,
      BaseClient.onConnectionError auto attempts (depth + 2) s k = some (s', k + 1) := by
  cases ha : attempts k with
  | missing =>
    refine ⟨{ s with m_connection := none }.post .onConnectionError, fun depth => ?_⟩
    rw [onConnectionError_down hauto hs, ha]
  | fails =>
    rw [ha] at hk
    exact hk.elim
  | throws created =>
    rw [ha] at hk
    exact hk.elim
  | succeeds now readThrows throws =>
    refine ⟨s.connect now readThrows, fun depth => ?_⟩
    rw [onConnectionError_down hauto hs, ha]
    dsimp only
    split
    · exact onConnectionError_up (connect_up s now readThrows) depth (k + 1)
    · rfl

/-! ## all attempts -/

/-- **No depth is enough for attempts that fail as often.** -/
theorem unreachable_deep (depth : Nat) : ∀ {s : NetClient} {k : Nat}, s.isConnected = false →
    (∀ j < depth, ¬ (attempts (k + j)).Ends) →
    BaseClient.onConnectionError auto attempts depth s k = none := by
  induction depth with
  | zero => exact fun _ _ => rfl
  | succ depth ih =>
    intro s k hs hfail
    obtain ⟨s', hs', hnext⟩ := onConnectionError_deeper hauto hs (k := k)
      (hfail 0 (Nat.succ_pos depth))
    rw [hnext]
    refine ih hs' fun j hj => ?_
    rw [Nat.add_assoc, Nat.add_comm 1]
    exact hfail (j + 1) (by omega)

/-- the first attempt that does not fail is the last one -/
theorem reached_after (n : Nat) : ∀ {s : NetClient} {k : Nat}, s.isConnected = false →
    (∀ j < n, ¬ (attempts (k + j)).Ends) → (attempts (k + n)).Ends →
    ∃ s', ∀ depth, n + 2 ≤ depth →
      BaseClient.onConnectionError auto attempts depth s k = some (s', k + n + 1) := by
  induction n with
  | zero =>
    intro s k hs _ hend
    obtain ⟨s', h⟩ := onConnectionError_ends hauto hs hend
    refine ⟨s', fun depth hd => ?_⟩
    obtain ⟨m, rfl⟩ : ∃ m, depth = m + 2 := ⟨depth - 2, by omega⟩
    exact h m
  | succ n ih =>
    intro s k hs hfail hend
    obtain ⟨s1, hs1, hnext⟩ := onConnectionError_deeper hauto hs (k := k)
      (hfail 0 (Nat.succ_pos n))
    have hshift : ∀ j, k + 1 + j = k + (j + 1) := fun j => by omega
    obtain ⟨s', h⟩ := ih hs1
      (fun j hj => by rw [hshift]; exact hfail (j + 1) (by omega)) (by rw [hshift]; exact hend)
    refine ⟨s', fun depth hd => ?_⟩
    obtain ⟨m, rfl⟩ : ∃ m, depth = m + 1 := ⟨depth - 1, by omega⟩
    rw [hnext, h m (by omega), hshift n]

/-- **With auto-reconnect the call returns if and only if the client is connected, or some attempt
does not fail.** -/
theorem reconnect_returns_iff (attempts : Nat → Attempt) (s : NetClient) :
    (∃ r, Comes (fun depth => BaseClient.onConnectionError auto attempts depth s 0) r) ↔
      s.isConnected = true ∨ ∃ k, (attempts k).Ends := by
  cases hs : s.isConnected with
  | true =>
    refine iff_of_true ⟨(s, 0), 1, fun depth hd => ?_⟩ (.inl rfl)
    obtain ⟨m, rfl⟩ : ∃ m, depth = m + 1 := ⟨depth - 1, by omega⟩
    exact onConnectionError_up hs m 0
  | false =>
    constructor
    · rintro ⟨r, n, hn⟩
      refine .inr ?_
      by_contra hfail
      have hnone : BaseClient.onConnectionError auto attempts n s 0 = none :=
        unreachable_deep hauto n hs fun j _ he => hfail ⟨0 + j, he⟩
      have hsome := (hn n (Nat.le_refl n)).symm.trans hnone
      cases hsome
    · rintro (h | hend)
      · cases h
      · classical
        obtain ⟨s', h⟩ := reached_after hauto (Nat.find hend) (k := 0) hs
          (fun j hj => by rw [Nat.zero_add]; exact Nat.find_min hend hj)
          (by rw [Nat.zero_add]; exact Nat.find_spec hend)
        exact ⟨_, _, h⟩

end

/-- the third attempt succeeds -/
theorem reconnect_third : ∃ r, Comes (fun depth => BaseClient.onConnectionError 1
    (fun k => if k < 2 then .fails else .succeeds 0 false false) depth .init 0) r :=
  (reconnect_returns_iff (by decide) _ .init).mpr (.inr ⟨2, trivial⟩)

/-- a server that stays unreachable -/
theorem reconnect_never : NetClient.init.isConnected = false ∧
    ¬ ∃ r, Comes (fun depth => BaseClient.onConnectionError 1 (fun _ => .fails) depth .init 0) r := by
  refine ⟨rfl, ?_⟩
  rintro ⟨r, n, hn⟩
  have hnone : BaseClient.onConnectionError 1 (fun _ => .fails) n .init 0 = none :=
    unreachable_deep (by decide) n rfl fun _ _ => id
  have hsome := (hn n (Nat.le_refl n)).symm.trans hnone
  cases hsome

end Netwb
