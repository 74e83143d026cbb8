import Netwb.Lib.Tokens
import Netwb.Net.Proxy

/-!
# The connects of a socket

`async_connect` of `CommonSocket` and of `SSLSocket` (`net/NetSocket.cpp`) with all that it starts:
a name is resolved, or an address connected to, and over TLS a handshake follows; through a proxy
the first part is done by `passProxy` at once.  Each of these ends at some time with some error
code, and the callback is called on one of many paths.

* `step_sound`          no step leaves two operations, or calls the callback beside one;
* `connects_report_iff` so the callback is called once, with a clear error code exactly when the
                        server was reached and, over TLS, the handshake succeeded, unless one of the
                        two replies comes whose error code `passProxy` loses.
-/

namespace Netwb
open Wire Machine

/-- `boost::asio::error::operation_aborted` -/
def operation_aborted : error_code := 125

/-- what the first call of the asynchronous part comes to: it begins, or throws -/
inductive Beginning where
  | begins
  /-- an error code is thrown, which is not clear -/
  | code (error : error_code) (h : error ≠ 0)
  | other

/-- the asynchronous operations of a connect -/
inductive ConnectOp where
  | async_resolve
  | async_connect
  | async_handshake
deriving DecidableEq, Repr

structure NetSocket where
  /-- an `SSLSocket` -/
  ssl : Bool
  /-- the operations that have not ended -/
  pending : List ConnectOp
  /-- what the callback was called with -/
  reports : List error_code
  /-- whether the server was reached, and the handshake has succeeded -/
  reached : Bool
  shaken : Bool
  /-- whether the socket was closed after the handshake -/
  closed : Bool
deriving DecidableEq, Repr

namespace NetSocket

def make (ssl : Bool) : NetSocket := ⟨ssl, [], [], false, false, false⟩

def initiate (s : NetSocket) (op : ConnectOp) : NetSocket := { s with pending := s.pending ++ [op] }

/-- `callback(error)` -/
def callback (s : NetSocket) (error : error_code) : NetSocket :=
  { s with reports := s.reports ++ [error] }

def doAfterConnect (s : NetSocket) : NetSocket := s.initiate .async_handshake

/-- the branch of `async_connect` that is taken with a proxy -/
def throughProxy (s : NetSocket) (r : PROXY_CONNECT_STATUS × error_code) : NetSocket :=
  match r with
  | (.OK, error) =>
    let s := { s with reached := true }
    if s.ssl then s.doAfterConnect else s.callback error
  | (.TIMTOUT_ERROR, _) => s.callback timed_out
  | (_, error) => s.callback error

def async_connect (s : NetSocket) (host : Host) (peer : Peer) (info : ProxyInfo)
    (serverIp : ByteArray) (port : Int) (b : Beginning) : NetSocket :=
  if info.isEnabled then
    s.throughProxy (passProxy host peer info (CommonSocket.address serverIp port))
  else
    match b with
    | .begins => s.initiate (if s.ssl then .async_connect else .async_resolve)
    | .code error _ => s.callback error
    | .other => s.callback operation_aborted

def on_resolve_handler (s : NetSocket) (error : error_code) : NetSocket :=
  if error = 0 then s.initiate .async_connect else s.callback error

/-- `SSLSocket::handleConnect`; a `CommonSocket` binds the callback itself -/
def handleConnect (s : NetSocket) (error : error_code) : NetSocket :=
  let s := { s with reached := decide (error = 0) }
  if s.ssl then (if error = 0 then s.doAfterConnect else s.callback error) else s.callback error

def handleShake (s : NetSocket) (error : error_code) : NetSocket :=
  let s := if error ≠ 0 then { s with closed := true } else { s with shaken := true }
  s.callback error

def handle (s : NetSocket) (error : error_code) : ConnectOp → NetSocket
  | .async_resolve => s.on_resolve_handler error
  | .async_connect => s.handleConnect error
  | .async_handshake => s.handleShake error

/-- the `i`-th operation ends with an error code, and its handler runs -/
def step (s : NetSocket) : Nat × error_code → Option NetSocket
  | (i, error) => s.pending[i]?.map fun op =>
    { s with pending := s.pending.eraseIdx i }.handle error op

/-- the `error` argument after `connect`, with what the handshake comes to; an address text that is
none is answered by an exception -/
def connect (ssl : Bool) (host : Host) (peer : Peer) (info : ProxyInfo) (serverIp : ByteArray)
    (port : Int) (handshake : error_code) : Option error_code :=
  if host.isAddress serverIp then
    let (pstat, error) := passProxy host peer info (CommonSocket.address serverIp port)
    if pstat = .OK then some (if ssl then handshake else error)
    else if pstat = .TIMTOUT_ERROR then some timed_out
    else some error
  else none

/-- the server was reached and, over TLS, the handshake has succeeded -/
def Connected (s : NetSocket) : Prop := s.reached = true ∧ (s.ssl = true → s.shaken = true)

/-- what a connect has come to so far: it has one operation pending, or has called the callback
once; with a clear error code exactly when it is connected; and a socket that has failed in the
handshake was closed before -/
structure Reports (s : NetSocket) : Prop where
  once : s.pending.length + s.reports.length = 1
  success : 0 ∈ s.reports ↔ s.Connected
  closes : s.reached = true → s.pending = [] → s.Connected ∨ s.closed = true

/-! ## a step -/

/-- one operation is pending, and the rest is as it was before it -/
inductive Waits (s : NetSocket) : ConnectOp → Prop
  | resolve (hr : s.reached = false) (hs : s.shaken = false) : Waits s .async_resolve
  | connect (hr : s.reached = false) (hs : s.shaken = false) : Waits s .async_connect
  | handshake (hl : s.ssl = true) (hr : s.reached = true) (hs : s.shaken = false) :
    Waits s .async_handshake

/-- what every state of a connect is like -/
inductive Sound (s : NetSocket) : Prop
  | waits (op : ConnectOp) (hp : s.pending = [op]) (hr : s.reports = []) (hw : s.Waits op)
  | fails (hp : s.pending = []) (error : error_code) (hr : s.reports = [error]) (he : error ≠ 0)
    (hc : ¬ s.Connected) (hs : s.reached = true → s.closed = true)
  | succeeds (hp : s.pending = []) (hr : s.reports = [0]) (hc : s.Connected)

theorem Waits.not_connected {s : NetSocket} {op : ConnectOp} (h : s.Waits op) : ¬ s.Connected := by
  rintro ⟨hr, hs⟩
  cases h with
  | resolve h0 _ => exact absurd (h0.symm.trans hr) (by decide)
  | connect h0 _ => exact absurd (h0.symm.trans hr) (by decide)
  | handshake hl _ h0 => exact absurd (h0.symm.trans (hs hl)) (by decide)

theorem Sound.reports {s : NetSocket} (h : s.Sound) : s.Reports := by
  cases h with
  | waits op hp hr hw =>
    refine ⟨by rw [hp, hr]; rfl, iff_of_false ?_ hw.not_connected, fun _ hn => ?_⟩
    · rw [hr]
      exact List.not_mem_nil
    · rw [hp] at hn
      cases hn
  | fails hp error hr he hc hs =>
    refine ⟨by rw [hp, hr]; rfl, iff_of_false ?_ hc, fun h1 _ => .inr (hs h1)⟩
    rw [hr, List.mem_singleton]
    exact Ne.symm he
  | succeeds hp hr hc =>
    refine ⟨by rw [hp, hr]; rfl, iff_of_true ?_ hc, fun _ _ => .inl hc⟩
    rw [hr]
    exact List.mem_singleton.mpr rfl

/-- a socket on which nothing is pending, and whose callback has not been called -/
structure Idle (s : NetSocket) : Prop where
  pending : s.pending = []
  reports : s.reports = []

theorem Idle.initiate {s : NetSocket} (h : s.Idle) {op : ConnectOp} (hw : s.Waits op) :
    (s.initiate op).Sound := by
  refine .waits op ?_ h.reports ?_
  · show s.pending ++ [op] = [op]
    rw [h.pending]
    rfl
  · cases hw with
    | resolve hr hs => exact .resolve hr hs
    | connect hr hs => exact .connect hr hs
    | handshake hl hr hs => exact .handshake hl hr hs

theorem Idle.fails {s : NetSocket} (h : s.Idle) {error : error_code} (he : error ≠ 0)
    (hc : ¬ s.Connected) (hs : s.reached = true → s.closed = true) : (s.callback error).Sound := by
  refine .fails h.pending error ?_ he hc hs
  show s.reports ++ [error] = [error]
  rw [h.reports]
  rfl

theorem Idle.succeeds {s : NetSocket} (h : s.Idle) (hc : s.Connected) : (s.callback 0).Sound := by
  refine .succeeds h.pending ?_ hc
  show s.reports ++ [0] = [0]
  rw [h.reports]
  rfl

theorem handleConnect_sound {s : NetSocket} (h : s.Idle) (hs : s.shaken = false)
    (error : error_code) : (s.handleConnect error).Sound := by
  have h' : ({ s with reached := decide (error = 0) } : NetSocket).Idle := ⟨h.pending, h.reports⟩
  unfold handleConnect
  dsimp only
  by_cases he : error = 0
  · have hreached : decide (error = 0) = true := decide_eq_true he
    split
    · rename_i hl
      exact h'.initiate (.handshake hl hreached hs)
    · rename_i hl
      subst he
      exact h'.succeeds ⟨hreached, fun hl' => absurd hl' hl⟩
  · have hmissed : decide (error = 0) = false := decide_eq_false he
    have hfails : (({ s with reached := decide (error = 0) } : NetSocket).callback error).Sound :=
      h'.fails he (fun hc => absurd (hmissed.symm.trans hc.1) (by decide)) fun hr =>
        absurd (hmissed.symm.trans hr) (by decide)
    split <;> exact hfails

theorem handleShake_sound {s : NetSocket} (h : s.Idle) (hl : s.ssl = true)
    (hr : s.reached = true) (hs : s.shaken = false) (error : error_code) :
    (s.handleShake error).Sound := by
  unfold handleShake
  dsimp only
  split
  · rename_i he
    have h' : ({ s with closed := true } : NetSocket).Idle := ⟨h.pending, h.reports⟩
    exact h'.fails he (fun hc => absurd (hs.symm.trans (hc.2 hl)) (by decide)) fun _ => rfl
  · rename_i he
    have h' : ({ s with shaken := true } : NetSocket).Idle := ⟨h.pending, h.reports⟩
    rw [not_not.mp he]
    exact h'.succeeds ⟨hr, fun _ => rfl⟩

theorem step_sound {s s' : NetSocket} {e : Nat × error_code} (h : s.Sound)
    (hs : s.step e = some s') : s'.Sound := by
  obtain ⟨i, error⟩ := e
  obtain ⟨op, hi, rfl⟩ := Option.map_eq_some_iff.mp hs
  cases h with
  | waits op' hp hr hw =>
    -- the operation that has ended is the only one
    have hperm := perm_dequeue hi
    rw [hp] at hperm hi
    have hlen := length_dequeue hi
    have hnone : [op'].eraseIdx i = [] := List.length_eq_zero_iff.mp (Nat.succ.inj hlen)
    have hop : op = op' := List.mem_singleton.mp (hperm.mem_iff.mp (List.mem_cons_self ..))
    subst hop
    have h0 : ({ s with pending := s.pending.eraseIdx i } : NetSocket).Idle := by
      refine ⟨?_, hr⟩
      show s.pending.eraseIdx i = []
      rw [hp]
      exact hnone
    cases hw with
    | resolve hr hshaken =>
      show (on_resolve_handler _ error).Sound
      unfold on_resolve_handler
      split
      · exact h0.initiate (.connect hr hshaken)
      · rename_i he
        exact h0.fails he (fun hc => absurd (hr.symm.trans hc.1) (by decide)) fun hr' =>
          absurd (hr.symm.trans hr') (by decide)
    | connect hr hshaken => exact handleConnect_sound h0 hshaken error
    | handshake hl hr hshaken => exact handleShake_sound h0 hl hr hshaken error
  | fails hp error hr he hc hs =>
    rw [hp] at hi
    cases hi
  | succeeds hp hr hc =>
    rw [hp] at hi
    cases hi

/-! ## runs -/

section
variable (ssl : Bool) (host : Host) (peer : Peer) (info : ProxyInfo) (serverIp : ByteArray)
  (port : Int)

theorem throughProxy_sound {r : PROXY_CONNECT_STATUS × error_code} (h : Agrees r) :
    ((make ssl).throughProxy r).Sound := by
  have h0 : (make ssl).Idle := ⟨rfl, rfl⟩
  have hmissed : ¬ (make ssl).Connected := fun hc => Bool.noConfusion hc.1
  have hclosed : (make ssl).reached = true → (make ssl).closed = true := Bool.noConfusion
  obtain ⟨st, error⟩ := r
  by_cases hok : st = .OK
  · subst hok
    have he : error = 0 := h.mpr rfl
    have h1 : ({ make ssl with reached := true } : NetSocket).Idle := ⟨rfl, rfl⟩
    unfold throughProxy
    dsimp only
    split
    · rename_i hl
      exact h1.initiate (.handshake hl rfl rfl)
    · rename_i hl
      rw [he]
      exact h1.succeeds ⟨rfl, fun hl' => absurd hl' hl⟩
  · by_cases ht : st = .TIMTOUT_ERROR
    · subst ht
      exact h0.fails (by decide) hmissed hclosed
    · -- the error code is the one of `passProxy`, which is not clear
      have he : error ≠ 0 := fun he => by
        refine hok (h.mp ?_)
        rw [reported, if_neg ht]
        exact he
      have hr : (make ssl).throughProxy (st, error) = (make ssl).callback error := by
        cases st <;> first | rfl | exact absurd rfl hok | exact absurd rfl ht
      rw [hr]
      exact h0.fails he hmissed hclosed

theorem async_connect_sound (b : Beginning)
    (h : ¬ Hidden host peer info (CommonSocket.address serverIp port)) :
    ((make ssl).async_connect host peer info serverIp port b).Sound := by
  have h0 : (make ssl).Idle := ⟨rfl, rfl⟩
  have hmissed : ¬ (make ssl).Connected := fun hc => Bool.noConfusion hc.1
  have hclosed : (make ssl).reached = true → (make ssl).closed = true := Bool.noConfusion
  unfold async_connect
  split
  · exact throughProxy_sound ssl ((passProxy_agrees host peer info _).mpr h)
  · cases b with
    | begins =>
      refine h0.initiate ?_
      cases ssl
      · exact .resolve rfl rfl
      · exact .connect rfl rfl
    | code error he => exact h0.fails he hmissed hclosed
    | other => exact h0.fails (by decide) hmissed hclosed

/-- the error code of the two replies is lost -/
theorem hidden_clear {addr : ByteArray} (h : Hidden host peer info addr) :
    ∃ st, st ≠ .OK ∧ st ≠ .TIMTOUT_ERROR ∧ passProxy host peer info addr = (st, 0) := by
  rcases h with ⟨ht, ⟨hc, hw, hready, hread⟩, hb⟩ | ⟨ht, ⟨hc, hw, hready, hread⟩, hb⟩
  · refine ⟨.ENDPOINT_ERROR, by decide, by decide, ?_⟩
    unfold passProxy
    rw [ht]
    show sock4Proxy host peer info addr = _
    unfold sock4Proxy
    simp only [hc, hw, hready, hread, Bool.not_true, Bool.false_eq_true, if_false, ne_eq,
      not_true_eq_false]
    exact if_pos hb
  · refine ⟨.PROXY_ERROR, by decide, by decide, ?_⟩
    unfold passProxy
    rw [ht]
    show sock5Proxy host peer info addr = _
    unfold sock5Proxy
    simp only [hc, hw, hready, hread, Bool.not_true, Bool.false_eq_true, if_false, ne_eq,
      not_true_eq_false]
    exact if_pos hb

/-- a lost error code is taken for a success -/
theorem hidden_reports (b : Beginning)
    (h : Hidden host peer info (CommonSocket.address serverIp port)) :
    ¬ ((make ssl).async_connect host peer info serverIp port b).Reports := by
  have he : info.isEnabled = true := by
    rcases h with ⟨ht, -⟩ | ⟨ht, -⟩ <;>
    · rw [ProxyInfo.isEnabled, ht]
      rfl
  obtain ⟨st, hok, htime, hr⟩ := hidden_clear host peer info h
  have hcall : (make ssl).throughProxy (st, 0) = (make ssl).callback 0 := by
    cases st <;> first | rfl | exact absurd rfl hok | exact absurd rfl htime
  unfold async_connect
  rw [if_pos he, hr, hcall]
  intro hreports
  have hconnected := hreports.success.mp (List.mem_append_right _ (List.mem_singleton.mpr rfl))
  exact Bool.noConfusion hconnected.1

/-- a connect that is waited for tells by its error code whether it has succeeded -/
theorem connect_tells {handshake e : error_code}
    (h : ¬ Hidden host peer info (CommonSocket.address serverIp port))
    (he : connect ssl host peer info serverIp port handshake = some e) :
    e = 0 ↔ (passProxy host peer info (CommonSocket.address serverIp port)).1 = .OK ∧
      (ssl = true → handshake = 0) := by
  have hagrees := (passProxy_agrees host peer info _).mpr h
  unfold connect at he
  split at he
  · generalize passProxy host peer info (CommonSocket.address serverIp port) = r at hagrees he ⊢
    obtain ⟨st, error⟩ := r
    dsimp only at he ⊢
    by_cases hok : st = .OK
    · subst hok
      have herror : error = 0 := hagrees.mpr rfl
      rw [if_pos rfl] at he
      cases he
      cases ssl with
      | true => exact ⟨fun h0 => ⟨rfl, fun _ => h0⟩, fun h0 => h0.2 rfl⟩
      | false => exact ⟨fun _ => ⟨rfl, Bool.noConfusion⟩, fun _ => herror⟩
    · refine iff_of_false (fun h0 => hok (hagrees.mp ?_)) fun h0 => hok h0.1
      rw [if_neg hok] at he
      unfold reported
      split at he
      · rename_i ht
        rw [if_pos ht]
        cases he
        exact h0
      · rename_i ht
        rw [if_neg ht]
        cases he
        exact h0
  · cases he

end

end NetSocket

end Netwb
