import Netwb.Net.Flight
import Netwb.Sample.RemoteRuns

/-!
# Remote calls over two connections

The client and the server of `Remote`, each with its connection.  A message is handed to `sendData`
at one end, becomes bytes that are written and read in pieces of any size, and comes out of the
parser at the other end as a package, which is worked on in its turn.  Timers, keep-alive messages,
failures and closes happen in between as they do to any connection.

Messages in flight are a bag (`Link.Flight`), and so is what is on its way in `Remote`.

* `step_followed`  each step is followed by one of `Remote`, or nothing happens to the client and the
                   server.
-/

namespace Netwb
open Wire Machine

structure Wired (φ : Type) where
  link : Link
  /-- the client and the server, with the messages that they have made and not yet sent -/
  app : Remote φ
  /-- how many of the packages that were handed over a side has worked on -/
  worked : Side → Nat

namespace Wired
variable {φ : Type}

inductive Event (φ : Type) where
  /-- something happens to the connections, or between them, that is no send -/
  | link (e : LinkEvent)
  /-- one side does something that needs no message -/
  | app (e : Remote.Event φ)
  /-- call `i` hands its request to `sendData` -/
  | sendData (i : Nat) (z : Deflate) (c : Choice)
  /-- a side hands the `k`-th of its other messages to `sendData` -/
  | sends (side : Side) (k : Nat) (c : Choice)
  /-- the server works on the next package that was handed over -/
  | arrives (fuel : Nat) (behind : ByteArray)
  /-- the client does -/
  | onPackageReceived (fuel : Nat) (behind behind' : ByteArray)

def isSend : LinkEvent → Bool
  | .acts _ (.sendDataAsync ..) => true
  | _ => false

/-- `_stat` or `_test` is called, a callback is filed, or the server works -/
def isOwn : Remote.Event φ → Bool
  | ._stat .. => true
  | ._test _ => true
  | .register _ => true
  | .server _ => true
  | _ => false

/-- the messages that a side has made -/
def made (app : Remote φ) : Side → List ByteArray
  | .client => app.toServer.map Message.bytes
  | .server => app.toClient.map Output.bytes

/-- all but the `k`-th of them -/
def without (app : Remote φ) (k : Nat) : Side → Remote φ
  | .client => { app with toServer := app.toServer.eraseIdx k }
  | .server => { app with toClient := app.toClient.eraseIdx k }

/-- the next package for a side to work on -/
def next (s : Wired φ) (side : Side) : Option NetPackage :=
  (s.link.ends side).received[s.worked side]?

/-- a side has worked on its next package -/
def works (s : Wired φ) (side : Side) (app : Remote φ) : Wired φ :=
  { s with app, worked := Function.update s.worked side (s.worked side + 1) }

def started (keepAlive timeout now : Side → Int) (b : Side → Bool) : Wired φ :=
  ⟨Link.started keepAlive timeout now b, Remote.start, fun _ => 0⟩

section
variable (w : Platform) (j : Json)

def step (s : Wired φ) : Event φ → Option (Wired φ)
  | .link e => if isSend e then none else (s.link.step e).map fun link => { s with link }
  | .app e => if isOwn e then (s.app.step w j e).map fun app => { s with app } else none
  | .sendData i z c =>
    (s.app.calls[i]?).bind fun call =>
      (s.link.sendData .client c (Remote.carries w.order z call.req call.seq)).bind fun r =>
        (s.app.step w j (.sendData i z r.2)).map fun app =>
          { s with link := r.1, app := { app with toServer := s.app.toServer } }
  | .sends side k c =>
    ((made s.app side)[k]?).bind fun data =>
      (s.link.sendData side c data).map fun r =>
        { s with link := r.1, app := without s.app k side }
  | .arrives fuel behind =>
    (s.next .server).bind fun pkg =>
      (s.app.serves w j (.onPackageReceived fuel behind pkg.m_pkgHeader pkg.m_pkgContent 0)).map
        (s.works .server)
  | .onPackageReceived fuel behind behind' =>
    (s.next .client).bind fun pkg =>
      (BaseClient.decode w fuel s.app.m_compressType pkg.m_pkgHeader pkg.m_pkgContent).map fun r =>
        s.works .client ({ s.app with m_compressType := r.1 }.onContent w j behind behind'
          pkg.m_pkgHeader r.2)

/-! ## conditions on the steps -/

/-- a message that is not too long to be taken for a package is not sent behind a hole -/
def Sendable (s : Link) (side : Side) (c : Choice) (data : ByteArray) : Prop :=
  data.length ≤ NET_PACKAGE_INVALID_LENGTH ∧
    NetConnection.NoHole (s.ends side) (.sendDataAsync data data.length c)

instance (s : Link) (side : Side) (c : Choice) (data : ByteArray) :
    Decidable (Sendable s side c data) := inferInstanceAs (Decidable (_ ∧ _))

/-- the handlers of packages return normally, nothing is accepted behind a rejected send that has
thrown bytes away, and the rest is as `Remote.Fair` says -/
def Fair (s : Wired φ) : Event φ → Prop
  | .link e => ∀ r, Link.Undisturbed r s.link e
  | .app e => Remote.Fair w j s.app e
  | .sendData i z c => Undoes w.inflate z ∧ ∀ call ∈ s.app.calls[i]?,
    Sendable s.link .client c (Remote.carries w.order z call.req call.seq)
  | .sends side k c => ∀ data ∈ (made s.app side)[k]?, Sendable s.link side c data
  | .arrives _ behind => Remote.EndsThere behind
  | .onPackageReceived _ behind _ => Remote.EndsThere behind

/-- `sendData` answers `ok` for the request of a call -/
def Answers (s : Wired φ) (z : Deflate) (c : Choice) (call : Remote.Call) (ok : Bool) : Prop :=
  (s.link.sendData .client c (Remote.carries w.order z call.req call.seq)).map Prod.snd = some ok

instance (s : Wired φ) (z : Deflate) (c : Choice) (call : Remote.Call) (ok : Bool) :
    Decidable (s.Answers w z c call ok) := inferInstanceAs (Decidable (_ = _))

/-- the number that is sent has 36 bits -/
def Narrows (s : Wired φ) : Event φ → Prop
  | .sendData i z c => ∀ call ∈ s.app.calls[i]?, s.Answers w z c call true → Narrow call.seq
  | _ => True

/-- a request is sent, and its number has 36 bits; the response that is worked on finds its callback
filed -/
def InTime (s : Wired φ) : Event φ → Prop
  | .sendData i z c => ∀ call ∈ s.app.calls[i]?, s.Answers w z c call true ∧ Narrow call.seq
  | .onPackageReceived _ _ _ => ∀ pkg ∈ s.next .client, pkg.m_pkgHeader.m_cmd = NET_CMD_RPC →
    ∀ c ∈ s.app.calls, c.phase = .sent → c.seq ≠ pkg.m_pkgHeader.m_seq.toInt
  | _ => True

/-- the callback of a request that `sendData` refuses -/
def refused (s : Wired φ) : Event φ → List CallBack
  | .sendData i z c => ((s.app.calls[i]?).toList.filter fun call =>
    decide (s.Answers w z c call false)).map Remote.Call.cb
  | _ => []

/-- a response or a keep-alive message is not rejected -/
def Taken (s : Wired φ) : Event φ → Prop
  | .sends side k c => ∀ data ∈ (made s.app side)[k]?, ∀ r ∈ s.link.sendData side c data, r.2 = true
  | _ => True

end

/-! ## the messages on their way -/

/-- the client and the server, with other messages -/
def carrying (app : Remote φ) (toServer : List Message) (toClient : List Output) : Remote φ :=
  { app with toServer, toClient }

/-- these messages are on their way to an end: made and not sent, or in flight -/
def Way (p : Prop) (s : Wired φ) (r : Side) (ms : List ByteArray) : Prop :=
  ∃ fs, Link.Flight p r s.link (s.worked r) fs ∧ ms.Perm (made s.app r.other ++ fs)

/-- the same client and server, with the messages on their way -/
inductive Rel (p : Prop) (s : Wired φ) : Remote φ → Prop
  | mk (toServer : List Message) (toClient : List Output)
    (hs : Way p s .server (toServer.map Message.bytes))
    (hc : Way p s .client (toClient.map Output.bytes)) : Rel p s (carrying s.app toServer toClient)

section
variable {p : Prop} {w : Platform} {j : Json}

theorem rel_started (keepAlive timeout now : Side → Int) (b : Side → Bool) :
    Rel p (started keepAlive timeout now b : Wired φ) Remote.start :=
  .mk [] [] ⟨[], Link.flight_started keepAlive timeout now b, .refl _⟩
    ⟨[], Link.flight_started keepAlive timeout now b, .refl _⟩

/-! ### the same step with other messages -/

theorem serves_carrying {app app' : Remote φ} {e : ServiceEvent φ} (h : app.serves w j e = some app') :
    ∃ outs, app'.toServer = app.toServer ∧ app'.toClient = app.toClient ++ outs ∧
      ∀ ms os, (carrying app ms os).serves w j e = some (carrying app' ms (os ++ outs)) := by
  obtain ⟨server, hstep, rfl⟩ := Option.map_eq_some_iff.mp h
  refine ⟨_, rfl, rfl, fun ms os => ?_⟩
  show (app.server.step w j e).map _ = _
  rw [hstep]
  rfl

theorem content_carrying (app : Remote φ) (behind behind' : ByteArray) (header : NetPackageHeader)
    (d : Decoded) : ∃ ms', (app.onContent w j behind behind' header d).toServer = app.toServer ++ ms' ∧
      (app.onContent w j behind behind' header d).toClient = app.toClient ∧
      ∀ ms os, (carrying app ms os).onContent w j behind behind' header d
        = carrying (app.onContent w j behind behind' header d) (ms ++ ms') os := by
  have hnone : ∀ (app : Remote φ) ms os, carrying app ms os = carrying app (ms ++ []) os :=
    fun app ms os => by rw [List.append_nil]
  cases d with
  | dropped => exact ⟨[], (List.append_nil _).symm, rfl, hnone app⟩
  | threw => exact ⟨[], (List.append_nil _).symm, rfl, hnone app⟩
  | data tmpData =>
    simp only [Remote.onContent]
    split
    · refine ⟨[], (List.append_nil _).symm, rfl, fun ms os => ?_⟩
      rw [List.append_nil]
      exact rfl
    · split
      · exact ⟨_, rfl, rfl, fun ms os => rfl⟩
      · exact ⟨[], (List.append_nil _).symm, rfl, hnone app⟩

theorem own_carrying {app app' : Remote φ} {e : Remote.Event φ} (he : isOwn e = true)
    (h : app.step w j e = some app') :
    ∃ outs, app'.toServer = app.toServer ∧ app'.toClient = app.toClient ++ outs ∧
      ∀ ms os, (carrying app ms os).step w j e = some (carrying app' ms (os ++ outs)) := by
  cases e with
  | _stat behind behind' UpdateEvents CreditEvents =>
    obtain ⟨pts, hpts, h⟩ := Option.bind_eq_some_iff.mp h
    obtain ⟨⟨client, seq⟩, hseq, rfl⟩ := Option.map_eq_some_iff.mp h
    refine ⟨[], rfl, (List.append_nil _).symm, fun ms os => ?_⟩
    rw [Remote.step, hpts, List.append_nil]
    show (app.client.genSeq).map _ = _
    rw [hseq]
    rfl
  | _test id =>
    obtain ⟨⟨client, seq⟩, hseq, rfl⟩ := Option.map_eq_some_iff.mp h
    refine ⟨[], rfl, (List.append_nil _).symm, fun ms os => ?_⟩
    rw [List.append_nil]
    show (app.client.genSeq).map _ = _
    rw [hseq]
    rfl
  | register i =>
    rw [Remote.step] at h
    split at h
    · rename_i seq cb req hi
      cases h
      refine ⟨[], rfl, (List.append_nil _).symm, fun ms os => ?_⟩
      have hi : (carrying app ms os).calls[i]? = some ⟨seq, cb, req, .sent⟩ := hi
      rw [Remote.step, hi, List.append_nil]
      rfl
    · cases h
  | server e =>
    rw [Remote.step] at h
    split at h
    · cases h
    · rename_i hown
      obtain ⟨outs, hs, hc, hcarry⟩ := serves_carrying h
      refine ⟨outs, hs, hc, fun ms os => ?_⟩
      rw [Remote.step, if_neg hown]
      exact hcarry ms os
  | sendData i z ok => cases he
  | clientKeepAlive => cases he
  | serverKeepAlive => cases he
  | arrives k fuel behind => cases he
  | onPackageReceived k fuel behind behind' => cases he

/-! ### what a step amounts to -/

/-- the client and the server of `Remote` follow a step and refuse what it refuses, or stay as they
are -/
inductive Followed (w : Platform) (j : Json) (p : Prop) (s : Wired φ) (e : Event φ) (s' : Wired φ)
    (r : Remote φ) : Prop
  | stays (hR : Rel p s' r) (hN : s.Narrows w e) (hI : s.InTime w e) (hr : s.refused w e = [])
  | steps (d : Remote.Event φ) (r' : Remote φ) (h : r.step w j d = some r') (hR : Rel p s' r')
    (hF : Remote.Fair w j r d) (hN : s.Narrows w e ↔ Remote.Narrows r d)
    (hI : s.InTime w e ↔ Remote.InTime j r d) (hr : s.refused w e = Remote.refused r d)

theorem Way.link {s : Wired φ} {r : Side} {ms new : List ByteArray} {link : Link}
    (h : Way p s r ms) (hf : ∀ fs, Link.Flight p r s.link (s.worked r) fs →
      Link.Flight p r link (s.worked r) (fs ++ new)) :
    Way p { s with link } r (ms ++ new) := by
  obtain ⟨fs, hfs, hperm⟩ := h
  refine ⟨fs ++ new, hf fs hfs, ?_⟩
  rw [← List.append_assoc]
  exact hperm.append_right new

theorem Way.stays {s : Wired φ} {r : Side} {ms : List ByteArray} {link : Link} (h : Way p s r ms)
    (hf : ∀ fs, Link.Flight p r s.link (s.worked r) fs → Link.Flight p r link (s.worked r) fs) :
    Way p { s with link } r ms := by
  obtain ⟨fs, hfs, hperm⟩ := h
  exact ⟨fs, hf fs hfs, hperm⟩

theorem Way.makes {s : Wired φ} {r : Side} {ms new : List ByteArray} {app : Remote φ}
    (h : Way p s r ms) (hm : made app r.other = made s.app r.other ++ new) :
    Way p { s with app } r (ms ++ new) := by
  obtain ⟨fs, hfs, hperm⟩ := h
  refine ⟨fs, hfs, ?_⟩
  show (ms ++ new).Perm (made app r.other ++ fs)
  rw [hm]
  refine (hperm.append_right new).trans ?_
  rw [List.append_assoc, List.append_assoc]
  exact List.perm_append_comm.append_left _

theorem Way.same {s : Wired φ} {r : Side} {ms : List ByteArray} {app : Remote φ}
    (h : Way p s r ms) (hm : made app r.other = made s.app r.other) : Way p { s with app } r ms := by
  have h : Way p { s with app } r (ms ++ []) := h.makes (hm.trans (List.append_nil _).symm)
  rwa [List.append_nil] at h

theorem keepAliveBytes_order (o o' : ByteOrder) :
    NetConnection.keepAliveBytes o = NetConnection.keepAliveBytes o' := by
  cases o <;> cases o' <;> decide +kernel

/-- of what is no send, only the keep-alive timer sends -/
theorem sends_alive {s : Link} {e : LinkEvent} (hn : isSend e = false) (r : Side) (o : ByteOrder) :
    Link.sends r s e = [] ∨ Link.sends r s e = [NetConnection.keepAliveBytes o] := by
  unfold Link.sends
  split
  · cases e with
    | reads side n => exact .inl rfl
    | acts side e =>
      cases e with
      | sendDataAsync data len c => cases hn
      | run i t =>
        show NetConnection.accepts _ (.run i t) = [] ∨ NetConnection.accepts _ (.run i t) = _
        rw [keepAliveBytes_order o t.order, NetConnection.accepts, NetConnection.attempt]
        split
        · rename_i data len ha
          split at ha
          · cases ha
            split
            · exact .inl rfl
            · rw [Int.toNat_natCast, List.take_length]
              exact .inr rfl
          · cases ha
        · exact .inl rfl
      | _ => exact .inl rfl
  · exact .inl rfl

theorem link_followed {s s' : Wired φ} {r : Remote φ} {e : LinkEvent} (hR : Rel p s r)
    (hF : ∀ r, Link.Undisturbed r s.link e) (h : s.step w j (.link e) = some s') :
    Followed w j p s (.link e) s' r := by
  obtain ⟨ms, os, hs, hc⟩ := hR
  rw [step] at h
  split at h
  · cases h
  · rename_i hn
    obtain ⟨link, hl, rfl⟩ := Option.map_eq_some_iff.mp h
    have hn := Bool.eq_false_of_not_eq_true hn
    have hs := hs.link fun fs hf => Link.flight_step hf (hF _) hl
    have hc := hc.link fun fs hf => Link.flight_step hf (hF _) hl
    cases hside : Link.LinkEvent.side e with
    | client =>
      have hnone : Link.sends .client s.link e = [] := if_neg (by rw [hside]; decide)
      rw [hnone, List.append_nil] at hc
      rcases sends_alive hn .server w.order with h0 | h1
      · rw [h0, List.append_nil] at hs
        exact .stays (.mk ms os hs hc) trivial trivial rfl
      · rw [h1] at hs
        refine .steps .clientKeepAlive _ rfl (.mk (ms ++ [.keepAlive _]) os ?_ hc) trivial Iff.rfl
          Iff.rfl rfl
        rw [List.map_append]
        exact hs
    | server =>
      have hnone : Link.sends .server s.link e = [] := if_neg (by rw [hside]; decide)
      rw [hnone, List.append_nil] at hs
      rcases sends_alive hn .client w.order with h0 | h1
      · rw [h0, List.append_nil] at hc
        exact .stays (.mk ms os hs hc) trivial trivial rfl
      · rw [h1] at hc
        refine .steps .serverKeepAlive _ rfl (.mk ms (os ++ [.keepAlive 0 _]) hs ?_) trivial Iff.rfl
          Iff.rfl rfl
        rw [List.map_append]
        exact hc

theorem own_conditions {r : Remote φ} {e : Remote.Event φ} (he : isOwn e = true) :
    Remote.Narrows r e ∧ Remote.InTime j r e ∧ Remote.refused r e = [] := by
  cases e with
  | _stat => exact ⟨trivial, trivial, rfl⟩
  | _test => exact ⟨trivial, trivial, rfl⟩
  | register => exact ⟨trivial, trivial, rfl⟩
  | server => exact ⟨trivial, trivial, rfl⟩
  | _ => cases he

theorem fair_carrying {app : Remote φ} {e : Remote.Event φ} (he : isOwn e = true)
    (h : Remote.Fair w j app e) (ms : List Message) (os : List Output) :
    Remote.Fair w j (carrying app ms os) e := by
  cases e with
  | _stat => exact h
  | _test => exact h
  | register => exact h
  | server => exact h
  | _ => cases he

theorem app_followed {s s' : Wired φ} {r : Remote φ} {e : Remote.Event φ} (hR : Rel p s r)
    (hF : Remote.Fair w j s.app e) (h : s.step w j (.app e) = some s') :
    Followed w j p s (.app e) s' r := by
  obtain ⟨ms, os, hs, hc⟩ := hR
  rw [step] at h
  split at h
  · rename_i he
    obtain ⟨app, hstep, rfl⟩ := Option.map_eq_some_iff.mp h
    obtain ⟨outs, hsame, hmore, hcarry⟩ := own_carrying he hstep
    obtain ⟨hN, hI, hr⟩ := own_conditions (j := j) (r := carrying s.app ms os) he
    refine .steps e _ (hcarry ms os) (.mk ms (os ++ outs) (hs.same ?_) ?_) (fair_carrying he hF ms os)
      (iff_of_true trivial hN) (iff_of_true trivial hI) hr.symm
    · show app.toServer.map _ = _
      rw [hsame]
      rfl
    · rw [List.map_append]
      refine hc.makes ?_
      show app.toClient.map _ = _
      rw [hmore, List.map_append]
      rfl
  · cases h

/-! ### what is sent is a package -/

theorem rpcBytes_frame (o : ByteOrder) (z : Deflate) {x : ByteArray} (hx : x ≠ []) (cmd : BitVec 16)
    (seq : BitVec 64) (compress : BitVec 8)
    (hlen : (rpcBytes o z x cmd seq compress).length ≤ NET_PACKAGE_INVALID_LENGTH) :
    plainLook (rpcBytes o z x cmd seq compress)
      = .msg (rpcBytes o z x cmd seq compress).length := by
  rw [rpcBytes_package o z x cmd seq compress hx] at hlen ⊢
  rw [package_bytes_length] at hlen
  exact look_bytes _ hlen

theorem asks_frame {cb : CallBack} {req : ByteArray} (ha : Remote.Asks j cb req) (z : Deflate)
    (seq : Int) (hlen : (Remote.carries w.order z req seq).length ≤ NET_PACKAGE_INVALID_LENGTH) :
    plainLook (Remote.carries w.order z req seq)
      = .msg (Remote.carries w.order z req seq).length := by
  obtain ⟨pts, -, hwrite, -, -⟩ := ha
  exact rpcBytes_frame w.order z (j.not_empty hwrite) NET_CMD_RPC _ _ hlen

theorem message_frame {m : Message} (h : Remote.Message.Fine w j m)
    (hlen : m.bytes.length ≤ NET_PACKAGE_INVALID_LENGTH) :
    plainLook m.bytes = .msg m.bytes.length := by
  cases m with
  | request seq cb req bytes =>
    obtain ⟨ha, z, -, rfl⟩ := h
    exact asks_frame ha z seq hlen
  | keepAlive bytes => exact h.1

theorem output_frame (hj : Remote.Responds j) {o : Output} (h : Remote.Output.Fine w j o)
    (hlen : o.bytes.length ≤ NET_PACKAGE_INVALID_LENGTH) :
    plainLook o.bytes = .msg o.bytes.length := by
  cases o with
  | response t bytes =>
    obtain ⟨m, seq, z, -, -, -, rfl⟩ := h
    exact rpcBytes_frame w.order z (Remote.response_not_empty hj m) NET_CMD_RPC _ _ hlen
  | keepAlive connection bytes => exact h.1

/-! ### sends -/

theorem answers_iff {s : Wired φ} {z : Deflate} {c : Choice} {call : Remote.Call} {link : Link}
    {ok : Bool} (h : s.link.sendData .client c (Remote.carries w.order z call.req call.seq)
      = some (link, ok)) (b : Bool) : s.Answers w z c call b ↔ ok = b := by
  rw [Answers, h]
  exact Option.some_inj

/-- both refuse the request of the same call -/
theorem sendData_refused {s : Wired φ} {i : Nat} {z : Deflate} {c : Choice} {call : Remote.Call}
    {link : Link} {ok : Bool} (hcall : s.app.calls[i]? = some call)
    (hsend : s.link.sendData .client c (Remote.carries w.order z call.req call.seq)
      = some (link, ok)) (ms : List Message) (os : List Output) :
    s.refused w (.sendData i z c) = Remote.refused (carrying s.app ms os) (.sendData i z ok) := by
  have hrefuses := answers_iff hsend false
  show ((s.app.calls[i]?).toList.filter _).map _ = Remote.refused (carrying s.app ms os) _
  rw [hcall, Option.toList_some, List.filter_singleton]
  cases ok with
  | true =>
    rw [decide_eq_false fun h => Bool.noConfusion (hrefuses.mp h)]
    rfl
  | false =>
    rw [decide_eq_true (hrefuses.mpr rfl)]
    show _ = (s.app.calls[i]?).toList.map Remote.Call.cb
    rw [hcall]
    rfl

theorem sendData_followed {s s' : Wired φ} {r : Remote φ} {i : Nat} {z : Deflate} {c : Choice}
    (hS : Remote.Sound w j r) (hR : Rel p s r) (hF : s.Fair w j (.sendData i z c))
    (h : s.step w j (.sendData i z c) = some s') : Followed w j p s (.sendData i z c) s' r := by
  obtain ⟨ms, os, hs, hc⟩ := hR
  obtain ⟨call, hcall, h⟩ := Option.bind_eq_some_iff.mp h
  obtain ⟨⟨link, ok⟩, hsend, h⟩ := Option.bind_eq_some_iff.mp h
  obtain ⟨app, hstep, rfl⟩ := Option.map_eq_some_iff.mp h
  obtain ⟨hu, hfit⟩ := hF
  obtain ⟨hlen, hhole⟩ := hfit call hcall
  have hclear : Link.Clear s.link .client c (Remote.carries w.order z call.req call.seq) :=
    ⟨asks_frame (hS.calls call (List.mem_of_getElem? hcall)) z call.seq hlen, hhole⟩
  have hanswers := answers_iff hsend true
  have hs := hs.link fun fs hf => Link.flight_sent hf hclear hsend
  have hc := hc.stays fun fs hf => Link.flight_stays hf hclear hsend
  -- the call and its number are the same for both
  have hN : s.Narrows w (.sendData i z c) ↔ Remote.Narrows (carrying s.app ms os) (.sendData i z ok) := by
    show (∀ x ∈ s.app.calls[i]?, s.Answers w z c x true → Narrow x.seq) ↔
      (ok = true → ∀ x ∈ s.app.calls[i]?, Narrow x.seq)
    simp only [hcall, Option.mem_def, Option.some.injEq, forall_eq', hanswers]
  have hI : s.InTime w (.sendData i z c) ↔ Remote.InTime j (carrying s.app ms os) (.sendData i z ok) := by
    show (∀ x ∈ s.app.calls[i]?, s.Answers w z c x true ∧ Narrow x.seq) ↔
      (ok = true ∧ ∀ x ∈ s.app.calls[i]?, Narrow x.seq)
    simp only [hcall, Option.mem_def, Option.some.injEq, forall_eq', hanswers]
  have hr := sendData_refused hcall hsend ms os
  rw [Remote.step] at hstep
  split at hstep
  · rename_i seq cb req hi
    obtain rfl : call = ⟨seq, cb, req, .drawn⟩ := Option.some.inj (hcall.symm.trans hi)
    have hcarry : (carrying s.app ms os).calls[i]? = some ⟨seq, cb, req, .drawn⟩ := hi
    cases ok with
    | true =>
      cases hstep
      refine .steps (.sendData i z true) _ ?_
        (.mk (ms ++ [.request seq cb req (Remote.carries w.order z req seq)]) os ?_ (hc.same rfl))
        hu hN hI hr
      · rw [Remote.step, hcarry]
        rfl
      · rw [List.map_append]
        exact hs.same rfl
    | false =>
      cases hstep
      refine .steps (.sendData i z false) _ ?_ (.mk ms os ?_ (hc.same rfl)) hu hN hI hr
      · rw [Remote.step, hcarry]
        rfl
      · rw [if_neg Bool.false_ne_true, List.append_nil] at hs
        exact hs.same rfl
  · cases hstep

/-- a message goes from those that are made to those in flight -/
theorem Way.hands {s : Wired φ} {r : Side} {ms : List ByteArray} {k : Nat} {data : ByteArray}
    {link : Link} {app : Remote φ} (h : Way p s r ms) (hk : (made s.app r.other)[k]? = some data)
    (hm : made app r.other = (made s.app r.other).eraseIdx k)
    (hf : ∀ fs, Link.Flight p r s.link (s.worked r) fs →
      Link.Flight p r link (s.worked r) (fs ++ [data])) : Way p { s with link, app } r ms := by
  obtain ⟨fs, hfs, hperm⟩ := h
  refine ⟨fs ++ [data], hf fs hfs, hperm.trans ?_⟩
  show (made s.app r.other ++ fs).Perm (made app r.other ++ (fs ++ [data]))
  have hout : (made s.app r.other ++ fs).Perm (data :: ((made s.app r.other).eraseIdx k ++ fs)) :=
    ((perm_dequeue hk).append_right fs).symm
  rw [hm, ← List.append_assoc]
  exact hout.trans (List.perm_append_singleton data _).symm

theorem Way.mem {s : Wired φ} {r : Side} {ms : List ByteArray} (h : Way p s r ms) {k : Nat}
    {data : ByteArray} (hk : (made s.app r.other)[k]? = some data) : data ∈ ms := by
  obtain ⟨fs, -, hperm⟩ := h
  exact hperm.mem_iff.mpr (List.mem_append_left _ (List.mem_of_getElem? hk))

theorem sends_followed (hj : Remote.Responds j) {s s' : Wired φ} {r : Remote φ} {side : Side}
    {k : Nat} {c : Choice} (hS : Remote.Sound w j r) (hR : Rel p s r)
    (hF : s.Fair w j (.sends side k c)) (hT : p → s.Taken (.sends side k c))
    (h : s.step w j (.sends side k c) = some s') : Followed w j p s (.sends side k c) s' r := by
  obtain ⟨ms, os, hs, hc⟩ := hR
  obtain ⟨data, hk, h⟩ := Option.bind_eq_some_iff.mp h
  obtain ⟨⟨link, ok⟩, hsend, rfl⟩ := Option.map_eq_some_iff.mp h
  obtain ⟨hlen, hhole⟩ := hF data hk
  have hok : p → ok = true := fun hp => hT hp data hk (link, ok) hsend
  cases side with
  | client =>
    obtain ⟨m, hm, rfl⟩ := List.mem_map.mp (hs.mem hk)
    have hclear : Link.Clear s.link .client c m.bytes :=
      ⟨message_frame (hS.toServer m hm) hlen, hhole⟩
    have hc := hc.stays fun fs hf => Link.flight_stays hf hclear hsend
    refine .stays (.mk ms os (hs.hands hk ?_ fun fs hf => ?_) (hc.same rfl)) trivial trivial rfl
    · exact (List.eraseIdx_map ..).symm
    · exact Link.flight_handed hf hclear hsend hok
  | server =>
    obtain ⟨o, ho, rfl⟩ := List.mem_map.mp (hc.mem hk)
    have hclear : Link.Clear s.link .server c o.bytes :=
      ⟨output_frame hj (hS.toClient o ho) hlen, hhole⟩
    have hs := hs.stays fun fs hf => Link.flight_stays hf hclear hsend
    refine .stays (.mk ms os (hs.same rfl) (hc.hands hk ?_ fun fs hf => ?_)) trivial trivial rfl
    · exact (List.eraseIdx_map ..).symm
    · exact Link.flight_handed hf hclear hsend hok

/-! ### what is worked on -/

/-- the next package is one of the messages on their way -/
theorem Way.next {s : Wired φ} {r : Side} {ms : List ByteArray} {pkg : NetPackage}
    (h : Way p s r ms) (hn : s.next r = some pkg) :
    ∃ data k, pkg = NetPackage.ofBytes data ∧ ms[k]? = some data ∧
      Way p (s.works r s.app) r (ms.eraseIdx k) := by
  obtain ⟨fs, hfs, hperm⟩ := h
  obtain ⟨data, rest, hpkg, hdata, hrest⟩ := Link.flight_next hfs hn
  have hfront : ms.Perm (data :: (made s.app r.other ++ rest)) :=
    (hperm.trans (hdata.append_left _)).trans List.perm_middle
  obtain ⟨k, hk, herase⟩ := Remote.exists_dequeue hfront
  refine ⟨data, k, hpkg, hk, rest, ?_, herase⟩
  show Link.Flight p r s.link (Function.update s.worked r (s.worked r + 1) r) rest
  rw [Function.update_self]
  exact hrest

/-- and those to the other end are as they were -/
theorem Way.rest {s : Wired φ} {r : Side} {ms : List ByteArray} (h : Way p s r ms) (side : Side)
    (hne : r ≠ side) : Way p (s.works side s.app) r ms := by
  obtain ⟨fs, hfs, hperm⟩ := h
  refine ⟨fs, ?_, hperm⟩
  show Link.Flight p r s.link (Function.update s.worked side (s.worked side + 1) r) fs
  rw [Function.update_of_ne hne]
  exact hfs

theorem arrives_followed {s s' : Wired φ} {r : Remote φ} {fuel : Nat} {behind : ByteArray}
    (hR : Rel p s r) (hF : Remote.EndsThere behind)
    (h : s.step w j (.arrives fuel behind) = some s') :
    Followed w j p s (.arrives fuel behind) s' r := by
  obtain ⟨ms, os, hs, hc⟩ := hR
  obtain ⟨pkg, hn, h⟩ := Option.bind_eq_some_iff.mp h
  obtain ⟨app, hserves, rfl⟩ := Option.map_eq_some_iff.mp h
  obtain ⟨data, k, rfl, hk, hs⟩ := hs.next hn
  obtain ⟨outs, hsame, hmore, hcarry⟩ := serves_carrying hserves
  rw [List.getElem?_map] at hk
  obtain ⟨m, hm, rfl⟩ := Option.map_eq_some_iff.mp hk
  refine .steps (.arrives k fuel behind) _ ?_ (.mk (ms.eraseIdx k) (os ++ outs) ?_ ?_) hF
    (iff_of_true trivial trivial) (iff_of_true trivial trivial) rfl
  · show (ms[k]?).bind _ = _
    rw [hm]
    exact hcarry (ms.eraseIdx k) os
  · rw [← List.eraseIdx_map]
    refine hs.same ?_
    show app.toServer.map _ = _
    rw [hsame]
    rfl
  · rw [List.map_append]
    refine (hc.rest .server (by decide)).makes ?_
    show app.toClient.map _ = _
    rw [hmore, List.map_append]
    rfl

/-- what the number of a response is, and that nothing else has one -/
theorem reply_header (hj : Remote.Responds j) {o : Output} (h : Remote.Output.Fine w j o) :
    (NetPackage.ofBytes o.bytes).m_pkgHeader.m_cmd = NET_CMD_RPC ∧
        (∃ x, Remote.Output.reply j o = some x ∧
          x.m_seq = (NetPackage.ofBytes o.bytes).m_pkgHeader.m_seq.toInt) ∨
      (NetPackage.ofBytes o.bytes).m_pkgHeader.m_cmd ≠ NET_CMD_RPC ∧
        Remote.Output.reply j o = none := by
  cases o with
  | response t bytes =>
    obtain ⟨m, seq, z, rfl, -, -, rfl⟩ := h
    exact .inl ⟨rpc_cmd w.order z (Remote.response_not_empty hj m) NET_CMD_RPC _ _, _, rfl,
      (Remote.response_seq m z seq).symm⟩
  | keepAlive connection bytes => exact .inr ⟨h.2, rfl⟩

theorem received_followed (hj : Remote.Responds j) {s s' : Wired φ} {r : Remote φ} {fuel : Nat}
    {behind behind' : ByteArray} (hS : Remote.Sound w j r) (hR : Rel p s r)
    (hF : Remote.EndsThere behind)
    (h : s.step w j (.onPackageReceived fuel behind behind') = some s') :
    Followed w j p s (.onPackageReceived fuel behind behind') s' r := by
  obtain ⟨ms, os, hs, hc⟩ := hR
  obtain ⟨pkg, hn, h⟩ := Option.bind_eq_some_iff.mp h
  obtain ⟨d, hd, rfl⟩ := Option.map_eq_some_iff.mp h
  obtain ⟨data, k, rfl, hk, hc⟩ := hc.next hn
  rw [List.getElem?_map] at hk
  obtain ⟨o, ho, rfl⟩ := Option.map_eq_some_iff.mp hk
  obtain ⟨ms', hmore, hsame, hcarry⟩ := content_carrying (w := w) (j := j)
    { s.app with m_compressType := d.1 } behind behind' (NetPackage.ofBytes o.bytes).m_pkgHeader d.2
  have hI : s.InTime w (.onPackageReceived fuel behind behind') ↔
      Remote.InTime j (carrying s.app ms os) (.onPackageReceived k fuel behind behind') := by
    show (∀ pkg ∈ s.next .client, pkg.m_pkgHeader.m_cmd = NET_CMD_RPC → _) ↔
      ∀ o ∈ os[k]?, ∀ x ∈ Remote.Output.reply j o, ∀ c ∈ s.app.calls, c.phase = .sent →
        c.seq ≠ x.m_seq
    rw [hn, ho]
    simp only [Option.mem_def, Option.some.injEq, forall_eq']
    rcases reply_header hj (hS.toClient o (List.mem_of_getElem? ho)) with
      ⟨hcmd, x, hx, hseq⟩ | ⟨hcmd, hx⟩
    · simp only [hx, Option.some.injEq, forall_eq', hseq, hcmd, forall_const]
    · rw [hx]
      exact iff_of_true (fun hc => absurd hc hcmd) fun x hx => nomatch hx
  refine .steps (.onPackageReceived k fuel behind behind') _ ?_
    (.mk (ms ++ ms') (os.eraseIdx k) ?_ ?_) hF (iff_of_true trivial trivial) hI rfl
  · show (os[k]?).bind _ = _
    rw [ho, Option.bind_some]
    show (BaseClient.decode w fuel s.app.m_compressType _ _).map _ = _
    rw [hd]
    exact congrArg some (hcarry ms (os.eraseIdx k))
  · rw [List.map_append]
    refine (hs.rest .client (by decide)).makes ?_
    show (Remote.onContent ..).toServer.map _ = _
    rw [hmore, List.map_append]
    rfl
  · rw [← List.eraseIdx_map]
    refine hc.same ?_
    show (Remote.onContent ..).toClient.map _ = _
    rw [hsame]
    rfl

/-- **Each step is followed**, or nothing happens. -/
theorem step_followed (hj : Remote.Responds j) {s s' : Wired φ} {r : Remote φ} {e : Event φ}
    (hS : Remote.Sound w j r) (hR : Rel p s r) (hF : s.Fair w j e) (hT : p → s.Taken e)
    (h : s.step w j e = some s') : Followed w j p s e s' r := by
  cases e with
  | link e => exact link_followed hR hF h
  | app e => exact app_followed hR hF h
  | sendData i z c => exact sendData_followed hS hR hF h
  | sends side k c => exact sends_followed hj hS hR hF hT h
  | arrives fuel behind => exact arrives_followed hR hF h
  | onPackageReceived fuel behind behind' => exact received_followed hj hS hR hF h

end

end Wired

end Netwb
