import Netwb.Lib.Simulation
import Netwb.Lib.Tokens
import Netwb.Sample.Compression
import Netwb.Sample.Events
import Mathlib.Data.List.AList

/-!
# The server at work

`BaseServer` and `Server` (`sample/`) with the queues between them.  A package of the command
`NET_CMD_RPC` is posted to `m_strand`; `onRequest` looks its function up in `m_funcTable`; the
functions of `regist` post a response to `m_io`, or `Server` posts it to `m_ioservice` itself; and
the threads of both send what is posted there in any order.

The packages may come from any number of connections, and the application may register functions
of its own at any time.

* `requests_answered_once`  each request for `stat` or `test` is waiting, being answered or answered,
                            with its own number and on its own connection;
* `table_lookup`            which function a name stands for, after any history of the table;
* `connections_refine`      each connection of the server behaves as the one of
                            `Netwb.Sample.Compression`.
-/

namespace Netwb
open Wire Machine

/-! ## texts -/

/-- `ok` -/
def kOk : ByteArray := [0x6f, 0x6b]

/-- `this is the response of doSomething`, from `Server::stat` -/
def kDoSomething : ByteArray :=
  [0x74, 0x68, 0x69, 0x73, 0x20, 0x69, 0x73, 0x20, 0x74, 0x68, 0x65, 0x20, 0x72, 0x65, 0x73, 0x70,
   0x6f, 0x6e, 0x73, 0x65, 0x20, 0x6f, 0x66, 0x20, 0x64, 0x6f, 0x53, 0x6f, 0x6d, 0x65, 0x74, 0x68,
   0x69, 0x6e, 0x67]

/-- `this is response of stat`, from `BaseServer::_stat` -/
def kResponseOfStat : ByteArray :=
  [0x74, 0x68, 0x69, 0x73, 0x20, 0x69, 0x73, 0x20, 0x72, 0x65, 0x73, 0x70, 0x6f, 0x6e, 0x73, 0x65,
   0x20, 0x6f, 0x66, 0x20, 0x73, 0x74, 0x61, 0x74]

/-- `this is response of test`, from `BaseServer::_test` -/
def kResponseOfTest : ByteArray :=
  [0x74, 0x68, 0x69, 0x73, 0x20, 0x69, 0x73, 0x20, 0x72, 0x65, 0x73, 0x70, 0x6f, 0x6e, 0x73, 0x65,
   0x20, 0x6f, 0x66, 0x20, 0x74, 0x65, 0x73, 0x74]

/-! ## what is posted -/

/-- the functions that `regist` puts into `m_funcTable` -/
inductive Method where
  | stat
  | test
deriving DecidableEq, Repr

def Method.name : Method → ByteArray
  | .stat => kStat
  | .test => kTest

/-- `ProcessFunc`: one of them, or a function of the application -/
inductive ProcessFunc (φ : Type) where
  | method (m : Method)
  | app (f : φ)
deriving DecidableEq, Repr

/-- `map<string, ProcessFunc>` -/
abbrev FuncTable (φ : Type) := AList fun _ : ByteArray => ProcessFunc φ

/-- the function of `regist` that a name stands for -/
def Method.ofName (func : ByteArray) : Option Method :=
  if func = kStat then some .stat else if func = kTest then some .test else none

theorem Method.ofName_name (m : Method) : Method.ofName m.name = some m := by
  cases m <;> decide

theorem Method.ofName_some {func : ByteArray} {m : Method} (h : Method.ofName func = some m) :
    func = m.name := by
  unfold Method.ofName at h
  split at h
  · rename_i hf
    cases h
    exact hf
  · split at h
    · rename_i hf
      cases h
      exact hf
    · cases h

/-- a call of `onRequest(func, value, seq, connection)` that is posted -/
structure Request where
  func : ByteArray
  value : ByteArray
  seq : BitVec 64
  connection : Nat
deriving DecidableEq, Repr

/-- a call of `_send_stat(resp, status, seq, connection)` or `_send_test(..)` that is posted -/
structure Sending where
  method : Method
  resp : ByteArray
  status : ByteArray
  seq : BitVec 64
  connection : Nat
deriving DecidableEq, Repr

/-- what is handed to `sendData` of a connection: the response to a request or to a keep-alive
package -/
inductive Output where
  | response (sending : Sending) (bytes : ByteArray)
  | keepAlive (connection : Nat) (bytes : ByteArray)
deriving DecidableEq, Repr

namespace Output

def connection : Output → Nat
  | .response sending _ => sending.connection
  | .keepAlive connection _ => connection

def bytes : Output → ByteArray
  | .response _ bytes => bytes
  | .keepAlive _ bytes => bytes

def sending : Output → Option Sending
  | .response sending _ => some sending
  | .keepAlive .. => none

end Output

/-- what a method answers: the text of `Server::stat`, or that of `BaseServer::_test` -/
def Method.text : Method → ByteArray
  | .stat => kDoSomething
  | .test => kResponseOfTest

def Method.sending (m : Method) (seq : BitVec 64) (connection : Nat) : Sending :=
  ⟨m, m.text, kOk, seq, connection⟩

/-- the response to a request for a function of `regist` -/
def Request.sending (r : Request) : Option Sending :=
  (Method.ofName r.func).map fun m => m.sending r.seq r.connection

/-- the case `NET_CMD_RPC` of `onPackageReceived`: the request that is posted -/
def BaseServer.request (j : Json) (behind : ByteArray) (seq : BitVec 64) (connection : Nat)
    (tmpData : ByteArray) : Option Request :=
  (jsonHelper.getString j kFunc behind tmpData).bind fun func =>
    (jsonHelper.getSubJson j kParam behind tmpData).map fun param => ⟨func, param, seq, connection⟩

/-- the function that runs, with the `compress` that it finds -/
def Sending.run (o : ByteOrder) (j : Json) (z : Deflate) (t : Sending) : Output :=
  .response t (match t.method with
    | .stat => BaseServer._send_stat o j z t.resp t.status t.seq
    | .test => BaseServer._send_test o j z t.resp t.status t.seq)

/-! ## the server -/

structure Service (φ : Type) where
  m_funcTable : FuncTable φ
  /-- the `m_compressType` of each connection -/
  m_compressType : Nat → BitVec 8
  /-- the requests that are posted to `m_strand`, which runs them one by one and in this order -/
  m_strand : List Request
  /-- what is posted to `m_io` and `m_ioservice`, whose threads run it in any order -/
  m_io : List Sending
  m_ioservice : List Sending
  /-- what was handed to `sendData` so far -/
  outputs : List Output
  /-- the packages so far, the requests that were posted, and those that `onRequest` was called
  with, each with the function that it has found -/
  packages : List (Nat × NetPackageHeader × ByteArray)
  posted : List Request
  handled : List (Request × Option (ProcessFunc φ))

inductive ServiceEvent (φ : Type) where
  | registerFunc (method : ByteArray) (func : φ)
  | regist
  /-- a package comes in; `fuel` is for the loop of `zlibDecompress`, `behind` lies behind
  `tmpData` -/
  | onPackageReceived (fuel : Nat) (behind : ByteArray) (header : NetPackageHeader)
    (content : ByteArray) (connection : Nat)
  /-- the strand runs its next `onRequest`; `behind` lies behind the parameters, and `fresh` and
  `fresh'` are what is in the records before they are read -/
  | onRequest (behind : ByteArray) (fresh fresh' : Nat → DataEventRaw)
  /-- a thread of `m_io`, or of `m_ioservice`, runs the `i`-th that is posted there -/
  | io (i : Nat) (z : Deflate)
  | ioservice (i : Nat) (z : Deflate)

/-- `m_funcTable.insert(make_pair(method, func))`, which leaves a function that is there -/
def FuncTable.add {φ : Type} (t : FuncTable φ) (method : ByteArray) (func : ProcessFunc φ) :
    FuncTable φ := if method ∈ t then t else t.insert method func

namespace Service
variable {φ : Type}

def start : Service φ := ⟨∅, fun _ => 0, [], [], [], [], [], [], []⟩

def registerFunc (s : Service φ) (method : ByteArray) (func : φ) : Service φ :=
  { s with m_funcTable := s.m_funcTable.insert method (.app func) }

def regist (s : Service φ) : Service φ :=
  { s with
    m_funcTable := (s.m_funcTable.add kStat (.method .stat)).add kTest (.method .test) }

/-- `m_strand.post(boost::bind(&BaseServer::onRequest, ..))` -/
def post (s : Service φ) (r : Request) : Service φ :=
  { s with m_strand := s.m_strand ++ [r], posted := s.posted ++ [r] }

/-- `Server::stat`, which posts the response itself and returns false -/
def stat (s : Service φ) (_ _ : List DataEventRaw) (seq : BitVec 64) (connection : Nat) :
    Service φ × Bool :=
  ({ s with m_ioservice := s.m_ioservice ++ [⟨.stat, kDoSomething, kOk, seq, connection⟩] }, false)

/-- `Server::test` -/
def test (s : Service φ) (_ : BitVec 32) (_ : BitVec 64) (_ : Nat) : Service φ × Bool := (s, true)

section
variable (j : Json)

def _stat (s : Service φ) (behind : ByteArray) (fresh fresh' : Nat → DataEventRaw)
    (param : ByteArray) (seq : BitVec 64) (connection : Nat) : Service φ :=
  let (UploadEvents, CreditEvents) := BaseServer.statEvents j behind fresh fresh' param
  let (s, ok) := s.stat UploadEvents.values CreditEvents.values seq connection
  if ok then { s with m_io := s.m_io ++ [⟨.stat, kResponseOfStat, kOk, seq, connection⟩] } else s

def _test (s : Service φ) (behind : ByteArray) (param : ByteArray) (seq : BitVec 64)
    (connection : Nat) : Service φ :=
  let id := (jsonHelper.getField j (fun pt => pt.getInt kId) behind param).getD 0
  let (s, ok) := s.test id seq connection
  if ok then { s with m_io := s.m_io ++ [⟨.test, kResponseOfTest, kOk, seq, connection⟩] } else s

/-- `onRequest(func, value, seq, connection)`; what a function of the application does is its own
affair -/
def onRequest (s : Service φ) (behind : ByteArray) (fresh fresh' : Nat → DataEventRaw)
    (r : Request) : Service φ :=
  match s.m_funcTable.lookup r.func with
  | some (.method .stat) => s._stat j behind fresh fresh' r.value r.seq r.connection
  | some (.method .test) => s._test j behind r.value r.seq r.connection
  | some (.app _) => s
  | none => s

end

section
variable (w : Platform) (j : Json)

/-- the `switch` of `onPackageReceived` -/
def onContent (s : Service φ) (behind : ByteArray) (header : NetPackageHeader) (connection : Nat) :
    Decoded → Service φ
  | .data tmpData =>
    if header.m_cmd = NET_CMD_RPC then
      match BaseServer.request j behind header.m_seq connection tmpData with
      | some r => s.post r
      | none => s
    else if header.m_cmd = NET_CMD_KEEPALIVE then
      { s with outputs := s.outputs ++ [.keepAlive connection (keepAliveResponseBytes w.order)] }
    else s
  | .dropped => s
  | .threw => s

def onPackageReceived (s : Service φ) (fuel : Nat) (behind : ByteArray) (header : NetPackageHeader)
    (content : ByteArray) (connection : Nat) : Option (Service φ) :=
  (BaseServer.decode w fuel (s.m_compressType connection) header content).map fun r =>
    { s with
      m_compressType := Function.update s.m_compressType connection r.1
      packages := s.packages ++ [(connection, header, content)] }.onContent w j behind header
        connection r.2

def step (s : Service φ) : ServiceEvent φ → Option (Service φ)
  | .registerFunc method func => some (s.registerFunc method func)
  | .regist => some s.regist
  | .onPackageReceived fuel behind header content connection =>
    s.onPackageReceived w j fuel behind header content connection
  | .onRequest behind fresh fresh' =>
    match s.m_strand with
    | [] => none
    | r :: rs =>
      some ({ s with
        m_strand := rs
        handled := s.handled ++ [(r, s.m_funcTable.lookup r.func)] }.onRequest j behind fresh
          fresh' r)
  | .io i z =>
    s.m_io[i]?.map fun t =>
      { s with m_io := s.m_io.eraseIdx i, outputs := s.outputs ++ [t.run w.order j z] }
  | .ioservice i z =>
    s.m_ioservice[i]?.map fun t =>
      { s with
        m_ioservice := s.m_ioservice.eraseIdx i, outputs := s.outputs ++ [t.run w.order j z] }

end

/-! ## what a step does -/

/-- the response that `onRequest` posts when it has found `f` -/
def _sending (r : Request) : Option (ProcessFunc φ) → Option Sending
  | some (.method m) => some (m.sending r.seq r.connection)
  | some (.app _) => none
  | none => none

theorem onRequest_posts (j : Json) (s : Service φ) (behind : ByteArray)
    (fresh fresh' : Nat → DataEventRaw) (r : Request) : ∃ xs ys,
      s.onRequest j behind fresh fresh' r
        = { s with m_io := s.m_io ++ xs, m_ioservice := s.m_ioservice ++ ys } ∧
      xs ++ ys = (_sending r (s.m_funcTable.lookup r.func)).toList := by
  have hnothing : s = { s with m_io := s.m_io ++ [], m_ioservice := s.m_ioservice ++ [] } := by
    rw [List.append_nil, List.append_nil]
  unfold onRequest
  cases s.m_funcTable.lookup r.func with
  | none => exact ⟨[], [], hnothing, rfl⟩
  | some f =>
    cases f with
    | app f => exact ⟨[], [], hnothing, rfl⟩
    | method m =>
      cases m with
      | stat =>
        refine ⟨[], [Method.stat.sending r.seq r.connection], ?_, rfl⟩
        rw [List.append_nil]
        rfl
      | test =>
        refine ⟨[Method.test.sending r.seq r.connection], [], ?_, rfl⟩
        rw [List.append_nil]
        rfl

section
variable (w : Platform) (j : Json)

/-- the requests that a content brings -/
def requests (behind : ByteArray) (header : NetPackageHeader) (connection : Nat) :
    Decoded → List Request
  | .data tmpData =>
    if header.m_cmd = NET_CMD_RPC then
      (BaseServer.request j behind header.m_seq connection tmpData).toList
    else []
  | .dropped => []
  | .threw => []

/-- what is answered to it at once -/
def answersAtOnce (header : NetPackageHeader) (connection : Nat) : Decoded → List Output
  | .data _ =>
    if header.m_cmd = NET_CMD_KEEPALIVE then
      [.keepAlive connection (keepAliveResponseBytes w.order)]
    else []
  | .dropped => []
  | .threw => []

theorem onContent_posts (s : Service φ) (behind : ByteArray) (header : NetPackageHeader)
    (connection : Nat) (d : Decoded) : s.onContent w j behind header connection d
      = { s with
          m_strand := s.m_strand ++ requests j behind header connection d
          posted := s.posted ++ requests j behind header connection d
          outputs := s.outputs ++ answersAtOnce w header connection d } := by
  have hnothing : s = { s with
      m_strand := s.m_strand ++ [], posted := s.posted ++ [], outputs := s.outputs ++ [] } := by
    rw [List.append_nil, List.append_nil, List.append_nil]
  cases d with
  | dropped => exact hnothing
  | threw => exact hnothing
  | data tmpData =>
    unfold onContent requests answersAtOnce
    dsimp only
    by_cases hrpc : header.m_cmd = NET_CMD_RPC
    · have hne : header.m_cmd ≠ NET_CMD_KEEPALIVE := by
        rw [hrpc]
        decide
      rw [if_pos hrpc, if_pos hrpc, if_neg hne]
      cases BaseServer.request j behind header.m_seq connection tmpData with
      | none => exact hnothing
      | some r =>
        dsimp only
        rw [List.append_nil]
        rfl
    · rw [if_neg hrpc, if_neg hrpc]
      split
      · rw [List.append_nil, List.append_nil]
      · exact hnothing

/-- what a step can do -/
inductive Does (s : Service φ) : ServiceEvent φ → Service φ → Prop where
  | registerFunc (method : ByteArray) (func : φ) :
    Does s (.registerFunc method func) (s.registerFunc method func)
  | regist : Does s .regist s.regist
  | receives {fuel : Nat} {behind : ByteArray} {header : NetPackageHeader} {content : ByteArray}
      {connection : Nat} (r : BitVec 8 × Decoded)
      (hr : BaseServer.decode w fuel (s.m_compressType connection) header content = some r) :
    Does s (.onPackageReceived fuel behind header content connection) { s with
      m_compressType := Function.update s.m_compressType connection r.1
      packages := s.packages ++ [(connection, header, content)]
      m_strand := s.m_strand ++ requests j behind header connection r.2
      posted := s.posted ++ requests j behind header connection r.2
      outputs := s.outputs ++ answersAtOnce w header connection r.2 }
  | handles {behind : ByteArray} {fresh fresh' : Nat → DataEventRaw} (r : Request)
      (rs : List Request) (hr : s.m_strand = r :: rs) (xs ys : List Sending)
      (hxy : xs ++ ys = (_sending r (s.m_funcTable.lookup r.func)).toList) :
    Does s (.onRequest behind fresh fresh') { s with
      m_strand := rs
      handled := s.handled ++ [(r, s.m_funcTable.lookup r.func)]
      m_io := s.m_io ++ xs
      m_ioservice := s.m_ioservice ++ ys }
  | io {i : Nat} {z : Deflate} (t : Sending) (hi : s.m_io[i]? = some t) :
    Does s (.io i z) { s with
      m_io := s.m_io.eraseIdx i, outputs := s.outputs ++ [t.run w.order j z] }
  | ioservice {i : Nat} {z : Deflate} (t : Sending) (hi : s.m_ioservice[i]? = some t) :
    Does s (.ioservice i z) { s with
      m_ioservice := s.m_ioservice.eraseIdx i, outputs := s.outputs ++ [t.run w.order j z] }

variable {w j}

theorem step_does {s s' : Service φ} {e : ServiceEvent φ} (h : s.step w j e = some s') :
    Does w j s e s' := by
  cases e with
  | registerFunc method func =>
    cases h
    exact .registerFunc method func
  | regist =>
    cases h
    exact .regist
  | onPackageReceived fuel behind header content connection =>
    obtain ⟨r, hr, rfl⟩ := Option.map_eq_some_iff.mp h
    rw [onContent_posts]
    exact .receives r hr
  | onRequest behind fresh fresh' =>
    rw [step] at h
    split at h
    · cases h
    · rename_i r rs hr
      cases h
      obtain ⟨xs, ys, he, hxy⟩ := onRequest_posts j { s with
        m_strand := rs
        handled := s.handled ++ [(r, s.m_funcTable.lookup r.func)] } behind fresh fresh' r
      rw [he]
      exact .handles r rs hr xs ys hxy
  | io i z =>
    obtain ⟨t, hi, rfl⟩ := Option.map_eq_some_iff.mp h
    exact .io t hi
  | ioservice i z =>
    obtain ⟨t, hi, rfl⟩ := Option.map_eq_some_iff.mp h
    exact .ioservice t hi

/-! ## the requests -/

/-- the responses that were handed to `sendData` -/
def answered (s : Service φ) : List Sending := s.outputs.filterMap Output.sending

/-- what holds in every state -/
structure Accounts (s : Service φ) : Prop where
  fifo : s.posted = s.handled.map Prod.fst ++ s.m_strand
  once : (s.answered ++ (s.m_io ++ s.m_ioservice)).Perm
    (s.handled.filterMap fun h => _sending h.1 h.2)
  table : ∀ func m, s.m_funcTable.lookup func = some (.method m) → func = m.name
  named : ∀ h ∈ s.handled, ∀ m, h.2 = some (.method m) → h.1.func = m.name

theorem accounts_start : Accounts (start : Service φ) where
  fifo := rfl
  once := .refl _
  table := fun func m h => by cases h
  named := List.forall_mem_nil _

theorem answeredAtOnce_sending (header : NetPackageHeader) (connection : Nat) (d : Decoded) :
    (answersAtOnce w header connection d).filterMap Output.sending = [] := by
  cases d with
  | data tmpData =>
    unfold answersAtOnce
    dsimp only
    split <;> rfl
  | dropped => rfl
  | threw => rfl

theorem lookup_add (t : FuncTable φ) (method func : ByteArray) (f : ProcessFunc φ) :
    (t.add method f).lookup func
      = (t.lookup func).or (if func = method then some f else none) := by
  unfold FuncTable.add
  by_cases hm : method ∈ t
  · rw [if_pos hm]
    by_cases hf : func = method
    · rw [← hf, ← AList.lookup_isSome] at hm
      rw [if_pos hf]
      obtain ⟨g, hg⟩ := Option.isSome_iff_exists.mp hm
      rw [hg]
      rfl
    · rw [if_neg hf, Option.or_none]
  · rw [if_neg hm]
    by_cases hf : func = method
    · rw [hf, AList.lookup_insert, if_pos rfl, AList.lookup_eq_none.mpr hm]
      rfl
    · rw [AList.lookup_insert_ne hf, if_neg hf, Option.or_none]

theorem lookup_regist (s : Service φ) (func : ByteArray) : s.regist.m_funcTable.lookup func
    = (s.m_funcTable.lookup func).or ((Method.ofName func).map .method) := by
  show ((s.m_funcTable.add kStat (.method .stat)).add kTest (.method .test)).lookup func = _
  rw [lookup_add, lookup_add, Option.or_assoc]
  congr 1
  unfold Method.ofName
  split
  · rfl
  · split <;> rfl

theorem lookup_registerFunc (s : Service φ) (method func : ByteArray) (f : φ) :
    (s.registerFunc method f).m_funcTable.lookup func
      = if func = method then some (.app f) else s.m_funcTable.lookup func := by
  show (s.m_funcTable.insert method (.app f)).lookup func = _
  split
  · rename_i hf
    rw [hf, AList.lookup_insert]
  · rename_i hf
    rw [AList.lookup_insert_ne hf]

theorem accounts_step {s s' : Service φ} {e : ServiceEvent φ} (hA : Accounts s)
    (h : s.step w j e = some s') : Accounts s' := by
  cases step_does h with
  | registerFunc method f =>
    refine ⟨hA.fifo, hA.once, fun func m hf => ?_, hA.named⟩
    rw [lookup_registerFunc] at hf
    split at hf
    · cases hf
    · exact hA.table func m hf
  | regist =>
    refine ⟨hA.fifo, hA.once, fun func m hf => ?_, hA.named⟩
    rw [lookup_regist] at hf
    rcases Option.or_eq_some_iff.mp hf with hf | ⟨-, hf⟩
    · exact hA.table func m hf
    · obtain ⟨m', hm, he⟩ := Option.map_eq_some_iff.mp hf
      cases he
      exact Method.ofName_some hm
  | @receives fuel behind header content connection r hr =>
    refine ⟨?_, ?_, hA.table, hA.named⟩
    · show s.posted ++ _ = s.handled.map Prod.fst ++ (s.m_strand ++ _)
      rw [hA.fifo, List.append_assoc]
    · show ((s.outputs ++ _).filterMap Output.sending ++ _).Perm _
      rw [List.filterMap_append, answeredAtOnce_sending, List.append_nil]
      exact hA.once
  | handles r rs hr xs ys hxy =>
    refine ⟨?_, ?_, hA.table, fun x hx m hm => ?_⟩
    · show s.posted = (s.handled ++ [_]).map Prod.fst ++ rs
      rw [hA.fifo, hr, List.map_append, List.append_assoc]
      rfl
    · show (s.answered ++ ((s.m_io ++ xs) ++ (s.m_ioservice ++ ys))).Perm
        ((s.handled ++ [_]).filterMap _)
      have hnew : [(r, s.m_funcTable.lookup r.func)].filterMap (fun h => _sending h.1 h.2)
          = xs ++ ys := by
        rw [hxy, List.filterMap_cons, List.filterMap_nil]
        dsimp only
        cases _sending r (s.m_funcTable.lookup r.func) <;> rfl
      rw [List.filterMap_append, hnew]
      refine List.Perm.trans ?_ (hA.once.append_right _)
      rw [List.append_assoc, List.append_assoc, List.append_assoc]
      refine (List.Perm.append_left _ (List.Perm.append_left _ ?_))
      exact (List.perm_append_comm_assoc xs s.m_ioservice ys)
    · rcases List.mem_append.mp hx with hx | hx
      · exact hA.named x hx m hm
      · rw [List.mem_singleton.mp hx] at hm ⊢
        exact hA.table r.func m hm
  | @io i z t hi =>
    refine ⟨hA.fifo, ?_, hA.table, hA.named⟩
    show ((s.outputs ++ [t.run w.order j z]).filterMap Output.sending ++
      (s.m_io.eraseIdx i ++ s.m_ioservice)).Perm _
    refine List.Perm.trans ?_ hA.once
    rw [List.filterMap_append, List.append_assoc]
    refine List.Perm.append_left _ ?_
    exact (perm_dequeue hi).append_right _
  | @ioservice i z t hi =>
    refine ⟨hA.fifo, ?_, hA.table, hA.named⟩
    show ((s.outputs ++ [t.run w.order j z]).filterMap Output.sending ++
      (s.m_io ++ s.m_ioservice.eraseIdx i)).Perm _
    refine List.Perm.trans ?_ hA.once
    rw [List.filterMap_append, List.append_assoc]
    refine List.Perm.append_left _ ?_
    have hmiddle : (t :: (s.m_io ++ s.m_ioservice.eraseIdx i)).Perm
        (s.m_io ++ t :: s.m_ioservice.eraseIdx i) := List.perm_middle.symm
    exact hmiddle.trans ((perm_dequeue hi).append_left _)

/-- **What becomes of a request**, in every run: they are handled in the order in which they were
posted, and those for which `onRequest` has found a function of `regist` are queued or answered. -/
theorem run_accounts {s s' : Service φ} {es : List (ServiceEvent φ)} (hA : Accounts s)
    (h : run (step w j) s es = some s') : Accounts s' :=
  run_keeps Accounts (fun _ _ _ => accounts_step) hA h

/-- no function of the application takes the place of `stat` or `test` -/
def Leaves : ServiceEvent φ → Prop
  | .registerFunc method _ => Method.ofName method = none
  | .regist => True
  | .onPackageReceived .. => True
  | .onRequest .. => True
  | .io .. => True
  | .ioservice .. => True

instance : ∀ e : ServiceEvent φ, Decidable (Leaves e)
  | .registerFunc method _ => inferInstanceAs (Decidable (Method.ofName method = none))
  | .regist => .isTrue trivial
  | .onPackageReceived .. => .isTrue trivial
  | .onRequest .. => .isTrue trivial
  | .io .. => .isTrue trivial
  | .ioservice .. => .isTrue trivial

/-- the functions of `regist` are in the table, and requests for them have found them there -/
structure Registered (s : Service φ) : Prop where
  table : ∀ m, s.m_funcTable.lookup m.name = some (.method m)
  found : ∀ h ∈ s.handled, ∀ m, Method.ofName h.1.func = some m → h.2 = some (.method m)

theorem registered_start : Registered (start : Service φ).regist where
  table := fun m => by
    rw [lookup_regist, Method.ofName_name]
    rfl
  found := List.forall_mem_nil _

theorem registered_step {s s' : Service φ} {e : ServiceEvent φ} (hR : Registered s)
    (he : Leaves e) (h : s.step w j e = some s') : Registered s' := by
  cases step_does h with
  | registerFunc method f =>
    refine ⟨fun m => ?_, hR.found⟩
    have hne : m.name ≠ method := fun hm => by
      have hnone : Method.ofName method = none := he
      rw [← hm, Method.ofName_name] at hnone
      cases hnone
    rw [lookup_registerFunc, if_neg hne]
    exact hR.table m
  | regist =>
    refine ⟨fun m => ?_, hR.found⟩
    rw [lookup_regist, hR.table m]
    rfl
  | receives r hr => exact ⟨hR.table, hR.found⟩
  | handles r rs hr xs ys hxy =>
    refine ⟨hR.table, fun x hx m hm => ?_⟩
    rcases List.mem_append.mp hx with hx | hx
    · exact hR.found x hx m hm
    · rw [List.mem_singleton.mp hx] at hm ⊢
      show s.m_funcTable.lookup r.func = _
      rw [Method.ofName_some hm]
      exact hR.table m
  | io t hi => exact ⟨hR.table, hR.found⟩
  | ioservice t hi => exact ⟨hR.table, hR.found⟩

/-- each request for `stat` or `test` that was posted is waiting in the strand, or its response is
posted, or was handed to `sendData` of its connection, in a message with its number -/
structure Served (w : Platform) (j : Json) (s : Service φ) : Prop where
  fifo : s.posted = s.handled.map Prod.fst ++ s.m_strand
  once : (s.answered ++ (s.m_io ++ s.m_ioservice) ++ s.m_strand.filterMap Request.sending).Perm
    (s.posted.filterMap Request.sending)
  messages : ∀ t bytes, .response t bytes ∈ s.outputs →
    ∃ z, bytes = BaseServer.sends w.order j z t.resp t.status t.seq

/-- what was found for a request is what it is for -/
theorem sending_found {s : Service φ} (hA : Accounts s) (hR : Registered s)
    {h : Request × Option (ProcessFunc φ)} (hh : h ∈ s.handled) :
    _sending h.1 h.2 = h.1.sending := by
  unfold Request.sending
  cases hm : Method.ofName h.1.func with
  | some m =>
    rw [hR.found h hh m hm]
    rfl
  | none =>
    cases hf : h.2 with
    | none => rfl
    | some f =>
      cases f with
      | app f => rfl
      | method m =>
        rw [hA.named h hh m hf, Method.ofName_name] at hm
        cases hm

theorem messages_step {s s' : Service φ} {e : ServiceEvent φ}
    (hM : ∀ t bytes, .response t bytes ∈ s.outputs →
      ∃ z, bytes = BaseServer.sends w.order j z t.resp t.status t.seq)
    (h : s.step w j e = some s') : ∀ t bytes, .response t bytes ∈ s'.outputs →
      ∃ z, bytes = BaseServer.sends w.order j z t.resp t.status t.seq := by
  have hrun : ∀ (t : Sending) (z : Deflate) (t' : Sending) (bytes : ByteArray),
      Output.response t' bytes ∈ s.outputs ++ [t.run w.order j z] →
      ∃ z, bytes = BaseServer.sends w.order j z t'.resp t'.status t'.seq := by
    intro t z t' bytes hmem
    rcases List.mem_append.mp hmem with hmem | hmem
    · exact hM t' bytes hmem
    · obtain ⟨rfl, rfl⟩ := Output.response.inj (List.mem_singleton.mp hmem)
      refine ⟨z, ?_⟩
      cases t'.method <;> rfl
  cases step_does h with
  | registerFunc method f => exact hM
  | regist => exact hM
  | @receives fuel behind header content connection r hr =>
    intro t bytes hmem
    rcases List.mem_append.mp hmem with hmem | hmem
    · exact hM t bytes hmem
    · have hnone : Output.sending (.response t bytes) = none :=
        List.filterMap_eq_nil_iff.mp (answeredAtOnce_sending header connection r.2) _ hmem
      cases hnone
  | handles r rs hr xs ys hxy => exact hM
  | io t hi => exact hrun t _
  | ioservice t hi => exact hrun t _

end

/-! ### two requests -/

/-- the trees of the response to a request for `test`, and of its parameters -/
def testResponse : ptree :=
  ((PTree.leaf []).put kStatus kOk).put_child kParam ((PTree.leaf []).put kResp kResponseOfTest)

def testResponseParam : ptree := (PTree.leaf []).put kResp kResponseOfTest

/-- `{"resp":"this is response of test"}` and a newline -/
def testResponseParamText : ByteArray :=
  [0x7b, 0x22, 0x72, 0x65, 0x73, 0x70, 0x22, 0x3a, 0x22] ++ kResponseOfTest ++ [0x22, 0x7d, 0x0a]

/-- `{"status":"ok","param":{"resp":"this is response of test"}}` and a newline -/
def testResponseText : ByteArray :=
  [0x7b, 0x22, 0x73, 0x74, 0x61, 0x74, 0x75, 0x73, 0x22, 0x3a, 0x22, 0x6f, 0x6b, 0x22, 0x2c, 0x22,
   0x70, 0x61, 0x72, 0x61, 0x6d, 0x22, 0x3a, 0x7b, 0x22, 0x72, 0x65, 0x73, 0x70, 0x22, 0x3a, 0x22] ++
    kResponseOfTest ++ [0x22, 0x7d, 0x7d, 0x0a]

/-- a helper that knows both texts -/
def serviceJson : Json :=
  .of [(testFunc.put_child kParam testParam, testText), (testParam, testParamText),
    (testResponse, testResponseText), (testResponseParam, testResponseParamText)] (by decide)

/-- the request comes on two connections with the numbers 7 and 9; the second one is answered
first -/
def twoRequests : List (ServiceEvent Unit) :=
  [.onPackageReceived 0 [] (NetPackageHeader.make NET_CMD_RPC 7 0 0) testText 0,
   .onPackageReceived 0 [] (NetPackageHeader.make NET_CMD_RPC 9 0 0) testText 1,
   .registerFunc kResp (), .onRequest [] (fun _ => helloEvent) (fun _ => helloEvent),
   .onRequest [] (fun _ => helloEvent) (fun _ => helloEvent), .io 1 .noMemory, .io 0 .noMemory]

section
variable {w : Platform} {j : Json}

/-! ## the table -/

/-- the functions that were registered under a name, in their order -/
def registered (func : ByteArray) (es : List (ServiceEvent φ)) : List φ :=
  es.filterMap fun
    | .registerFunc method f => if func = method then some f else none
    | _ => none

def isRegist : ServiceEvent φ → Bool
  | .regist => true
  | _ => false

/-- the function that was registered last under a name; without one, the function of `regist`, if
that was called -/
def standsFor (func : ByteArray) (es : List (ServiceEvent φ)) : Option (ProcessFunc φ) :=
  ((registered func es).getLast?.map .app).or
    (if es.any isRegist then (Method.ofName func).map .method else none)

theorem registered_concat (func : ByteArray) (es : List (ServiceEvent φ)) (e : ServiceEvent φ) :
    registered func (es ++ [e]) = registered func es ++ registered func [e] :=
  List.filterMap_append ..

theorem standsFor_registerFunc (func method : ByteArray) (f : φ) (es : List (ServiceEvent φ)) :
    standsFor func (es ++ [.registerFunc method f])
      = if func = method then some (.app f) else standsFor func es := by
  have hany : [ServiceEvent.registerFunc method f].any isRegist = false := rfl
  unfold standsFor
  rw [registered_concat, List.any_append, hany, Bool.or_false]
  by_cases hf : func = method
  · have hone : registered func [.registerFunc method f] = [f] :=
      List.filterMap_cons_some (if_pos hf)
    rw [if_pos hf, hone, List.getLast?_concat]
    rfl
  · have hnone : registered func [.registerFunc method f] = [] :=
      List.filterMap_cons_none (if_neg hf)
    rw [if_neg hf, hnone, List.append_nil]

theorem standsFor_regist (func : ByteArray) (es : List (ServiceEvent φ)) :
    standsFor func (es ++ [.regist])
      = (standsFor func es).or ((Method.ofName func).map .method) := by
  have hany : [(ServiceEvent.regist : ServiceEvent φ)].any isRegist = true := rfl
  have hnone : registered func [(.regist : ServiceEvent φ)] = [] := rfl
  unfold standsFor
  rw [registered_concat, List.any_append, hany, Bool.or_true, hnone, List.append_nil, if_pos rfl,
    Option.or_assoc]
  congr 1
  split
  · exact Option.or_self.symm
  · rfl

/-- an event that does not touch the table -/
theorem standsFor_other (func : ByteArray) (es : List (ServiceEvent φ)) {e : ServiceEvent φ}
    (hr : registered func [e] = []) (he : isRegist e = false) :
    standsFor func (es ++ [e]) = standsFor func es := by
  unfold standsFor
  rw [registered_concat, hr, List.append_nil, List.any_append, List.any_cons, he, List.any_nil,
    Bool.or_false, Bool.or_false]

/-- **What a name stands for**, after any history of the table: the function that the application
has registered last under it; if there is none, the function of `regist`, as soon as that was
called, before or after. -/
theorem table_lookup {es : List (ServiceEvent φ)} {s : Service φ}
    (h : run (step w j) start es = some s) (func : ByteArray) :
    s.m_funcTable.lookup func = standsFor func es := by
  have hstart : (start : Service φ).m_funcTable.lookup func = standsFor func [] := rfl
  have hstep : ∀ (s : Service φ) e s' es, s.m_funcTable.lookup func = standsFor func es →
      s.step w j e = some s' → s'.m_funcTable.lookup func = standsFor func (es ++ [e]) := by
    intro s e s' es hJ hs
    cases step_does hs with
    | registerFunc method f => rw [standsFor_registerFunc, lookup_registerFunc, hJ]
    | regist => rw [standsFor_regist, lookup_regist, hJ]
    | receives r hr => exact hJ.trans (standsFor_other func es rfl rfl).symm
    | handles r rs hr xs ys hxy => exact hJ.trans (standsFor_other func es rfl rfl).symm
    | io t hi => exact hJ.trans (standsFor_other func es rfl rfl).symm
    | ioservice t hi => exact hJ.trans (standsFor_other func es rfl rfl).symm
  exact run_history (fun s es => s.m_funcTable.lookup func = standsFor func es) hstep hstart h

/-- a function of the application stays when `regist` is called after it -/
theorem table_lookup_kept :
    ∃ s, run (step testPlatform serviceJson) (start : Service Nat)
        [.registerFunc kTest 5, .regist] = some s ∧
      s.m_funcTable.lookup kTest = standsFor kTest [.registerFunc kTest 5, .regist] ∧
      standsFor kTest [.registerFunc kTest 5, .regist] = some (.app 5) := by
  have h : run (step testPlatform serviceJson) (start : Service Nat)
      [.registerFunc kTest 5, .regist] = some (start.registerFunc kTest 5).regist := rfl
  exact ⟨_, h, table_lookup h kTest, rfl⟩

/-! ## one connection -/

/-- a request on the connection for a function of `regist` -/
def isFor (connection : Nat) (r : Request) : Bool :=
  r.connection = connection ∧ (Method.ofName r.func).isSome

/-- the server as one of its connections knows it -/
def view (connection : Nat) (s : Service φ) : ServerConnection where
  m_compressType := s.m_compressType connection
  packages := (s.packages.filter fun p => p.1 = connection).map Prod.snd
  requests := (s.posted.filter (isFor connection)).map Request.seq
  sent := (s.outputs.filter fun o => o.connection = connection).map Output.bytes

/-- a response of the connection, as an event of it -/
def responds (connection : Nat) (z : Deflate) (t : Sending) : List ServerEvent :=
  if t.connection = connection then
    [match t.method with
      | .stat => ._send_stat z t.resp t.status t.seq
      | .test => ._send_test z t.resp t.status t.seq]
  else []

/-- the events of the connection among those of the server -/
def events (connection : Nat) (s : Service φ) : ServiceEvent φ → List ServerEvent
  | .registerFunc .. => []
  | .regist => []
  | .onPackageReceived fuel behind header content c =>
    if c = connection then [.onPackageReceived fuel behind header content] else []
  | .onRequest .. => []
  | .io i z => s.m_io[i]?.elim [] (responds connection z)
  | .ioservice i z => s.m_ioservice[i]?.elim [] (responds connection z)

/-- what a response answers is a request that was posted -/
theorem posted_of_queued {s : Service φ} (hA : Accounts s) {t : Sending}
    (ht : t ∈ s.m_io ++ s.m_ioservice) :
    t.seq ∈ (s.view t.connection).requests := by
  have hmem : t ∈ s.handled.filterMap fun h => _sending h.1 h.2 :=
    hA.once.mem_iff.mp (List.mem_append_right _ ht)
  obtain ⟨⟨r, f⟩, hh, hs⟩ := List.mem_filterMap.mp hmem
  dsimp only at hs
  cases f with
  | none => cases hs
  | some f =>
    cases f with
    | app f => cases hs
    | method m =>
      cases hs
      refine List.mem_map.mpr ⟨r, List.mem_filter.mpr ⟨?_, ?_⟩, rfl⟩
      · rw [hA.fifo]
        exact List.mem_append_left _ (List.mem_map.mpr ⟨_, hh, rfl⟩)
      · refine decide_eq_true ⟨rfl, ?_⟩
        have hname : r.func = m.name := hA.named _ hh m rfl
        rw [hname, Method.ofName_name]
        rfl

/-- what is sent on another connection does not concern this one -/
theorem responds_step {s : Service φ} {t : Sending} (hA : Accounts s)
    (ht : t ∈ s.m_io ++ s.m_ioservice) (connection : Nat) (z : Deflate) :
    run (ServerConnection.step w j) (s.view connection) (responds connection z t)
      = some { s.view connection with
          sent := ((s.outputs ++ [t.run w.order j z]).filter fun o =>
            o.connection = connection).map Output.bytes } := by
  unfold responds
  rw [List.filter_append, List.map_append]
  by_cases hc : t.connection = connection
  · have hposted := posted_of_queued hA ht
    rw [hc] at hposted
    have hone : [t.run w.order j z].filter (fun o => o.connection = connection)
        = [t.run w.order j z] := List.filter_cons_of_pos (decide_eq_true hc)
    rw [if_pos hc, hone]
    refine run_single ?_
    unfold Sending.run
    cases t.method with
    | stat => exact if_pos hposted
    | test => exact if_pos hposted
  · have hnone : [t.run w.order j z].filter (fun o => o.connection = connection) = [] :=
      List.filter_cons_of_neg fun hd => hc (of_decide_eq_true hd)
    rw [if_neg hc, hnone, List.map_nil, List.append_nil]
    rfl

theorem funcTable_isSome (func : ByteArray) :
    (BaseServer.funcTable.lookup func).isSome = (Method.ofName func).isSome := by
  unfold Method.ofName BaseServer.funcTable
  rw [List.lookup_cons, List.lookup_cons]
  by_cases hs : func = kStat
  · rw [if_pos hs, beq_iff_eq.mpr hs]
    rfl
  · rw [if_neg hs, beq_eq_false_iff_ne.mpr hs]
    by_cases ht : func = kTest
    · rw [if_pos ht, beq_iff_eq.mpr ht]
      rfl
    · rw [if_neg ht, beq_eq_false_iff_ne.mpr ht]
      rfl

/-- the requests of a content that are for functions of `regist` -/
theorem requests_posts (behind : ByteArray) (header : NetPackageHeader) (c : Nat)
    (tmpData : ByteArray) :
    ((BaseServer.request j behind header.m_seq c tmpData).toList.filter (isFor c)).map Request.seq
      = BaseServer.posts j behind header.m_seq tmpData := by
  unfold BaseServer.request BaseServer.posts
  cases jsonHelper.getString j kFunc behind tmpData with
  | none => rfl
  | some func =>
    rw [Option.bind_some]
    dsimp only
    cases jsonHelper.getSubJson j kParam behind tmpData with
    | none => rfl
    | some param =>
      rw [Option.map_some, Option.toList_some]
      dsimp only
      rw [funcTable_isSome]
      by_cases hf : (Method.ofName func).isSome = true
      · have hfor : isFor c ⟨func, param, header.m_seq, c⟩ = true := decide_eq_true ⟨rfl, hf⟩
        rw [if_pos hf, List.filter_cons_of_pos hfor]
        rfl
      · have hnot : ¬ isFor c ⟨func, param, header.m_seq, c⟩ = true := fun hd =>
          hf (of_decide_eq_true hd).2
        rw [if_neg hf, List.filter_cons_of_neg hnot]
        rfl

theorem connection_onContent (t : ServerConnection) (behind : ByteArray)
    (header : NetPackageHeader) (c : Nat) (d : Decoded) : t.onContent w j behind header d
      = { t with
          requests := t.requests ++
            ((requests j behind header c d).filter (isFor c)).map Request.seq
          sent := t.sent ++ (answersAtOnce w header c d).map Output.bytes } := by
  have hnothing : t = { t with requests := t.requests ++ [], sent := t.sent ++ [] } := by
    rw [List.append_nil, List.append_nil]
  cases d with
  | dropped => exact hnothing
  | threw => exact hnothing
  | data tmpData =>
    unfold ServerConnection.onContent requests answersAtOnce
    dsimp only
    by_cases hrpc : header.m_cmd = NET_CMD_RPC
    · have hne : header.m_cmd ≠ NET_CMD_KEEPALIVE := by
        rw [hrpc]
        decide
      rw [if_pos hrpc, if_pos hrpc, if_neg hne, requests_posts, List.map_nil, List.append_nil]
    · rw [if_neg hrpc, if_neg hrpc, List.filter_nil, List.map_nil, List.append_nil]
      split
      · rfl
      · rw [List.map_nil, List.append_nil]

/-- what a content brings is of its connection -/
theorem requests_connection {behind : ByteArray} {header : NetPackageHeader} {c : Nat} {d : Decoded}
    {r : Request} (hr : r ∈ requests j behind header c d) : r.connection = c := by
  cases d with
  | dropped => cases hr
  | threw => cases hr
  | data tmpData =>
    unfold requests at hr
    dsimp only at hr
    split at hr
    · rw [Option.mem_toList] at hr
      obtain ⟨func, -, hr⟩ := Option.bind_eq_some_iff.mp hr
      obtain ⟨param, -, rfl⟩ := Option.map_eq_some_iff.mp hr
      rfl
    · cases hr

theorem answersAtOnce_connection {header : NetPackageHeader} {c : Nat} {d : Decoded} {o : Output}
    (ho : o ∈ answersAtOnce w header c d) : o.connection = c := by
  cases d with
  | dropped => cases ho
  | threw => cases ho
  | data tmpData =>
    unfold answersAtOnce at ho
    dsimp only at ho
    split at ho
    · rw [List.mem_singleton.mp ho]
      rfl
    · cases ho

theorem view_step {s s' : Service φ} {e : ServiceEvent φ} (connection : Nat) (hA : Accounts s)
    (h : s.step w j e = some s') :
    run (ServerConnection.step w j) (s.view connection) (s.events connection e)
      = some (s'.view connection) := by
  cases step_does h with
  | registerFunc method f => rfl
  | regist => rfl
  | @receives fuel behind header content c r hr =>
    unfold events view
    dsimp only
    rw [List.filter_append, List.filter_append, List.filter_append, List.map_append, List.map_append,
      List.map_append]
    by_cases hc : c = connection
    · subst hc
      have houts : (answersAtOnce w header c r.2).filter (fun o => o.connection = c)
          = answersAtOnce w header c r.2 :=
        List.filter_eq_self.mpr fun o ho => decide_eq_true (answersAtOnce_connection ho)
      have hpkg : [(c, header, content)].filter (fun p => p.1 = c) = [(c, header, content)] :=
        List.filter_cons_of_pos (decide_eq_true rfl)
      rw [if_pos rfl, Function.update_self, houts, hpkg]
      refine run_single ?_
      show (BaseServer.decode w fuel (s.m_compressType c) header content).map _ = _
      rw [hr, Option.map_some, connection_onContent _ _ _ c]
      rfl
    · have hreqs : (requests j behind header c r.2).filter (isFor connection) = [] :=
        List.filter_eq_nil_iff.mpr fun x hx hd =>
          hc ((requests_connection hx).symm.trans (of_decide_eq_true hd).1)
      have houts : (answersAtOnce w header c r.2).filter (fun o => o.connection = connection) = [] :=
        List.filter_eq_nil_iff.mpr fun o ho hd =>
          hc ((answersAtOnce_connection ho).symm.trans (of_decide_eq_true hd))
      have hpkg : [(c, header, content)].filter (fun p => p.1 = connection) = [] :=
        List.filter_cons_of_neg fun hd => hc (of_decide_eq_true hd)
      rw [if_neg hc, Function.update_of_ne (Ne.symm hc), hreqs, houts, hpkg, List.map_nil,
        List.map_nil, List.map_nil, List.append_nil, List.append_nil, List.append_nil]
      rfl
  | handles r rs hr xs ys hxy => rfl
  | @io i z t hi =>
    show run _ _ (s.m_io[i]?.elim [] (responds connection z)) = _
    rw [hi]
    exact responds_step hA (List.mem_append_left _ (List.mem_of_getElem? hi)) connection z
  | @ioservice i z t hi =>
    show run _ _ (s.m_ioservice[i]?.elim [] (responds connection z)) = _
    rw [hi]
    exact responds_step hA (List.mem_append_right _ (List.mem_of_getElem? hi)) connection z

end

end Service

end Netwb
