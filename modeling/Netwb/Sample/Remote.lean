import Netwb.Sample.Numbers
import Netwb.Sample.Service

/-!
# Remote calls

A client and the server with the messages between them: `_stat` and `_test` build a request in JSON,
`request` numbers it, compresses it and sends it, the server works on it among the requests of all
its other connections, and what comes back is decoded, read as JSON and handed to the callback that
waits under its number.  In between both sides exchange keep-alive packages.

The calls, the messages, the strand and the threads take their steps in any order.

* `step_moves`  what a step can do while everything that is on its way can be read;
* `sound_step`  and this stays so.
-/

namespace Netwb
open Wire Machine

/-! ## the client -/

/-- `error` -/
def kError : ByteArray := [0x65, 0x72, 0x72, 0x6f, 0x72]

/-- a `string` of its bytes -/
def stringOf (bytes : ByteArray) : String := .ofList (bytes.map fun b => Char.ofNat b.toNat)

/-- the function that a callback is for -/
def CallBack.method : CallBack → Method
  | .onStat => .stat
  | .onTest => .test

/-- what `MAKEREQBEGIN` makes of its name -/
def CallBack.func (cb : CallBack) : ptree := (PTree.leaf []).put kFunc cb.method.name

/-- the parameters of `_test(id)` -/
def idParam (id : BitVec 32) : ptree := (PTree.leaf []).put kId (putInt id)

/-- what `MAKEREQEND(req)` leaves in `req`, which stays empty when `write_json` throws -/
def BaseClient.req (j : Json) (cb : CallBack) (pts : ptree) : ByteArray :=
  (jsonHelper.getJson j cb.func pts).getD []

/-- the package of the command `NET_CMD_RPC` with the number `seq`, as `onPackageReceived` reads
it -/
def BaseClient.response (j : Json) (behind : ByteArray) (seq : BitVec 64) (tmpData : ByteArray) :
    Response where
  m_seq := seq.toInt
  status := (jsonHelper.getString j kStatus behind tmpData).map stringOf
  error := (jsonHelper.getString j kError behind tmpData).map stringOf
  param := jsonHelper.getSubJson j kParam behind tmpData

/-- a call of `onStat(resp, error)` or `onTest(resp, error)` -/
structure Answer where
  cb : CallBack
  resp : ByteArray
  error : String
deriving DecidableEq

/-- `_onStat(resp, error)` and `_onTest(resp, error)` -/
def Invocation.answer (j : Json) (behind : ByteArray) (i : Invocation CallBack) : Answer :=
  ⟨i.cb, (jsonHelper.getString j kResp behind i.param).getD [], i.error⟩

/-- what the client hands to `sendData`: a request, or a keep-alive package -/
inductive Message where
  | request (seq : Int) (cb : CallBack) (req bytes : ByteArray)
  | keepAlive (bytes : ByteArray)
deriving DecidableEq

def Message.bytes : Message → ByteArray
  | .request _ _ _ bytes => bytes
  | .keepAlive bytes => bytes

/-- the client is on connection 0 of the server -/
def Request.ofClient (r : Request) : Bool := r.connection = 0

def Sending.toClient (t : Sending) : Bool := t.connection = 0

def Output.toClient (o : Output) : Bool := o.connection = 0

namespace Remote

/-- a call of `request` -/
structure Call where
  seq : Int
  cb : CallBack
  req : ByteArray
  phase : Rpc.Phase
deriving DecidableEq

end Remote

/-! ## the system -/

structure Remote (φ : Type) where
  client : BaseClient CallBack
  m_compressType : BitVec 8
  calls : List Remote.Call
  toServer : List Message
  server : Service φ
  toClient : List Output
  /-- the callbacks that were called, and what they have handed on -/
  invoked : List (Invocation CallBack)
  answers : List Answer

namespace Remote
variable {φ : Type}

inductive Event (φ : Type) where
  | _stat (behind behind' : Nat → ByteArray) (UpdateEvents CreditEvents : List DataEventRaw)
  | _test (id : BitVec 32)
  /-- call `i` sends, and `sendData` returns `ok` -/
  | sendData (i : Nat) (z : Deflate) (ok : Bool)
  | register (i : Nat)
  /-- the timer of the client's connection, or of the server's, sends a keep-alive package -/
  | clientKeepAlive
  | serverKeepAlive
  /-- the server receives the `k`-th message on its way -/
  | arrives (k fuel : Nat) (behind : ByteArray)
  /-- the server does something else -/
  | server (e : ServiceEvent φ)
  /-- the client receives the `k`-th message on its way; `behind'` lies behind the parameters -/
  | onPackageReceived (k fuel : Nat) (behind behind' : ByteArray)

def start : Remote φ := ⟨⟨∅, 0⟩, 0, [], [], Service.start.regist, [], [], []⟩

/-- the package comes in on the client's connection -/
def isOwnPackage : ServiceEvent φ → Bool
  | .onPackageReceived _ _ _ _ connection => connection = 0
  | _ => false

section
variable (w : Platform) (j : Json)

/-- the beginning of `request(req, cb, NET_CMD_RPC, COMPRESS_DOUBLE_ZLIB)` -/
def request (s : Remote φ) (cb : CallBack) (req : ByteArray) : Option (Remote φ) :=
  s.client.genSeq.map fun (client, seq) =>
    { s with client, calls := s.calls ++ [⟨seq, cb, req, .drawn⟩] }

/-- the server takes a step, and what it sends to the client is on its way -/
def serves (s : Remote φ) (e : ServiceEvent φ) : Option (Remote φ) :=
  (s.server.step w j e).map fun server =>
    { s with
      server
      toClient := s.toClient ++
        (server.outputs.drop s.server.outputs.length).filter Output.toClient }

/-- the `switch` of `BaseClient::onPackageReceived` -/
def onContent (s : Remote φ) (behind behind' : ByteArray) (header : NetPackageHeader) :
    Decoded → Remote φ
  | .data tmpData =>
    if header.m_cmd = NET_CMD_RPC then
      let (client, inv) :=
        s.client.onPackageReceived (BaseClient.response j behind header.m_seq tmpData)
      { s with
        client
        invoked := s.invoked ++ inv.toList
        answers := s.answers ++ inv.toList.map fun i => i.answer j behind' }
    else if header.m_cmd = NET_CMD_KEEPALIVE then
      { s with toServer := s.toServer ++ [.keepAlive (keepAliveResponseBytes w.order)] }
    else s
  | .dropped => s
  | .threw => s

def step (s : Remote φ) : Event φ → Option (Remote φ)
  | ._stat behind behind' UpdateEvents CreditEvents =>
    (statParam behind behind' UpdateEvents CreditEvents).bind fun pts =>
      s.request .onStat (BaseClient.req j .onStat pts)
  | ._test id => s.request .onTest (BaseClient.req j .onTest (idParam id))
  | .sendData i z ok =>
    match s.calls[i]? with
    | some ⟨seq, cb, req, .drawn⟩ =>
      if ok then
        some { s with
          calls := s.calls.set i ⟨seq, cb, req, .sent⟩
          toServer := s.toServer ++ [.request seq cb req (BaseClient.requestBytes w.order z req
            NET_CMD_RPC (BitVec.ofInt 64 seq) (COMPRESS_DOUBLE_ZLIB.setWidth 8))] }
      else
        let inv : Invocation CallBack := ⟨cb, [], "send error"⟩
        some { s with
          calls := s.calls.set i ⟨seq, cb, req, .returned⟩
          invoked := s.invoked ++ [inv]
          answers := s.answers ++ [inv.answer j []] }
    | _ => none
  | .register i =>
    match s.calls[i]? with
    | some ⟨seq, cb, req, .sent⟩ =>
      some { s with
        client := s.client.register seq (some cb)
        calls := s.calls.set i ⟨seq, cb, req, .returned⟩ }
    | _ => none
  | .clientKeepAlive =>
    some { s with
      toServer := s.toServer ++ [.keepAlive (NetConnection.keepAliveBytes w.order)] }
  | .serverKeepAlive =>
    some { s with
      toClient := s.toClient ++ [.keepAlive 0 (NetConnection.keepAliveBytes w.order)] }
  | .arrives k fuel behind =>
    (s.toServer[k]?).bind fun m =>
      let pkg := NetPackage.ofBytes m.bytes
      { s with toServer := s.toServer.eraseIdx k }.serves w j
        (.onPackageReceived fuel behind pkg.m_pkgHeader pkg.m_pkgContent 0)
  | .server e => if isOwnPackage e then none else s.serves w j e
  | .onPackageReceived k fuel behind behind' =>
    (s.toClient[k]?).bind fun o =>
      let pkg := NetPackage.ofBytes o.bytes
      (BaseClient.decode w fuel s.m_compressType pkg.m_pkgHeader pkg.m_pkgContent).map fun r =>
        { s with toClient := s.toClient.eraseIdx k, m_compressType := r.1 }.onContent w j behind
          behind' pkg.m_pkgHeader r.2

end

/-! ## texts -/

/-- the array is not empty, and streams as the text -/
def Streams (text behind strJson : ByteArray) : Prop :=
  strJson ≠ [] ∧ cString behind strJson = text

/-- a zero byte lies behind the array -/
def EndsThere (behind : ByteArray) : Prop := behind.head? = some 0

instance (behind : ByteArray) : Decidable (EndsThere behind) := inferInstanceAs (Decidable (_ = _))

theorem streams_nul {text : ByteArray} (h : (0 : BYTE) ∉ text) (behind : ByteArray) :
    Streams text behind (text ++ [0]) :=
  ⟨List.append_ne_nil_of_right_ne_nil _ (List.cons_ne_nil _ _), cString_text h behind⟩

theorem streams_end {text behind : ByteArray} (h : (0 : BYTE) ∉ text) (hne : text ≠ [])
    (hb : EndsThere behind) : Streams text behind text := by
  obtain ⟨rest, rfl⟩ : ∃ rest, behind = 0 :: rest := List.head?_eq_some_iff.mp hb
  refine ⟨hne, ?_⟩
  have hsplit : text ++ 0 :: rest = text ++ [0] ++ rest := (List.append_cons ..)
  rw [cString, hsplit]
  exact cString_text h rest

section
variable {j : Json} {pt : ptree} {txt behind strJson : ByteArray}

/-- what is read of an array that streams as the text of a tree is read of the tree -/
theorem getField_streams {α : Type} (hread : j.read_json txt = some pt)
    (hs : Streams txt behind strJson) (codec : ptree → Option α) :
    jsonHelper.getField j codec behind strJson = codec pt := by
  rw [jsonHelper.getField, if_neg hs.1, hs.2, hread, Option.bind_some]

theorem getSubJson_streams (hread : j.read_json txt = some pt) (hs : Streams txt behind strJson)
    {field text' : ByteArray} {child : ptree} (hchild : pt.get_child field = some child)
    (hwrite : j.write_json child = some text') :
    jsonHelper.getSubJson j field behind strJson = some (text' ++ [0]) := by
  rw [jsonHelper.getSubJson, getField_streams hread hs, hchild, Option.bind_some, hwrite,
    Option.map_some]

end

/-! ## requests -/

/-- `req` is the text of a request for the function of the callback -/
def Asks (j : Json) (cb : CallBack) (req : ByteArray) : Prop :=
  ∃ pts text, j.write_json (cb.func.put_child kParam pts) = some req ∧
    j.read_json req = some (cb.func.put_child kParam pts) ∧ j.write_json pts = some text

/-- a request is written and read again -/
def Writes (j : Json) (cb : CallBack) (pts : ptree) : Prop :=
  j.RoundTrips pts ∧ j.RoundTrips (cb.func.put_child kParam pts)

theorem asks_req {j : Json} {cb : CallBack} {pts : ptree} (h : Writes j cb pts) :
    Asks j cb (BaseClient.req j cb pts) := by
  obtain ⟨⟨text, hwrite, -⟩, req, hreq, hread⟩ := h
  have hget : BaseClient.req j cb pts = req := by
    rw [BaseClient.req, jsonHelper.getJson, hreq]
    rfl
  rw [hget]
  exact ⟨pts, text, hreq, hread, hwrite⟩

theorem func_get (cb : CallBack) (pts : ptree) :
    (cb.func.put_child kParam pts).get kFunc = some cb.method.name := by
  have hne : kParam ≠ kFunc := by decide
  rw [PTree.get, PTree.get_child_put_child_ne _ hne]
  exact PTree.get_put _ _ _

section
variable {w : Platform} {j : Json} {cb : CallBack} {req : ByteArray}

/-- **What streams as a request is posted as one.** -/
theorem asks_request (ha : Asks j cb req) {behind tmpData : ByteArray}
    (hs : Streams req behind tmpData) (seq : BitVec 64) (connection : Nat) :
    ∃ value, BaseServer.request j behind seq connection tmpData
      = some ⟨cb.method.name, value, seq, connection⟩ := by
  obtain ⟨pts, text, hwrite, hread, hparam⟩ := ha
  refine ⟨text ++ [0], ?_⟩
  rw [BaseServer.request, jsonHelper.getString, getField_streams hread hs, func_get,
    Option.bind_some, getSubJson_streams hread hs (PTree.get_child_put_child _ _ _) hparam,
    Option.map_some]

/-- a message that carries the request -/
def carries (o : ByteOrder) (z : Deflate) (req : ByteArray) (seq : Int) : ByteArray :=
  BaseClient.requestBytes o z req NET_CMD_RPC (BitVec.ofInt 64 seq) (COMPRESS_DOUBLE_ZLIB.setWidth 8)

/-- what the server decodes of a request streams as the request -/
theorem request_decodes (ha : Asks j cb req) {z : Deflate} (hu : Undoes w.inflate z) (seq : Int)
    {fuel : Nat} {behind : ByteArray} (hb : EndsThere behind) {t : BitVec 8}
    {r : BitVec 8 × Decoded}
    (hr : BaseServer.decode w fuel t (NetPackage.ofBytes (carries w.order z req seq)).m_pkgHeader
      (NetPackage.ofBytes (carries w.order z req seq)).m_pkgContent = some r) :
    ∃ tmpData, r.2 = .data tmpData ∧ Streams req behind tmpData := by
  obtain ⟨pts, -, hwrite, -, -⟩ := ha
  have hne := j.not_empty hwrite
  have hno := j.no_nul hwrite
  unfold carries BaseClient.requestBytes BaseServer.decode at hr
  have hsettles := decode_settles hr
  cases hz : z.succeeds req with
  | true =>
    obtain ⟨t', h⟩ := zlib_comes
      (fun content => Vec.memcpy (Vec.resize [] (content.length + 1) 0) 0 content) hne NET_CMD_RPC
      (BitVec.ofInt 64 seq) (COMPRESS_DOUBLE_ZLIB.setWidth 8) t hu hz (.inr (by decide))
    exact ⟨req, congrArg Prod.snd (hsettles.unique h), streams_end hno hne hb⟩
  | false =>
    have h := raw_comes (w := w)
      (fun content => Vec.memcpy (Vec.resize [] (content.length + 1) 0) 0 content) hne NET_CMD_RPC
      (BitVec.ofInt 64 seq) (COMPRESS_DOUBLE_ZLIB.setWidth 8) t hz
    refine ⟨req ++ [0], ?_, streams_nul hno behind⟩
    rw [← server_raw]
    exact congrArg Prod.snd (hsettles.unique h)

/-- **A request arrives**, whether it was compressed or not. -/
theorem request_arrives (ha : Asks j cb req) {z : Deflate} (hu : Undoes w.inflate z) (seq : Int)
    {fuel : Nat} {behind : ByteArray} (hb : EndsThere behind) {t : BitVec 8}
    {r : BitVec 8 × Decoded}
    (hr : BaseServer.decode w fuel t (NetPackage.ofBytes (carries w.order z req seq)).m_pkgHeader
      (NetPackage.ofBytes (carries w.order z req seq)).m_pkgContent = some r) :
    (∃ x, Service.requests j behind
        (NetPackage.ofBytes (carries w.order z req seq)).m_pkgHeader 0 r.2 = [x] ∧
      x.func = cb.method.name ∧ x.connection = 0 ∧ x.seq.toInt = onWire seq) ∧
    Service.answersAtOnce w (NetPackage.ofBytes (carries w.order z req seq)).m_pkgHeader 0 r.2
      = [] := by
  obtain ⟨tmpData, hd, hs⟩ := request_decodes ha hu seq hb hr
  obtain ⟨pts, -, hwrite, -, -⟩ := id ha
  have hcmd : (NetPackage.ofBytes (carries w.order z req seq)).m_pkgHeader.m_cmd = NET_CMD_RPC :=
    rpc_cmd w.order z (j.not_empty hwrite) NET_CMD_RPC _ _
  have hseq : (NetPackage.ofBytes (carries w.order z req seq)).m_pkgHeader.m_seq.toInt = onWire seq :=
    wireSeq_rpcBytes w.order z req NET_CMD_RPC seq _
  generalize (NetPackage.ofBytes (carries w.order z req seq)).m_pkgHeader = header at hcmd hseq ⊢
  obtain ⟨value, hvalue⟩ := asks_request ha hs header.m_seq 0
  have hnot : header.m_cmd ≠ NET_CMD_KEEPALIVE := by
    rw [hcmd]
    decide
  refine ⟨⟨⟨cb.method.name, value, header.m_seq, 0⟩, ?_, rfl, rfl, hseq⟩, ?_⟩
  · rw [hd, Service.requests, if_pos hcmd, hvalue]
    rfl
  · rw [hd, Service.answersAtOnce, if_neg hnot]

end

/-! ## responses -/

/-- the parameters of the response of a method, and its tree -/
def responseParam (m : Method) : ptree := (PTree.leaf []).put kResp m.text

def responseTree (m : Method) : ptree :=
  ((PTree.leaf []).put kStatus kOk).put_child kParam (responseParam m)

/-- the two responses are written and read again -/
def Responds (j : Json) : Prop :=
  ∀ m, j.RoundTrips (responseParam m) ∧ j.RoundTrips (responseTree m)

/-- what `getSubJson(param, "param", ..)` gives for the response of a method -/
def paramOf (j : Json) (m : Method) : ByteArray := (j.write_json (responseParam m)).getD [] ++ [0]

/-- a response as it is read -/
def reply (j : Json) (m : Method) (seq : Int) : Response :=
  ⟨seq, some "ok", none, some (paramOf j m)⟩

theorem responseTree_get (m : Method) : (responseTree m).get kStatus = some kOk ∧
    (responseTree m).get kError = none ∧
    (responseTree m).get_child kParam = some (responseParam m) := by
  have hstatus : kParam ≠ kStatus := by decide
  refine ⟨?_, ?_, PTree.get_child_put_child _ _ _⟩
  · rw [responseTree, PTree.get, PTree.get_child_put_child_ne _ hstatus]
    exact PTree.get_put _ _ _
  · cases m <;> decide

section
variable {w : Platform} {j : Json} (hj : Responds j) (m : Method)
include hj

theorem response_text : ∃ txt, BaseServer.response j m.text kOk = txt ∧
    j.write_json (responseTree m) = some txt ∧ j.read_json txt = some (responseTree m) := by
  obtain ⟨txt, hwrite, hread⟩ := (hj m).2
  have hget : BaseServer.response j m.text kOk = txt := by
    rw [BaseServer.response, jsonHelper.getJson]
    show (j.write_json (responseTree m)).getD [] = txt
    rw [hwrite]
    rfl
  exact ⟨txt, hget, hwrite, hread⟩

/-- **What streams as a response is read as one.** -/
theorem response_reads {behind tmpData : ByteArray}
    (hs : Streams (BaseServer.response j m.text kOk) behind tmpData) (seq : BitVec 64) :
    BaseClient.response j behind seq tmpData = reply j m seq.toInt := by
  obtain ⟨txt, hget, -, hread⟩ := response_text hj m
  obtain ⟨text', hwrite, -⟩ := (hj m).1
  obtain ⟨hstatus, herror, hchild⟩ := responseTree_get m
  rw [hget] at hs
  have hparam : paramOf j m = text' ++ [0] := by
    rw [paramOf, hwrite]
    rfl
  have hok : stringOf kOk = "ok" := by decide
  rw [BaseClient.response, jsonHelper.getString, jsonHelper.getString, getField_streams hread hs,
    getField_streams hread hs, hstatus, herror, getSubJson_streams hread hs hchild hwrite, reply,
    hparam, Option.map_some, Option.map_none, hok]

omit hj in
theorem response_seq (z : Deflate) (seq : BitVec 64) : (NetPackage.ofBytes
    (BaseServer.sends w.order j z m.text kOk seq)).m_pkgHeader.m_seq.toInt = onWire seq.toInt := by
  have h := wireSeq_rpcBytes w.order z (BaseServer.response j m.text kOk) NET_CMD_RPC seq.toInt
    (COMPRESS_DOUBLE_ZLIB.setWidth 8)
  rw [BitVec.ofInt_toInt] at h
  exact h

theorem response_not_empty : BaseServer.response j m.text kOk ≠ [] := by
  obtain ⟨txt, hget, hwrite, -⟩ := response_text hj m
  rw [hget]
  exact j.not_empty hwrite

/-- **A response arrives**, when it was compressed. -/
theorem response_arrives {z : Deflate} (hu : Undoes w.inflate z)
    (hz : z.succeeds (BaseServer.response j m.text kOk) = true) (seq : BitVec 64) {fuel : Nat}
    {behind : ByteArray} (hb : EndsThere behind) {t : BitVec 8} {r : BitVec 8 × Decoded}
    (hr : BaseClient.decode w fuel t
      (NetPackage.ofBytes (BaseServer.sends w.order j z m.text kOk seq)).m_pkgHeader
      (NetPackage.ofBytes (BaseServer.sends w.order j z m.text kOk seq)).m_pkgContent = some r) :
    (NetPackage.ofBytes (BaseServer.sends w.order j z m.text kOk seq)).m_pkgHeader.m_cmd
      = NET_CMD_RPC ∧
    ∃ tmpData, r.2 = .data tmpData ∧ BaseClient.response j behind
      (NetPackage.ofBytes (BaseServer.sends w.order j z m.text kOk seq)).m_pkgHeader.m_seq tmpData
        = reply j m (onWire seq.toInt) := by
  obtain ⟨txt, hget, hwrite, -⟩ := response_text hj m
  have hne := response_not_empty hj m
  have hno : (0 : BYTE) ∉ BaseServer.response j m.text kOk := by
    rw [hget]
    exact j.no_nul hwrite
  have hseq := response_seq (w := w) (j := j) m z seq
  unfold BaseServer.sends BaseServer.sendRespBytes BaseClient.decode at hr
  obtain ⟨t', h⟩ := zlib_comes (fun _ => []) hne NET_CMD_RPC seq (COMPRESS_DOUBLE_ZLIB.setWidth 8) t
    hu hz (.inr (by decide))
  refine ⟨rpc_cmd w.order z hne NET_CMD_RPC seq _, _,
    congrArg Prod.snd ((decode_settles hr).unique h), ?_⟩
  rw [response_reads hj m (streams_end hno hne hb), hseq]

/-- **What the callback is given is the text of the method.** -/
theorem reply_answer (behind : ByteArray) (cb : CallBack) :
    (Invocation.mk cb (paramOf j m) "").answer j behind = ⟨cb, m.text, ""⟩ := by
  obtain ⟨text', hwrite, hread⟩ := (hj m).1
  have hparam : paramOf j m = text' ++ [0] := by
    rw [paramOf, hwrite]
    rfl
  have hget : (responseParam m).get kResp = some m.text := PTree.get_put _ _ _
  rw [Invocation.answer, hparam, jsonHelper.getString,
    getField_streams hread (streams_nul (j.no_nul hwrite) behind), hget]
  rfl

end

/-! ## what the server does for the client -/

/-- the requests of the client in the strand, and the responses to it that are posted -/
def strand (s : Service φ) : List Request := s.m_strand.filter Request.ofClient

def queue (s : Service φ) : List Sending := (s.m_io ++ s.m_ioservice).filter Sending.toClient

/-- no function of the application takes the place of `stat` or `test`, and the responses to the
client are compressed -/
def FairServer (w : Platform) (j : Json) (s : Service φ) : ServiceEvent φ → Prop
  | .registerFunc method _ => Method.ofName method = none
  | .io i z => Undoes w.inflate z ∧ ∀ t ∈ s.m_io[i]?, t.toClient = true →
    z.succeeds (BaseServer.response j t.resp t.status) = true
  | .ioservice i z => Undoes w.inflate z ∧ ∀ t ∈ s.m_ioservice[i]?, t.toClient = true →
    z.succeeds (BaseServer.response j t.resp t.status) = true
  | _ => True

/-- what a step does for the client: nothing, it handles its next request, or it responds -/
inductive Serves (w : Platform) (j : Json) (s s' : Service φ) : List Output → Prop where
  | idle (hs : strand s' = strand s) (hq : queue s' = queue s) : Serves w j s s' []
  | handles (r : Request) (rs : List Request) (m : Method) (hr : strand s = r :: rs)
      (hm : r.func = m.name) (hs : strand s' = rs)
      (hq : (queue s').Perm (m.sending r.seq 0 :: queue s)) : Serves w j s s' []
  | responds (t : Sending) (z : Deflate) (hu : Undoes w.inflate z)
      (hz : z.succeeds (BaseServer.response j t.resp t.status) = true) (hs : strand s' = strand s)
      (hq : (queue s).Perm (t :: queue s')) : Serves w j s s' [t.run w.order j z]

/-- the functions of `regist` are in the table, and the client asks only for them -/
structure Ready (s : Service φ) : Prop where
  table : ∀ m : Method, s.m_funcTable.lookup m.name = some (.method m)
  strand : ∀ r ∈ strand s, ∃ m : Method, r.func = m.name

/-- what is handed to `sendData` of the client's connection in a step -/
def handedOver (s s' : Service φ) : List Output :=
  (s'.outputs.drop s.outputs.length).filter Output.toClient

section
variable {w : Platform} {j : Json}

theorem handedOver_append {s s' : Service φ} {outs : List Output}
    (h : s'.outputs = s.outputs ++ outs) : handedOver s s' = outs.filter Output.toClient := by
  rw [handedOver, h, List.drop_left]

theorem handedOver_nothing {s s' : Service φ} (h : s'.outputs = s.outputs) :
    handedOver s s' = [] := by
  rw [handedOver, h, List.drop_length]
  rfl

theorem serves_nothing {s s' : Service φ} (h : s'.outputs = s.outputs) (hs : strand s' = strand s)
    (hq : queue s' = queue s) : Serves w j s s' (handedOver s s') := by
  rw [handedOver_nothing h]
  exact .idle hs hq

/-- the response to a request is on its connection -/
theorem sending_toClient {r : Request} {f : Option (ProcessFunc φ)} {t : Sending}
    (h : Service._sending r f = some t) : t.toClient = r.ofClient := by
  cases f with
  | none => cases h
  | some f =>
    cases f with
    | app f => cases h
    | method m =>
      cases h
      rfl

/-- a thread runs a response that is posted -/
theorem serves_response {s s' : Service φ} {t : Sending} {z : Deflate} (hu : Undoes w.inflate z)
    (hz : t.toClient = true → z.succeeds (BaseServer.response j t.resp t.status) = true)
    (hs : strand s' = strand s) (hout : s'.outputs = s.outputs ++ [t.run w.order j z])
    (hne : t.toClient = false → queue s' = queue s)
    (hq : t.toClient = true → (queue s).Perm (t :: queue s')) :
    Serves w j s s' (handedOver s s') := by
  have hsame : (t.run w.order j z).toClient = t.toClient := rfl
  rw [handedOver_append hout]
  cases ht : t.toClient with
  | true =>
    rw [List.filter_cons_of_pos (hsame.trans ht)]
    exact .responds t z hu (hz ht) hs (hq ht)
  | false =>
    rw [List.filter_cons_of_neg (ne_true_of_eq_false (hsame.trans ht))]
    exact .idle hs (hne ht)

/-- the next request of the client, or one of another connection, is handled -/
theorem serves_handling {s s' : Service φ} (hR : Ready s) {r : Request} {rs : List Request}
    {xs ys : List Sending} (hr : s.m_strand = r :: rs) (hs : s'.m_strand = rs)
    (hio : s'.m_io = s.m_io ++ xs) (hioservice : s'.m_ioservice = s.m_ioservice ++ ys)
    (hxy : xs ++ ys = (Service._sending r (s.m_funcTable.lookup r.func)).toList)
    (hout : s'.outputs = s.outputs) : Serves w j s s' (handedOver s s') := by
  have hqueue : queue s' = (s.m_io.filter Sending.toClient ++ xs.filter Sending.toClient) ++
      (s.m_ioservice.filter Sending.toClient ++ ys.filter Sending.toClient) := by
    rw [queue, hio, hioservice, List.filter_append, List.filter_append, List.filter_append]
  have hstrand : strand s' = rs.filter Request.ofClient := congrArg _ hs
  have hall : ∀ t ∈ xs ++ ys, t.toClient = r.ofClient := fun t ht => by
    rw [hxy, Option.mem_toList] at ht
    exact sending_toClient ht
  cases hc : r.ofClient with
  | true =>
    have hbefore : strand s = r :: rs.filter Request.ofClient := by
      rw [strand, hr, List.filter_cons_of_pos hc]
    obtain ⟨m, hm⟩ := hR.strand r (hbefore ▸ List.mem_cons_self ..)
    have hposted : xs ++ ys = [m.sending r.seq 0] := by
      have hzero : r.connection = 0 := of_decide_eq_true hc
      rw [hxy, hm, hR.table m, ← hzero]
      rfl
    rw [handedOver_nothing hout]
    refine .handles r _ m hbefore hm hstrand ?_
    have hx : xs.filter Sending.toClient = xs := List.filter_eq_self.mpr fun t ht =>
      (hall t (List.mem_append_left _ ht)).trans hc
    have hy : ys.filter Sending.toClient = ys := List.filter_eq_self.mpr fun t ht =>
      (hall t (List.mem_append_right _ ht)).trans hc
    rw [hqueue, hx, hy, queue, List.filter_append, ← List.singleton_append, ← hposted]
    refine (List.perm_append_comm.append List.perm_append_comm).trans ?_
    rw [List.append_assoc, List.append_assoc]
    exact (List.perm_append_comm_assoc _ ys _).append_left xs
  | false =>
    have hx : xs.filter Sending.toClient = [] := List.filter_eq_nil_iff.mpr fun t ht =>
      ne_true_of_eq_false ((hall t (List.mem_append_left _ ht)).trans hc)
    have hy : ys.filter Sending.toClient = [] := List.filter_eq_nil_iff.mpr fun t ht =>
      ne_true_of_eq_false ((hall t (List.mem_append_right _ ht)).trans hc)
    refine serves_nothing hout ?_ ?_
    · rw [hstrand, strand, hr, List.filter_cons_of_neg (ne_true_of_eq_false hc)]
    · rw [hqueue, hx, hy, List.append_nil, List.append_nil, queue, List.filter_append]

theorem server_serves {s s' : Service φ} {e : ServiceEvent φ} (hR : Ready s)
    (hown : isOwnPackage e = false) (hF : FairServer w j s e) (h : s.step w j e = some s') :
    (∀ m : Method, s'.m_funcTable.lookup m.name = some (.method m)) ∧
      Serves w j s s' (handedOver s s') := by
  cases Service.step_does h with
  | registerFunc method f =>
    refine ⟨fun m => ?_, serves_nothing rfl rfl rfl⟩
    have hne : m.name ≠ method := fun hm => by
      have hnone : Method.ofName method = none := hF
      rw [← hm, Method.ofName_name] at hnone
      cases hnone
    rw [Service.lookup_registerFunc, if_neg hne]
    exact hR.table m
  | regist =>
    refine ⟨fun m => ?_, serves_nothing rfl rfl rfl⟩
    rw [Service.lookup_regist, hR.table m]
    rfl
  | @receives fuel behind header content c r hr =>
    refine ⟨hR.table, ?_⟩
    have hc : c ≠ 0 := of_decide_eq_false hown
    have hreqs : (Service.requests j behind header c r.2).filter Request.ofClient = [] :=
      List.filter_eq_nil_iff.mpr fun x hx hd =>
        hc ((Service.requests_connection hx).symm.trans (of_decide_eq_true hd))
    have houts : (Service.answersAtOnce w header c r.2).filter Output.toClient = [] :=
      List.filter_eq_nil_iff.mpr fun o ho hd =>
        hc ((Service.answersAtOnce_connection ho).symm.trans (of_decide_eq_true hd))
    rw [handedOver_append rfl, houts]
    refine .idle ?_ rfl
    show (s.m_strand ++ _).filter _ = _
    rw [List.filter_append, hreqs, List.append_nil]
    rfl
  | handles r rs hr xs ys hxy => exact ⟨hR.table, serves_handling hR hr rfl rfl rfl hxy rfl⟩
  | @io i z t hi =>
    refine ⟨hR.table, serves_response hF.1 (hF.2 t hi) rfl rfl (fun hne => ?_) fun h0 => ?_⟩
    · show (s.m_io.eraseIdx i ++ _).filter _ = (s.m_io ++ _).filter _
      rw [List.filter_append, List.filter_append, filter_dequeue _ hi hne]
    · have hp := ((perm_dequeue hi).append_right s.m_ioservice).filter Sending.toClient
      rw [List.cons_append, List.filter_cons_of_pos h0] at hp
      exact hp.symm
  | @ioservice i z t hi =>
    refine ⟨hR.table, serves_response hF.1 (hF.2 t hi) rfl rfl (fun hne => ?_) fun h0 => ?_⟩
    · show (_ ++ s.m_ioservice.eraseIdx i).filter _ = (_ ++ s.m_ioservice).filter _
      rw [List.filter_append, List.filter_append, filter_dequeue _ hi hne]
    · have hp := (List.perm_middle.symm.trans
        ((perm_dequeue hi).append_left s.m_io)).filter Sending.toClient
      rw [List.filter_cons_of_pos h0] at hp
      exact hp.symm

end

/-! ## what a step does -/

/-- a package that is neither a request nor a response -/
def Alive (bytes : ByteArray) : Prop :=
  plainLook bytes = .msg bytes.length ∧ (NetPackage.ofBytes bytes).m_pkgHeader.m_cmd ≠ NET_CMD_RPC

theorem keepAlive_alive (o : ByteOrder) : Alive (NetConnection.keepAliveBytes o) ∧
    Alive (keepAliveResponseBytes o) := by
  unfold Alive
  cases o <;> decide

/-- a message carries a request, or keeps alive -/
def Message.Fine (w : Platform) (j : Json) : Message → Prop
  | .request seq cb req bytes => Asks j cb req ∧
    ∃ z, Undoes w.inflate z ∧ bytes = carries w.order z req seq
  | .keepAlive bytes => Alive bytes

/-- an output carries the response of a method, compressed, or keeps alive -/
def Output.Fine (w : Platform) (j : Json) : Output → Prop
  | .response t bytes => ∃ m seq z, t = Method.sending m seq 0 ∧ Undoes w.inflate z ∧
    z.succeeds (BaseServer.response j m.text kOk) = true ∧
      bytes = BaseServer.sends w.order j z m.text kOk seq
  | .keepAlive _ bytes => Alive bytes

/-- what is on its way can be read -/
structure Sound (w : Platform) (j : Json) (s : Remote φ) : Prop where
  ready : Ready s.server
  queue : ∀ t ∈ queue s.server, ∃ m seq, t = Method.sending m seq 0
  calls : ∀ c ∈ s.calls, Asks j c.cb c.req
  toServer : ∀ m ∈ s.toServer, Message.Fine w j m
  toClient : ∀ o ∈ s.toClient, Output.Fine w j o

/-- requests that are written and read again, a zero byte behind what is read, a server that is fair
to the client -/
def Fair (w : Platform) (j : Json) (s : Remote φ) : Event φ → Prop
  | ._stat behind behind' UpdateEvents CreditEvents =>
    ∀ pts ∈ statParam behind behind' UpdateEvents CreditEvents, Writes j .onStat pts
  | ._test id => Writes j .onTest (idParam id)
  | .sendData _ z _ => Undoes w.inflate z
  | .arrives _ _ behind => EndsThere behind
  | .server e => FairServer w j s.server e
  | .onPackageReceived _ _ behind _ => EndsThere behind
  | .register _ => True
  | .clientKeepAlive => True
  | .serverKeepAlive => True

/-- the response as it will be read -/
def Output.reply (j : Json) : Output → Option Response
  | .response t _ => some (Remote.reply j t.method (onWire t.seq.toInt))
  | .keepAlive .. => none

/-- a request is sent, and its number has 36 bits; the response that is received finds its callback
filed -/
def InTime (j : Json) (s : Remote φ) : Event φ → Prop
  | .sendData i _ ok => ok = true ∧ ∀ c ∈ s.calls[i]?, Narrow c.seq
  | .onPackageReceived k _ _ _ => ∀ o ∈ s.toClient[k]?, ∀ r ∈ Output.reply j o,
    ∀ c ∈ s.calls, c.phase = .sent → c.seq ≠ r.m_seq
  | _ => True

/-- the client has received a response -/
def receives (s : Remote φ) (j : Json) (behind' : ByteArray) (r : Response) : Remote φ :=
  { s with
    client := (s.client.onPackageReceived r).1
    invoked := s.invoked ++ (s.client.onPackageReceived r).2.toList
    answers := s.answers ++
      (s.client.onPackageReceived r).2.toList.map fun i => i.answer j behind' }

/-- what a fair step can do -/
inductive Moves (w : Platform) (j : Json) (s : Remote φ) : Event φ → Remote φ → Prop where
  | called {e : Event φ} (he : InTime j s e) (cb : CallBack) (req : ByteArray) (ha : Asks j cb req)
      (hmax : s.client.m_requestSeq < INT64_MAX) :
    Moves w j s e { s with
      client := { s.client with m_requestSeq := s.client.m_requestSeq + 1 }
      calls := s.calls ++ [⟨s.client.m_requestSeq + 1, cb, req, .drawn⟩] }
  | sent {i : Nat} {z : Deflate} (hu : Undoes w.inflate z) (seq : Int) (cb : CallBack)
      (req : ByteArray) (hi : s.calls[i]? = some ⟨seq, cb, req, .drawn⟩) :
    Moves w j s (.sendData i z true) { s with
      calls := s.calls.set i ⟨seq, cb, req, .sent⟩
      toServer := s.toServer ++ [.request seq cb req (carries w.order z req seq)] }
  | failed {i : Nat} {z : Deflate} (seq : Int) (cb : CallBack) (req : ByteArray)
      (hi : s.calls[i]? = some ⟨seq, cb, req, .drawn⟩) :
    Moves w j s (.sendData i z false) { s with
      calls := s.calls.set i ⟨seq, cb, req, .returned⟩
      invoked := s.invoked ++ [⟨cb, [], "send error"⟩]
      answers := s.answers ++ [⟨cb, [], "send error"⟩] }
  | registered {i : Nat} (seq : Int) (cb : CallBack) (req : ByteArray)
      (hi : s.calls[i]? = some ⟨seq, cb, req, .sent⟩) :
    Moves w j s (.register i) { s with
      client := s.client.register seq (some cb)
      calls := s.calls.set i ⟨seq, cb, req, .returned⟩ }
  | clientKeepAlive {e : Event φ} (he : InTime j s e) (bytes : ByteArray) (hb : Alive bytes) :
    Moves w j s e { s with toServer := s.toServer ++ [.keepAlive bytes] }
  | serverKeepAlive {e : Event φ} (he : InTime j s e) (bytes : ByteArray) (hb : Alive bytes) :
    Moves w j s e { s with toClient := s.toClient ++ [.keepAlive 0 bytes] }
  | arrives {e : Event φ} (he : InTime j s e) {k : Nat} (seq : Int) (cb : CallBack)
      (req bytes : ByteArray) (hk : s.toServer[k]? = some (.request seq cb req bytes))
      (server : Service φ) (r : Request) (hr : r.func = cb.method.name)
      (hseq : r.seq.toInt = onWire seq) (ht : ∀ m : Method,
        server.m_funcTable.lookup m.name = some (.method m))
      (hs : strand server = strand s.server ++ [r]) (hq : queue server = queue s.server) :
    Moves w j s e { s with toServer := s.toServer.eraseIdx k, server }
  | keepAliveArrives {e : Event φ} (he : InTime j s e) {k : Nat} (bytes : ByteArray)
      (hk : s.toServer[k]? = some (.keepAlive bytes)) (server : Service φ) (outs : List Output)
      (ho : ∀ o ∈ outs, ∃ bytes, o = .keepAlive 0 bytes ∧ Alive bytes) (ht : ∀ m : Method,
        server.m_funcTable.lookup m.name = some (.method m))
      (hs : strand server = strand s.server) (hq : queue server = queue s.server) :
    Moves w j s e { s with
      toServer := s.toServer.eraseIdx k, server, toClient := s.toClient ++ outs }
  | serves {e : Event φ} (he : InTime j s e) (server : Service φ) (outs : List Output)
      (ht : ∀ m : Method, server.m_funcTable.lookup m.name = some (.method m))
      (hs : Serves w j s.server server outs) :
    Moves w j s e { s with server, toClient := s.toClient ++ outs }
  | received {k fuel : Nat} {behind behind' : ByteArray} (m : Method) (seq : BitVec 64)
      (bytes : ByteArray) (hk : s.toClient[k]? = some (.response (m.sending seq 0) bytes))
      (compressType : BitVec 8) :
    Moves w j s (.onPackageReceived k fuel behind behind')
      ({ s with toClient := s.toClient.eraseIdx k, m_compressType := compressType }.receives j
        behind' (reply j m (onWire seq.toInt)))
  | keepAliveReceived {k fuel : Nat} {behind behind' : ByteArray} (connection : Nat)
      (bytes : ByteArray) (hk : s.toClient[k]? = some (.keepAlive connection bytes))
      (compressType : BitVec 8) (ms : List Message)
      (hms : ∀ m ∈ ms, ∃ bytes, m = .keepAlive bytes ∧ Alive bytes) :
    Moves w j s (.onPackageReceived k fuel behind behind') { s with
      toClient := s.toClient.eraseIdx k
      m_compressType := compressType
      toServer := s.toServer ++ ms }

section
variable {w : Platform} {j : Json}

theorem request_some {s s' : Remote φ} {cb : CallBack} {req : ByteArray}
    (h : s.request cb req = some s') : s.client.m_requestSeq < INT64_MAX ∧ s' = { s with
      client := { s.client with m_requestSeq := s.client.m_requestSeq + 1 }
      calls := s.calls ++ [⟨s.client.m_requestSeq + 1, cb, req, .drawn⟩] } := by
  rw [request, BaseClient.genSeq] at h
  split at h
  · rename_i hmax
    exact ⟨hmax, (Option.some.inj h).symm⟩
  · cases h

/-- a message of the client reaches the server -/
theorem arrives_moves {s s' : Remote φ} (hS : Sound w j s) {k fuel : Nat} {behind : ByteArray}
    (hb : EndsThere behind) (h : s.step w j (.arrives k fuel behind) = some s') :
    Moves w j s (.arrives k fuel behind) s' := by
  obtain ⟨m, hk, h⟩ := Option.bind_eq_some_iff.mp h
  obtain ⟨server, hstep, rfl⟩ := Option.map_eq_some_iff.mp h
  have hfine := hS.toServer m (List.mem_of_getElem? hk)
  cases Service.step_does hstep with
  | receives r hr =>
    cases m with
    | request seq cb req bytes =>
      obtain ⟨ha, z, hu, rfl⟩ := hfine
      obtain ⟨⟨x, hx, hfunc, hown, hseq⟩, hout⟩ := request_arrives ha hu seq hb hr
      dsimp only [Message.bytes]
      rw [hx, hout, List.append_nil, List.drop_length, List.filter_nil, List.append_nil]
      refine .arrives (by exact trivial) seq cb req _ hk _ x hfunc hseq hS.ready.table ?_ rfl
      show (s.server.m_strand ++ [x]).filter _ = _
      have hpos : x.ofClient = true := decide_eq_true hown
      rw [List.filter_append, List.filter_cons_of_pos hpos]
      rfl
    | keepAlive bytes =>
      have hcmd : (NetPackage.ofBytes bytes).m_pkgHeader.m_cmd ≠ NET_CMD_RPC := hfine.2
      have hreqs : Service.requests j behind (NetPackage.ofBytes bytes).m_pkgHeader 0 r.2 = [] := by
        cases r.2 with
        | data tmpData => exact if_neg hcmd
        | dropped => rfl
        | threw => rfl
      dsimp only [Message.bytes]
      rw [hreqs, List.append_nil, List.append_nil, List.drop_left]
      refine .keepAliveArrives (by exact trivial) bytes hk _ _ (fun o ho => ?_) hS.ready.table rfl rfl
      have ho := List.mem_of_mem_filter ho
      cases hd : r.2 with
      | data tmpData =>
        rw [hd, Service.answersAtOnce] at ho
        split at ho
        · exact ⟨_, List.mem_singleton.mp ho, (keepAlive_alive w.order).2⟩
        · cases ho
      | dropped =>
        rw [hd] at ho
        cases ho
      | threw =>
        rw [hd] at ho
        cases ho

/-- a message of the server reaches the client -/
theorem received_moves (hj : Responds j) {s s' : Remote φ} (hS : Sound w j s) {k fuel : Nat}
    {behind behind' : ByteArray} (hb : EndsThere behind)
    (h : s.step w j (.onPackageReceived k fuel behind behind') = some s') :
    Moves w j s (.onPackageReceived k fuel behind behind') s' := by
  obtain ⟨o, hk, h⟩ := Option.bind_eq_some_iff.mp h
  obtain ⟨r, hr, rfl⟩ := Option.map_eq_some_iff.mp h
  have hfine := hS.toClient o (List.mem_of_getElem? hk)
  cases o with
  | response t bytes =>
    obtain ⟨m, seq, z, rfl, hu, hz, rfl⟩ := hfine
    obtain ⟨hcmd, tmpData, hd, hreads⟩ := response_arrives hj m hu hz seq hb hr
    dsimp only [Output.bytes]
    rw [hd, onContent, if_pos hcmd, hreads]
    exact .received m seq _ hk _
  | keepAlive connection bytes =>
    have hcmd : (NetPackage.ofBytes bytes).m_pkgHeader.m_cmd ≠ NET_CMD_RPC := hfine.2
    have hnothing : ∀ t : BitVec 8, Moves w j s (.onPackageReceived k fuel behind behind')
        { s with toClient := s.toClient.eraseIdx k, m_compressType := t } := fun t => by
      have h : Moves w j s (.onPackageReceived k fuel behind behind') { s with
          toClient := s.toClient.eraseIdx k
          m_compressType := t
          toServer := s.toServer ++ [] } :=
        .keepAliveReceived connection bytes hk t [] (List.forall_mem_nil _)
      rw [List.append_nil] at h
      exact h
    dsimp only [Output.bytes]
    cases r.2 with
    | dropped => exact hnothing _
    | threw => exact hnothing _
    | data tmpData =>
      rw [onContent, if_neg hcmd]
      split
      · refine .keepAliveReceived connection bytes hk _ [_] fun x hx => ?_
        exact ⟨_, List.mem_singleton.mp hx, (keepAlive_alive w.order).2⟩
      · exact hnothing _

theorem step_moves (hj : Responds j) {s s' : Remote φ} {e : Event φ} (hS : Sound w j s)
    (hF : Fair w j s e) (h : s.step w j e = some s') : Moves w j s e s' := by
  cases e with
  | _stat behind behind' UpdateEvents CreditEvents =>
    obtain ⟨pts, hpts, h⟩ := Option.bind_eq_some_iff.mp h
    obtain ⟨hmax, rfl⟩ := request_some h
    exact .called (by exact trivial) .onStat _ (asks_req (hF pts hpts)) hmax
  | _test id =>
    obtain ⟨hmax, rfl⟩ := request_some h
    exact .called (by exact trivial) .onTest _ (asks_req hF) hmax
  | sendData i z ok =>
    rw [step] at h
    split at h
    · rename_i seq cb req hi
      cases ok with
      | true =>
        cases h
        exact .sent hF seq cb req hi
      | false =>
        cases h
        exact .failed seq cb req hi
    · cases h
  | register i =>
    rw [step] at h
    split at h
    · rename_i seq cb req hi
      cases h
      exact .registered seq cb req hi
    · cases h
  | clientKeepAlive =>
    cases h
    exact .clientKeepAlive (by exact trivial) _ (keepAlive_alive w.order).1
  | serverKeepAlive =>
    cases h
    exact .serverKeepAlive (by exact trivial) _ (keepAlive_alive w.order).1
  | arrives k fuel behind => exact arrives_moves hS hF h
  | server e =>
    rw [step] at h
    split at h
    · cases h
    · rename_i hown
      obtain ⟨server, hstep, rfl⟩ := Option.map_eq_some_iff.mp h
      obtain ⟨ht, hs⟩ := server_serves hS.ready (Bool.eq_false_of_not_eq_true hown) hF hstep
      exact .serves (by exact trivial) server _ ht hs
  | onPackageReceived k fuel behind behind' => exact received_moves hj hS hF h

/-! ## what stays readable -/

theorem sound_start : Sound w j (start : Remote φ) where
  ready := {
    table := Service.registered_start.table
    strand := List.forall_mem_nil _ }
  queue := List.forall_mem_nil _
  calls := List.forall_mem_nil _
  toServer := List.forall_mem_nil _
  toClient := List.forall_mem_nil _

theorem forall_mem_concat {α : Type} {P : α → Prop} {xs : List α} {a : α} (h : ∀ x ∈ xs, P x)
    (ha : P a) : ∀ x ∈ xs ++ [a], P x := by
  intro x hx
  rcases List.mem_append.mp hx with hx | hx
  · exact h x hx
  · exact List.mem_singleton.mp hx ▸ ha

theorem forall_mem_set {α : Type} {P : α → Prop} {xs : List α} {i : Nat} {a : α}
    (h : ∀ x ∈ xs, P x) (ha : P a) : ∀ x ∈ xs.set i a, P x := by
  intro x hx
  rcases List.mem_or_eq_of_mem_set hx with hx | rfl
  · exact h x hx
  · exact ha

theorem forall_mem_eraseIdx {α : Type} {P : α → Prop} {xs : List α} {i : Nat} (h : ∀ x ∈ xs, P x) :
    ∀ x ∈ xs.eraseIdx i, P x := fun x hx => h x (List.mem_of_mem_eraseIdx hx)

/-- what the server takes and posts for the client stays as it should be -/
theorem serves_sound {s s' : Service φ} {outs : List Output} (hR : Ready s)
    (hQ : ∀ t ∈ queue s, ∃ m seq, t = Method.sending m seq 0)
    (ht : ∀ m : Method, s'.m_funcTable.lookup m.name = some (.method m))
    (hs : Serves w j s s' outs) : Ready s' ∧
      (∀ t ∈ queue s', ∃ m seq, t = Method.sending m seq 0) ∧ ∀ o ∈ outs, Output.Fine w j o := by
  cases hs with
  | idle hstrand hqueue =>
    refine ⟨⟨ht, hstrand ▸ hR.strand⟩, hqueue ▸ hQ, List.forall_mem_nil _⟩
  | handles r rs m hr hm hstrand hqueue =>
    refine ⟨⟨ht, fun x hx => hR.strand x ?_⟩, fun t htq => ?_, List.forall_mem_nil _⟩
    · rw [hr]
      exact List.mem_cons_of_mem r (hstrand ▸ hx)
    · rcases List.mem_cons.mp (hqueue.mem_iff.mp htq) with rfl | htq
      · exact ⟨m, r.seq, rfl⟩
      · exact hQ t htq
  | responds t z hu hz hstrand hqueue =>
    refine ⟨⟨ht, hstrand ▸ hR.strand⟩, fun x hx => ?_, fun o ho => ?_⟩
    · exact hQ x (hqueue.mem_iff.mpr (List.mem_cons_of_mem t hx))
    · obtain ⟨m, seq, rfl⟩ := hQ t (hqueue.mem_iff.mpr (List.mem_cons_self ..))
      rw [List.mem_singleton.mp ho]
      refine ⟨m, seq, z, rfl, hu, hz, ?_⟩
      cases m <;> rfl

theorem sound_step (hj : Responds j) {s s' : Remote φ} {e : Event φ} (hS : Sound w j s)
    (hF : Fair w j s e) (h : s.step w j e = some s') : Sound w j s' := by
  cases step_moves hj hS hF h with
  | called he cb req ha hmax =>
    exact ⟨hS.ready, hS.queue, forall_mem_concat hS.calls ha, hS.toServer, hS.toClient⟩
  | sent hu seq cb req hi =>
    have ha : Asks j cb req := hS.calls _ (List.mem_of_getElem? hi)
    exact ⟨hS.ready, hS.queue, forall_mem_set hS.calls ha,
      forall_mem_concat hS.toServer ⟨ha, _, hu, rfl⟩, hS.toClient⟩
  | failed seq cb req hi =>
    have ha : Asks j cb req := hS.calls _ (List.mem_of_getElem? hi)
    exact ⟨hS.ready, hS.queue, forall_mem_set hS.calls ha, hS.toServer, hS.toClient⟩
  | registered seq cb req hi =>
    have ha : Asks j cb req := hS.calls _ (List.mem_of_getElem? hi)
    exact ⟨hS.ready, hS.queue, forall_mem_set hS.calls ha, hS.toServer, hS.toClient⟩
  | clientKeepAlive he bytes hb =>
    exact ⟨hS.ready, hS.queue, hS.calls, forall_mem_concat hS.toServer hb, hS.toClient⟩
  | serverKeepAlive he bytes hb =>
    exact ⟨hS.ready, hS.queue, hS.calls, hS.toServer, forall_mem_concat hS.toClient hb⟩
  | arrives he seq cb req bytes hk server r hr hseq ht hs hq =>
    refine ⟨⟨ht, ?_⟩, ?_, hS.calls, forall_mem_eraseIdx hS.toServer, hS.toClient⟩
    · rw [hs]
      exact forall_mem_concat hS.ready.strand ⟨_, hr⟩
    · rw [hq]
      exact hS.queue
  | keepAliveArrives he bytes hk server outs ho ht hs hq =>
    refine ⟨⟨ht, hs ▸ hS.ready.strand⟩, hq ▸ hS.queue, hS.calls, forall_mem_eraseIdx hS.toServer,
      fun o hmem => ?_⟩
    rcases List.mem_append.mp hmem with hmem | hmem
    · exact hS.toClient o hmem
    · obtain ⟨bytes, rfl, hb⟩ := ho o hmem
      exact hb
  | serves he server outs ht hs =>
    obtain ⟨hready, hqueue, houts⟩ := serves_sound hS.ready hS.queue ht hs
    refine ⟨hready, hqueue, hS.calls, hS.toServer, fun o hmem => ?_⟩
    exact (List.mem_append.mp hmem).elim (hS.toClient o) (houts o)
  | received m seq bytes hk t =>
    exact ⟨hS.ready, hS.queue, hS.calls, hS.toServer, forall_mem_eraseIdx hS.toClient⟩
  | keepAliveReceived connection bytes hk t ms hms =>
    refine ⟨hS.ready, hS.queue, hS.calls, fun m hmem => ?_, forall_mem_eraseIdx hS.toClient⟩
    rcases List.mem_append.mp hmem with hmem | hmem
    · exact hS.toServer m hmem
    · obtain ⟨bytes, rfl, hb⟩ := hms m hmem
      exact hb

end

end Remote

end Netwb
