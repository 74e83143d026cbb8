import Netwb.Net.Session
import Netwb.Sample.Terminated

/-!
# Two-way compression

A package that is flagged `COMPRESS_DOUBLE_ZLIB` or `COMPRESS_DOUBLE_LZMA` asks for responses that
are compressed in the same way.  `BaseServer::onPackageReceived` writes what was asked for into
`m_compressType` of the connection; `_send_stat` and `_send_test` do not look there, and use zlib
with the flag `COMPRESS_DOUBLE_ZLIB`.

A connection of the server is a machine: packages come in, and for a request that has come the
application may send responses, at any later time and with any text.

* `compressType_asked`        `m_compressType` is what was last asked for;
* `compressType_unused`       and makes no difference to a response;
* `honours_iff`               when one response is what was asked for;
* `two_way_iff`               which runs keep the promise.
-/

namespace Netwb
open Wire Machine

def NET_CMD_KEEPALIVE_RESPONSE : BitVec 16 := 3

/-- `resp` -/
def kResp : ByteArray := [0x72, 0x65, 0x73, 0x70]

/-! ## responses -/

section
variable (o : ByteOrder) (j : Json)

/-- what `MAKERESPBEGIN(status)`, `ADDPARAM("resp", resp)` and `MAKERESPEND(response)` leave in
`response`, which stays empty when `write_json` throws -/
def BaseServer.response (resp status : ByteArray) : ByteArray :=
  (jsonHelper.getJson j ((PTree.leaf []).put kStatus status)
    ((PTree.leaf []).put kResp resp)).getD []

/-- the body that `_send_stat` and `_send_test` share: what is handed to `sendData` -/
def BaseServer.sends (z : Deflate) (resp status : ByteArray) (seq : BitVec 64) : ByteArray :=
  BaseServer.sendRespBytes o z (BaseServer.response j resp status) NET_CMD_RPC seq
    (COMPRESS_DOUBLE_ZLIB.setWidth 8)

/-- `_send_stat(resp, status, seq, connection)` -/
def BaseServer._send_stat (z : Deflate) (resp status : ByteArray) (seq : BitVec 64) : ByteArray :=
  BaseServer.sends o j z resp status seq

/-- `_send_test(resp, status, seq, connection)` -/
def BaseServer._send_test (z : Deflate) (resp status : ByteArray) (seq : BitVec 64) : ByteArray :=
  BaseServer.sends o j z resp status seq

/-- the sixteen bytes that answer a keep-alive package -/
def keepAliveResponseBytes : ByteArray :=
  let header := { NetPackageHeader.make NET_CMD_KEEPALIVE_RESPONSE 0 0 0 with
    m_length := BitVec.ofNat 32 (4 + NET_PACKAGE_HEADER_LENGTH) }
  (header.encode o (List.replicate (4 + NET_PACKAGE_HEADER_LENGTH) 0) 0).2.1

end

/-! ## the machine -/

/-- a connection, as far as the server uses it -/
structure ServerConnection where
  m_compressType : BitVec 8
  /-- the packages that `onPackageReceived` was called with -/
  packages : List (NetPackageHeader × ByteArray)
  /-- the numbers of the requests that were posted for a function of `m_funcTable` -/
  requests : List (BitVec 64)
  /-- what was handed to `sendData` -/
  sent : List ByteArray

def ServerConnection.fresh : ServerConnection := ⟨0, [], [], []⟩

inductive ServerEvent where
  /-- a package comes in; `fuel` is for the loop of `zlibDecompress`, `behind` lies behind
  `tmpData` -/
  | onPackageReceived (fuel : Nat) (behind : ByteArray) (header : NetPackageHeader)
    (content : ByteArray)
  | _send_stat (z : Deflate) (resp status : ByteArray) (seq : BitVec 64)
  | _send_test (z : Deflate) (resp status : ByteArray) (seq : BitVec 64)

/-- the case `NET_CMD_RPC` of `onPackageReceived`: the request that is posted, if it is for a
function that there is -/
def BaseServer.posts (j : Json) (behind : ByteArray) (m_seq : BitVec 64) (tmpData : ByteArray) :
    List (BitVec 64) :=
  match jsonHelper.getString j kFunc behind tmpData with
  | none => []
  | some func =>
    match jsonHelper.getSubJson j kParam behind tmpData with
    | none => []
    | some _ => if (BaseServer.funcTable.lookup func).isSome then [m_seq] else []

section
variable (w : Platform) (j : Json)

/-- the `switch` of `onPackageReceived` -/
def ServerConnection.onContent (s : ServerConnection) (behind : ByteArray)
    (header : NetPackageHeader) : Decoded → ServerConnection
  | .data tmpData =>
    if header.m_cmd = NET_CMD_RPC then
      { s with requests := s.requests ++ BaseServer.posts j behind header.m_seq tmpData }
    else if header.m_cmd = NET_CMD_KEEPALIVE then
      { s with sent := s.sent ++ [keepAliveResponseBytes w.order] }
    else s
  | .dropped => s
  | .threw => s

/-- one step of the server with a connection; a response needs a request that has come -/
def ServerConnection.step (s : ServerConnection) : ServerEvent → Option ServerConnection
  | .onPackageReceived fuel behind header content =>
    (BaseServer.decode w fuel s.m_compressType header content).map fun r =>
      { s with m_compressType := r.1, packages := s.packages ++ [(header, content)] }.onContent
        w j behind header r.2
  | ._send_stat z resp status seq =>
    if seq ∈ s.requests then
      some { s with sent := s.sent ++ [BaseServer._send_stat w.order j z resp status seq] }
    else none
  | ._send_test z resp status seq =>
    if seq ∈ s.requests then
      some { s with sent := s.sent ++ [BaseServer._send_test w.order j z resp status seq] }
    else none

end

/-! ## what was asked for -/

/-- the header asks for two-way compression -/
def AsksBoth (header : NetPackageHeader) : Bool :=
  header.m_flag.compress = COMPRESS_DOUBLE_ZLIB ∨ header.m_flag.compress = COMPRESS_DOUBLE_LZMA

/-- the flag of the last package that asks for two-way compression -/
def lastDouble (packages : List (NetPackageHeader × ByteArray)) : Option (BitVec 3) :=
  ((packages.map Prod.fst).filter AsksBoth).getLast?.map fun header => header.m_flag.compress

theorem lastDouble_append (packages : List (NetPackageHeader × ByteArray))
    (p : NetPackageHeader × ByteArray) : lastDouble (packages ++ [p])
      = if AsksBoth p.1 then some p.1.m_flag.compress else lastDouble packages := by
  rw [lastDouble, List.map_append, List.filter_append, List.map_singleton, List.filter_singleton]
  cases hp : AsksBoth p.1 with
  | true =>
    rw [if_pos rfl, List.getLast?_append]
    rfl
  | false =>
    rw [if_neg Bool.false_ne_true]
    exact congrArg (fun l => (List.getLast? l).map fun h : NetPackageHeader => h.m_flag.compress)
      (List.append_nil _)

/-- the message is flagged with the method, and its content is the payload under that method -/
def UsesMethod (w : Platform) (z : Deflate) (method : BitVec 3) (payload bytes : ByteArray) :
    Prop :=
  (NetPackage.ofBytes bytes).m_pkgHeader.m_flag.compress = method ∧
    if method = COMPRESS_DOUBLE_ZLIB then
      (NetPackage.ofBytes bytes).m_pkgContent
        = (z.compress (2 * payload.length + 16) payload).2
    else LzmaDecomp w (NetPackage.ofBytes bytes).m_pkgContent [] 0 = some (true, payload)

/-- what an event answers: the `compress` that it finds, the payload and the message -/
def ServerEvent.answer (w : Platform) (j : Json) :
    ServerEvent → Option (Deflate × ByteArray × ByteArray)
  | .onPackageReceived .. => none
  | ._send_stat z resp status seq =>
    some (z, BaseServer.response j resp status, BaseServer._send_stat w.order j z resp status seq)
  | ._send_test z resp status seq =>
    some (z, BaseServer.response j resp status, BaseServer._send_test w.order j z resp status seq)

/-- `zlibCompress` succeeds -/
def Compresses (z : Deflate) (payload : ByteArray) : Prop :=
  (zlibCompress z payload [] NET_PACKAGE_HEADER_LENGTH).1 = true

instance (z : Deflate) (payload : ByteArray) : Decidable (Compresses z payload) :=
  inferInstanceAs (Decidable (_ = _))

section
variable (w : Platform) (j : Json) (s : ServerConnection) (e : ServerEvent)

/-- a response whose payload compresses is what the last package that asks for two-way compression
asked for -/
def Honours : Prop :=
  ∀ r ∈ e.answer w j, Compresses r.1 r.2.1 → ∀ method ∈ lastDouble s.packages,
    UsesMethod w r.1 method r.2.1 r.2.2

/-- such a response is sent only when that package asked for zlib -/
def AskedForZlib : Prop :=
  ∀ r ∈ e.answer w j, Compresses r.1 r.2.1 → ∀ method ∈ lastDouble s.packages,
    method = COMPRESS_DOUBLE_ZLIB

theorem compresses_iff (z : Deflate) (payload : ByteArray) :
    Compresses z payload ↔ payload ≠ [] ∧ z.succeeds payload = true := by
  unfold Compresses
  by_cases hp : payload = []
  · rw [hp, zlibCompress_nil]
    exact iff_of_false Bool.false_ne_true fun h => h.1 rfl
  · obtain ⟨front, -, hz⟩ := zlibCompress_spec z payload [] NET_PACKAGE_HEADER_LENGTH hp
    rw [hz, and_iff_right hp]

/-- **A response that compresses is zlib, and says so.** -/
theorem sends_zlib (z : Deflate) (resp status : ByteArray) (seq : BitVec 64)
    (h : Compresses z (BaseServer.response j resp status)) (method : BitVec 3) :
    UsesMethod w z method (BaseServer.response j resp status)
      (BaseServer.sends w.order j z resp status seq) ↔ method = COMPRESS_DOUBLE_ZLIB := by
  obtain ⟨hne, hs⟩ := (compresses_iff z _).mp h
  obtain ⟨hcontent, hflag⟩ := rpc_arrives w.order z (BaseServer.response j resp status) NET_CMD_RPC
    seq (COMPRESS_DOUBLE_ZLIB.setWidth 8) hne
  rw [sentFlag, if_pos hs] at hflag
  rw [Deflate.stored, if_pos hs] at hcontent
  rw [UsesMethod, BaseServer.sends, BaseServer.sendRespBytes, hflag, hcontent]
  constructor
  · rintro ⟨hmethod, -⟩
    exact hmethod.symm
  · rintro rfl
    refine ⟨rfl, ?_⟩
    rw [if_pos rfl]

/-- **A response is what was asked for exactly when zlib was asked for.** -/
theorem honours_iff : Honours w j s e ↔ AskedForZlib w j s e := by
  refine forall₂_congr fun r hr => forall_congr' fun hc => forall₂_congr fun method _ => ?_
  cases e with
  | onPackageReceived => cases hr
  | _send_stat z resp status seq =>
    cases hr
    dsimp only [BaseServer._send_stat] at hc ⊢
    exact sends_zlib w j z resp status seq hc method
  | _send_test z resp status seq =>
    cases hr
    dsimp only [BaseServer._send_test] at hc ⊢
    exact sends_zlib w j z resp status seq hc method

/-- **Which runs keep the promise**: those in which every response that compresses comes when the
last package that asked for two-way compression, if there was one, asked for zlib. -/
theorem two_way_iff (es : List ServerEvent) :
    Along (ServerConnection.step w j) (Honours w j) .fresh es ↔
      Along (ServerConnection.step w j) (AskedForZlib w j) .fresh es :=
  along_congr (honours_iff w j) .fresh es

end

/-! ## what the server knows -/

/-- what a package does to `m_compressType` -/
theorem decode_type {w : Platform} {fuel : Nat} {t : BitVec 8} {header : NetPackageHeader}
    {content : ByteArray} {r : BitVec 8 × Decoded}
    (h : BaseServer.decode w fuel t header content = some r) :
    r.1 = if content ≠ [] ∧ AsksBoth header then header.m_flag.compress.setWidth 8 else t := by
  rw [BaseServer.decode, decodeContent] at h
  dsimp only at h
  by_cases hc : content = []
  · rw [if_pos (by rw [hc]; rfl)] at h
    rw [if_neg fun hn => hn.1 hc, ← Option.some.inj h]
  · rw [if_neg fun hl => hc (List.eq_nil_of_length_eq_zero hl)] at h
    split at h
    · rename_i hz
      obtain ⟨f, -, rfl⟩ := Option.map_eq_some_iff.mp h
      rcases hz with hz | hz <;>
        simp [AsksBoth, hz, hc, COMPRESS_ZLIB, COMPRESS_DOUBLE_ZLIB, COMPRESS_DOUBLE_LZMA]
    · rename_i hz
      have hdz := (not_or.mp hz).2
      split at h
      · rename_i hl
        rw [← Option.some.inj h]
        rcases hl with hl | hl <;>
          simp [AsksBoth, hl, hc, COMPRESS_LZMA, COMPRESS_DOUBLE_ZLIB, COMPRESS_DOUBLE_LZMA]
      · rename_i hl
        have hdl := (not_or.mp hl).2
        rw [← Option.some.inj h]
        simp [AsksBoth, hdz, hdl]

section
variable (w : Platform) (j : Json)

/-- the packages that are looked at -/
def withContent (packages : List (NetPackageHeader × ByteArray)) :
    List (NetPackageHeader × ByteArray) := packages.filter fun p => p.2 ≠ []

/-- `m_compressType` is what was last asked for, by a package with a content -/
def Knows (s : ServerConnection) : Prop :=
  s.m_compressType
    = (lastDouble (withContent s.packages)).elim 0 fun method => method.setWidth 8

theorem withContent_append (packages : List (NetPackageHeader × ByteArray))
    (header : NetPackageHeader) (content : ByteArray) :
    withContent (packages ++ [(header, content)])
      = if content = [] then withContent packages
        else withContent packages ++ [(header, content)] := by
  rw [withContent, withContent, List.filter_append, List.filter_singleton]
  by_cases hc : content = [] <;> simp [hc]

theorem onContent_keeps (s : ServerConnection) (behind : ByteArray) (header : NetPackageHeader)
    (d : Decoded) : (s.onContent w j behind header d).m_compressType = s.m_compressType ∧
      (s.onContent w j behind header d).packages = s.packages := by
  cases d with
  | data tmpData =>
    unfold ServerConnection.onContent
    dsimp only
    split
    · exact ⟨rfl, rfl⟩
    · split <;> exact ⟨rfl, rfl⟩
  | dropped => exact ⟨rfl, rfl⟩
  | threw => exact ⟨rfl, rfl⟩

theorem step_packages {s s' : ServerConnection} {fuel : Nat} {behind : ByteArray}
    {header : NetPackageHeader} {content : ByteArray}
    (h : s.step w j (.onPackageReceived fuel behind header content) = some s') :
    s'.packages = s.packages ++ [(header, content)] := by
  rw [ServerConnection.step] at h
  obtain ⟨r, -, rfl⟩ := Option.map_eq_some_iff.mp h
  exact (onContent_keeps w j
    { s with m_compressType := r.1, packages := s.packages ++ [(header, content)] } behind header
    r.2).2

/-- what an event answers is what is sent, and nothing else changes -/
theorem step_answer {s s' : ServerConnection} {e : ServerEvent}
    {r : Deflate × ByteArray × ByteArray} (he : e.answer w j = some r)
    (h : s.step w j e = some s') : s' = { s with sent := s.sent ++ [r.2.2] } := by
  cases e with
  | onPackageReceived => cases he
  | _send_stat z resp status seq =>
    cases he
    rw [ServerConnection.step] at h
    split at h
    · rw [← Option.some.inj h]
    · cases h
  | _send_test z resp status seq =>
    cases he
    rw [ServerConnection.step] at h
    split at h
    · rw [← Option.some.inj h]
    · cases h

theorem step_knows (s : ServerConnection) (e : ServerEvent) (s' : ServerConnection)
    (hs : Knows s) (h : s.step w j e = some s') : Knows s' := by
  cases e with
  | onPackageReceived fuel behind header content =>
    obtain ⟨r, hdecode, rfl⟩ := Option.map_eq_some_iff.mp h
    have htype := (onContent_keeps w j
      { s with m_compressType := r.1, packages := s.packages ++ [(header, content)] } behind header
      r.2).1
    rw [Knows, htype, step_packages w j h]
    dsimp only
    rw [decode_type hdecode, withContent_append]
    by_cases hc : content = []
    · rw [if_neg fun hn => hn.1 hc, if_pos hc]
      exact hs
    · rw [if_neg hc, lastDouble_append]
      cases hasks : AsksBoth header with
      | true =>
        rw [if_pos ⟨hc, rfl⟩, if_pos rfl]
        rfl
      | false =>
        rw [if_neg fun hn => Bool.noConfusion hn.2, if_neg Bool.false_ne_true]
        exact hs
  | _send_stat z resp status seq =>
    rw [step_answer w j rfl h]
    exact hs
  | _send_test z resp status seq =>
    rw [step_answer w j rfl h]
    exact hs

/-- **The server knows what it was asked for.** -/
theorem compressType_asked {s : ServerConnection} {es : List ServerEvent}
    (h : run (ServerConnection.step w j) .fresh es = some s) : Knows s := by
  have hfresh : Knows .fresh := rfl
  exact run_keeps Knows (step_knows w j) hfresh h

/-- **It makes no difference to a response.** -/
theorem compressType_unused (s : ServerConnection) (t : BitVec 8) (e : ServerEvent)
    (he : (e.answer w j).isSome) :
    (({ s with m_compressType := t } : ServerConnection).step w j e).map ServerConnection.sent
      = (s.step w j e).map ServerConnection.sent := by
  cases e with
  | onPackageReceived => cases he
  | _send_stat z resp status seq =>
    rw [ServerConnection.step, ServerConnection.step]
    split <;> rfl
  | _send_test z resp status seq =>
    rw [ServerConnection.step, ServerConnection.step]
    split <;> rfl

end

/-! ### a request with LZMA -/

/-- the LZMA stream of the text of a request for `test` -/
def lzmaTest : ByteArray :=
  [0x00, 0x3d, 0x88, 0x88, 0xc7, 0x93, 0xe7, 0x30, 0x2a, 0x0e, 0x46, 0x4b, 0x72, 0x0a, 0xbc,
   0xbe, 0xe2, 0x9b, 0xd0, 0xdb, 0x1c, 0x1f, 0x8d, 0x23, 0x8d, 0x45, 0xad, 0xf5, 0xa0, 0x64,
   0x95, 0x07, 0xb4, 0x96, 0x88, 0x1a, 0x95, 0x56, 0x81, 0xd8, 0xae, 0xfb, 0x55, 0x9d, 0x80]

/-- the properties, the size of the text and the stream -/
def lzmaContent : ByteArray :=
  [0x5d, 0x00, 0x10, 0x00, 0x00] ++ [0x23, 0, 0, 0, 0, 0, 0, 0] ++ lzmaTest

/-- a host whose LZMA knows this stream -/
def lzmaPlatform : Platform :=
  { testPlatform with
    lzma := {
      uncompress := fun room source props =>
        if source = lzmaTest ∧ props = [0x5d, 0x00, 0x10, 0x00, 0x00] ∧ testText.length ≤ room then
          (SZ_OK, testText)
        else (1, [])
      fits := by
        intro room source props
        split
        · rename_i h
          exact h.2.2
        · exact Nat.zero_le _ } }

/-- `{"status":"ok","param":{"resp":"this is response of test"}}` and a newline -/
def respText : ByteArray :=
  [0x7b, 0x22, 0x73, 0x74, 0x61, 0x74, 0x75, 0x73, 0x22, 0x3a, 0x22, 0x6f, 0x6b, 0x22, 0x2c,
   0x22, 0x70, 0x61, 0x72, 0x61, 0x6d, 0x22, 0x3a, 0x7b, 0x22, 0x72, 0x65, 0x73, 0x70, 0x22,
   0x3a, 0x22, 0x74, 0x68, 0x69, 0x73, 0x20, 0x69, 0x73, 0x20, 0x72, 0x65, 0x73, 0x70, 0x6f,
   0x6e, 0x73, 0x65, 0x20, 0x6f, 0x66, 0x20, 0x74, 0x65, 0x73, 0x74, 0x22, 0x7d, 0x7d, 0x0a]

/-- its zlib stream -/
def respStream : ByteArray :=
  [0x78, 0x9c, 0xab, 0x56, 0x2a, 0x2e, 0x49, 0x2c, 0x29, 0x2d, 0x56, 0xb2, 0x52, 0xca, 0xcf,
   0x56, 0xd2, 0x51, 0x2a, 0x48, 0x2c, 0x4a, 0xcc, 0x55, 0xb2, 0xaa, 0x56, 0x2a, 0x4a, 0x2d,
   0x2e, 0x00, 0x0a, 0x96, 0x64, 0x64, 0x16, 0x2b, 0x00, 0x11, 0x88, 0x9b, 0x9f, 0x57, 0x9c,
   0xaa, 0x90, 0x9f, 0xa6, 0x50, 0x92, 0x5a, 0x5c, 0xa2, 0x54, 0x5b, 0xcb, 0x05, 0x00, 0x6a,
   0xc5, 0x14, 0x8a]

/-- `this is response of test` -/
def respString : ByteArray := (respText.drop 32).take 24

/-- `ok` -/
def statusOk : ByteArray := [0x6f, 0x6b]

/-- a helper that knows the request and the response -/
def respJson : Json :=
  .of [(testFunc.put_child kParam testParam, testText), (testParam, testParamText),
    (((PTree.leaf []).put kStatus statusOk).put_child kParam ((PTree.leaf []).put kResp respString),
      respText)] (by decide)

/-- the request comes in, and `_send_test` answers it -/
def lzmaRun : List ServerEvent :=
  [.onPackageReceived 0 [] (NetPackageHeader.make NET_CMD_RPC 1 4 0) lzmaContent,
    ._send_test (.one respText respStream) respString statusOk 1]

/-- **The request was for LZMA and the response is zlib.** -/
theorem lzma_answered_zlib :
    (run (ServerConnection.step lzmaPlatform respJson) .fresh lzmaRun).isSome = true ∧
    ¬ Along (ServerConnection.step lzmaPlatform respJson) (Honours lzmaPlatform respJson) .fresh
      lzmaRun := by
  refine ⟨by decide +kernel, fun h => ?_⟩
  obtain ⟨s, hstep⟩ : ∃ s, ServerConnection.step lzmaPlatform respJson .fresh
      (.onPackageReceived 0 [] (NetPackageHeader.make NET_CMD_RPC 1 4 0) lzmaContent) = some s :=
    ⟨_, rfl⟩
  have hlast : COMPRESS_DOUBLE_LZMA ∈ lastDouble s.packages := by
    rw [step_packages lzmaPlatform respJson hstep, lastDouble_append]
    decide
  have hcompresses : Compresses (.one respText respStream)
      (BaseServer.response respJson respString statusOk) := by decide +kernel
  have hasked := (honours_iff lzmaPlatform respJson s _).mp (along_tail h hstep).1
  have hzlib := hasked _ rfl hcompresses COMPRESS_DOUBLE_LZMA hlast
  exact absurd hzlib (by decide)

end Netwb
