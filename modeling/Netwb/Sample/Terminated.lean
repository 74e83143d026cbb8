import Netwb.Sample.Decode
import Netwb.Sample.Json

/-!
# The arrays that the readers are given

`jsonHelper::getField` and `getSubJson` stream an array as a C string.  Here are the arrays that they
are given for one package (`handed`): `tmpData`, which the decode stage has made of the content, and
what `getSubJson` has found in it, which goes to a method of the server or a callback of the client.

The server copies a content that is not compressed into an array with a NUL behind it.  What zlib
gives back is the text that `getJson` has built, without one; and the client leaves `tmpData` empty
when the content is not compressed.

* `server_handed_iff`     for which requests the server gives its readers terminated arrays only;
* `client_handed_iff`     the same for the client and its responses;
* `client_streamed_iff`   the same for the client, but for empty arrays, which are not streamed.
-/

namespace Netwb
open Wire Machine

/-- the `switch` of the two `onPackageReceived`, with what is done for `NET_CMD_RPC` -/
def handed (onRpc : ByteArray → List ByteArray) (header : NetPackageHeader) :
    Decoded → List ByteArray
  | .data tmpData => if header.m_cmd = NET_CMD_RPC then onRpc tmpData else []
  | .dropped => []
  | .threw => []

/-! ## the server -/

/-- `getField(UploadEvents, .., param)` and `getField(CreditEvents, .., param)` -/
def BaseServer._stat (param : ByteArray) : List ByteArray := [param, param]

/-- `getField(id, "id", param)` -/
def BaseServer._test (param : ByteArray) : List ByteArray := [param]

/-- `m_funcTable` as `regist` fills it -/
def BaseServer.funcTable : List (ByteArray × (ByteArray → List ByteArray)) :=
  [(kStat, BaseServer._stat), (kTest, BaseServer._test)]

/-- `onRequest(func, value, ..)` -/
def BaseServer.onRequest (func value : ByteArray) : List ByteArray :=
  match BaseServer.funcTable.lookup func with
  | some process => process value
  | none => []

/-- the case `NET_CMD_RPC` of `onPackageReceived`, with the request that it posts -/
def BaseServer.onRpc (j : Json) (behind tmpData : ByteArray) : List ByteArray :=
  match jsonHelper.getString j kFunc behind tmpData with
  | none => [tmpData]
  | some func =>
    match jsonHelper.getSubJson j kParam behind tmpData with
    | none => [tmpData, tmpData]
    | some param => [tmpData, tmpData] ++ BaseServer.onRequest func param

/-! ## the client -/

/-- the callbacks that `_stat` and `_test` pass to `request` -/
inductive CallBack where
  | onStat
  | onTest
deriving DecidableEq

/-- `_onStat(resp, error)` and `_onTest(resp, error)`: `getField(strResp, "resp", resp)` -/
def CallBack.call : CallBack → ByteArray → List ByteArray
  | .onStat, resp => [resp]
  | .onTest, resp => [resp]

/-- the case `NET_CMD_RPC` of `onPackageReceived`; `cb` is what it finds in `m_CBs` -/
def BaseClient.onRpc (j : Json) (behind : ByteArray) (cb : Option CallBack) (tmpData : ByteArray) :
    List ByteArray :=
  match jsonHelper.getString j kStatus behind tmpData with
  | none => [tmpData]
  | some _ =>
    match cb with
    | none => [tmpData]
    | some cb =>
      -- the second one is for the field "error"
      match jsonHelper.getSubJson j kParam behind tmpData with
      | none => [tmpData, tmpData, tmpData]
      | some param => [tmpData, tmpData, tmpData] ++ cb.call param

def BaseServer.handed (j : Json) (behind : ByteArray) :
    NetPackageHeader → Decoded → List ByteArray := Netwb.handed (BaseServer.onRpc j behind)

def BaseClient.handed (j : Json) (behind : ByteArray) (cb : Option CallBack) :
    NetPackageHeader → Decoded → List ByteArray := Netwb.handed (BaseClient.onRpc j behind cb)

/-! ## what they are given -/

section
variable (j : Json) (behind : ByteArray) (cb : Option CallBack) (header : NetPackageHeader)

theorem mem_onRequest {func value a : ByteArray} (h : a ∈ BaseServer.onRequest func value) :
    a = value := by
  unfold BaseServer.onRequest at h
  split at h
  · rename_i process hp
    rw [BaseServer.funcTable, List.lookup_cons] at hp
    split at hp
    · cases hp
      simpa [BaseServer._stat] using h
    · rw [List.lookup_cons] at hp
      split at hp
      · cases hp
        simpa [BaseServer._test] using h
      · cases hp
  · cases h

theorem mem_call {cb : CallBack} {resp a : ByteArray} (h : a ∈ cb.call resp) : a = resp := by
  cases cb <;> exact List.mem_singleton.mp h

/-- the server gives its readers `tmpData`, and arrays that are terminated -/
theorem server_onRpc {tmpData : ByteArray} : tmpData ∈ BaseServer.onRpc j behind tmpData ∧
    ∀ a ∈ BaseServer.onRpc j behind tmpData, a = tmpData ∨ Terminated a := by
  unfold BaseServer.onRpc
  split
  · simp
  · split
    · simp
    · rename_i param hp
      refine ⟨by simp, fun a ha => ?_⟩
      rcases List.mem_append.mp ha with ha | ha
      · exact .inl (by simpa using ha)
      · rw [mem_onRequest ha]
        exact .inr (getSubJson_terminated j hp)

theorem client_onRpc {tmpData : ByteArray} : tmpData ∈ BaseClient.onRpc j behind cb tmpData ∧
    ∀ a ∈ BaseClient.onRpc j behind cb tmpData, a = tmpData ∨ Terminated a := by
  unfold BaseClient.onRpc
  split
  · simp
  · split
    · simp
    · split
      · simp
      · rename_i cb param hp
        refine ⟨by simp, fun a ha => ?_⟩
        rcases List.mem_append.mp ha with ha | ha
        · exact .inl (by simpa using ha)
        · rw [mem_call ha]
          exact .inr (getSubJson_terminated j hp)

end

/-- a condition that terminated arrays meet holds of all that is given when it holds of
`tmpData` -/
theorem handed_iff {onRpc : ByteArray → List ByteArray} (hmem : ∀ x, x ∈ onRpc x)
    (hall : ∀ x, ∀ a ∈ onRpc x, a = x ∨ Terminated a) {P : ByteArray → Prop}
    (hP : ∀ a, Terminated a → P a) (header : NetPackageHeader) (d : Decoded) :
    (∀ a ∈ handed onRpc header d, P a) ↔
      header.m_cmd ≠ NET_CMD_RPC ∨ ∀ tmpData, d = .data tmpData → P tmpData := by
  cases d with
  | data tmpData =>
    by_cases hcmd : header.m_cmd = NET_CMD_RPC
    · rw [handed, if_pos hcmd]
      refine ⟨fun h => .inr fun x hx => ?_, fun h a ha => ?_⟩
      · cases hx
        exact h tmpData (hmem tmpData)
      · rcases hall tmpData a ha with rfl | ht
        · exact (h.resolve_left fun hne => hne hcmd) a rfl
        · exact hP a ht
    · rw [handed, if_neg hcmd]
      exact iff_of_true (List.forall_mem_nil _) (.inl hcmd)
  | dropped => exact iff_of_true (List.forall_mem_nil _) (.inr fun _ h => by cases h)
  | threw => exact iff_of_true (List.forall_mem_nil _) (.inr fun _ h => by cases h)

/-! ## from the payload to the readers -/

/-- the argument is `COMPRESS_LZMA` or `COMPRESS_DOUBLE_LZMA` -/
def AsksLzma (compress : BitVec 8) : Prop :=
  compress.setWidth 3 = COMPRESS_LZMA ∨ compress.setWidth 3 = COMPRESS_DOUBLE_LZMA

instance (compress : BitVec 8) : Decidable (AsksLzma compress) :=
  inferInstanceAs (Decidable (_ ∨ _))

theorem zlib_not_lzma {compress : BitVec 8} (hz : AsksZlib compress) : ¬ AsksLzma compress := by
  rintro hl
  rcases hz with hz | hz <;> rcases hl with hl | hl <;>
  · rw [hz] at hl
    exact absurd hl (by decide)

/-- `LzmaDecomp` makes nothing of the zlib stream `s`, or something with a zero byte in it -/
def LzmaTerminated (w : Platform) (s : ByteArray) : Prop :=
  ∀ ok tmpData, LzmaDecomp w s [] 0 = some (ok, tmpData) → tmpData ≠ [] → Terminated tmpData

/-- the decode stage comes back, and what it leads to gives the readers arrays with `P` only -/
def GivesOnly (P : ByteArray → Prop) (f : Nat → Option (BitVec 8 × Decoded))
    (given : Decoded → List ByteArray) : Prop :=
  ∃ t d, Comes f (t, d) ∧ ∀ a ∈ given d, P a

theorem givesOnly_iff {P : ByteArray → Prop} {f : Nat → Option (BitVec 8 × Decoded)}
    {given : Decoded → List ByteArray} {t : BitVec 8} {d : Decoded} (h : Comes f (t, d)) :
    GivesOnly P f given ↔ ∀ a ∈ given d, P a := by
  refine ⟨?_, fun hd => ⟨t, d, h, hd⟩⟩
  rintro ⟨t', d', hf, hd⟩
  rw [(Prod.mk.inj (h.unique hf)).2]
  exact hd

theorem rpc_cmd (o : ByteOrder) (z : Deflate) {x : ByteArray} (hx : x ≠ []) (cmd : BitVec 16)
    (seq : BitVec 64) (compress : BitVec 8) :
    (NetPackage.ofBytes (rpcBytes o z x cmd seq compress)).m_pkgHeader.m_cmd = cmd := by
  have hcmd : (NetPackage.mk (rpcHeader z x cmd seq compress) (z.stored x)).sized.m_cmd = cmd :=
    (rpcHeader_fields z x cmd seq compress).1
  have ht : ∀ p : NetPackage, p.bytes.take 12 = p.sized.bytes :=
    fun p => List.take_left' p.sized.bytes_length
  rw [rpcBytes_package o z x cmd seq compress hx, NetPackage.ofBytes, ht,
    (restored_ofBytes _).m_cmd, hcmd]

/-- what becomes of a stream that is no zlib stream for the end -/
theorem misread_iff (raw : ByteArray → ByteArray) (w : Platform) (compress : BitVec 8)
    (s : ByteArray) (P : ByteArray → Prop) :
    (∀ tmpData, misread raw w compress s = .data tmpData → P tmpData) ↔
      if AsksLzma compress then
        ∀ ok tmpData, LzmaDecomp w s [] 0 = some (ok, tmpData) → tmpData ≠ [] → P tmpData
      else P (raw s) := by
  by_cases hl : AsksLzma compress
  · have hl' : compress.setWidth 3 = COMPRESS_LZMA ∨
        compress.setWidth 3 = COMPRESS_DOUBLE_LZMA := hl
    rw [if_pos hl, misread, if_pos hl']
    cases hd : LzmaDecomp w s [] 0 with
    | none =>
      refine iff_of_true ?_ ?_
      · intro tmpData h
        cases h
      · intro ok tmpData h
        cases h
    | some r =>
      obtain ⟨ok, tmpData⟩ := r
      dsimp only
      by_cases hnil : tmpData = []
      · rw [if_pos hnil]
        refine iff_of_true ?_ ?_
        · intro x h
          cases h
        · intro ok' x h hne
          cases h
          exact absurd hnil hne
      · rw [if_neg hnil]
        refine ⟨fun h ok' x hx hne => ?_, fun h x hx => ?_⟩
        · cases hx
          exact h _ rfl
        · cases hx
          exact h ok _ rfl hnil
  · have hm : misread raw w compress s = .data (raw s) := if_neg hl
    rw [if_neg hl, hm]
    refine ⟨fun h => h _ rfl, fun h x hx => ?_⟩
    cases hx
    exact h

/-- the package is not for the readers; or `compress` has failed; or no zlib method was asked for,
and LZMA, if it was, makes nothing of the stream or something with a zero byte -/
def NulKept (w : Platform) (z : Deflate) (x : ByteArray) (cmd : BitVec 16) (compress : BitVec 8) :
    Prop :=
  cmd ≠ NET_CMD_RPC ∨ z.succeeds x = false ∨
    ¬ AsksZlib compress ∧ (AsksLzma compress → LzmaTerminated w (z.stored x))

section
variable (raw : ByteArray → ByteArray) {w : Platform} {z : Deflate} (hu : Undoes w.inflate z)
  {x : ByteArray} (hx : x ≠ []) (cmd : BitVec 16) (seq : BitVec 64) (compress t : BitVec 8)
  {onRpc : ByteArray → List ByteArray} (hmem : ∀ x, x ∈ onRpc x)
  (hall : ∀ x, ∀ a ∈ onRpc x, a = x ∨ Terminated a) {P : ByteArray → Prop}
  (hP : ∀ a, Terminated a → P a)
include hu hx hmem hall hP

/-- **What counts of a payload**: itself when zlib is asked for, what the end makes of the stream
when something else is, and what it makes of the payload when that was not compressed. -/
theorem message_gives_iff :
    GivesOnly P (fun fuel => decodeContent raw w fuel t
        (NetPackage.ofBytes (rpcBytes w.order z x cmd seq compress)).m_pkgHeader
        (NetPackage.ofBytes (rpcBytes w.order z x cmd seq compress)).m_pkgContent)
      (handed onRpc (NetPackage.ofBytes (rpcBytes w.order z x cmd seq compress)).m_pkgHeader) ↔
    cmd ≠ NET_CMD_RPC ∨
      if z.succeeds x then
        if AsksZlib compress then P x
        else ∀ tmpData, misread raw w compress (z.stored x) = .data tmpData → P tmpData
      else P (raw x) := by
  have hcmd := rpc_cmd w.order z hx cmd seq compress
  cases hs : z.succeeds x with
  | false =>
    rw [givesOnly_iff (raw_comes raw hx cmd seq compress t hs), handed_iff hmem hall hP, hcmd,
      if_neg Bool.false_ne_true]
    refine or_congr_right ⟨fun h => h _ rfl, fun h a ha => ?_⟩
    cases ha
    exact h
  | true =>
    rw [if_pos rfl]
    by_cases hz : AsksZlib compress
    · obtain ⟨t', h⟩ := zlib_comes raw hx cmd seq compress t hu hs hz
      rw [givesOnly_iff h, handed_iff hmem hall hP, hcmd, if_pos hz]
      refine or_congr_right ⟨fun h => h _ rfl, fun h a ha => ?_⟩
      cases ha
      exact h
    · obtain ⟨t', h⟩ := mislabelled_comes raw hx cmd seq compress t hu hs hz
      rw [givesOnly_iff h, handed_iff hmem hall hP, hcmd, if_neg hz]

/-- an end whose own copies have `P`, where the payload has not and what LZMA makes has it exactly
when it is terminated -/
theorem message_keeps_iff (hno : ¬ P x) (hraw : ∀ s, P (raw s))
    (hlzma : ∀ a, a ≠ [] → (P a ↔ Terminated a)) :
    GivesOnly P (fun fuel => decodeContent raw w fuel t
        (NetPackage.ofBytes (rpcBytes w.order z x cmd seq compress)).m_pkgHeader
        (NetPackage.ofBytes (rpcBytes w.order z x cmd seq compress)).m_pkgContent)
      (handed onRpc (NetPackage.ofBytes (rpcBytes w.order z x cmd seq compress)).m_pkgHeader) ↔
    NulKept w z x cmd compress := by
  rw [message_gives_iff raw hu hx cmd seq compress t hmem hall hP, NulKept, misread_iff]
  cases hs : z.succeeds x with
  | false =>
    rw [if_neg Bool.false_ne_true]
    exact or_congr_right (iff_of_true (hraw x) (.inl rfl))
  | true =>
    rw [if_pos rfl, or_iff_right (a := true = false) Bool.noConfusion]
    refine or_congr_right ?_
    by_cases hz : AsksZlib compress
    · rw [if_pos hz]
      exact iff_of_false hno fun h => h.1 hz
    · rw [if_neg hz, and_iff_right hz]
      by_cases hl : AsksLzma compress
      · rw [if_pos hl]
        refine ⟨fun h _ ok tmpData he hn => ?_, fun h ok tmpData he hn => ?_⟩
        · exact (hlzma tmpData hn).mp (h ok tmpData he hn)
        · exact (hlzma tmpData hn).mpr (h hl ok tmpData he hn)
      · rw [if_neg hl]
        exact iff_of_true (hraw _) fun h => absurd h hl

end

section
variable (j : Json) (behind : ByteArray) (cb : Option CallBack) {w : Platform} {z : Deflate}
  (hu : Undoes w.inflate z) {pt pts : ptree} {x : ByteArray}
  (hj : jsonHelper.getJson j pt pts = some x) (cmd : BitVec 16) (seq : BitVec 64)
  (compress t : BitVec 8)

/-- the request that carries the payload gives the readers of the server terminated arrays only -/
def RequestTerminated (w : Platform) (z : Deflate) (x : ByteArray) : Prop :=
  GivesOnly Terminated (serverDecodes w z x cmd seq compress t) (BaseServer.handed j behind
    (NetPackage.ofBytes (BaseClient.requestBytes w.order z x cmd seq compress)).m_pkgHeader)

/-- the response that carries it gives the readers of the client arrays with `P` only -/
def ResponseGives (P : ByteArray → Prop) (w : Platform) (z : Deflate) (x : ByteArray) : Prop :=
  GivesOnly P (clientDecodes w z x cmd seq compress t) (BaseClient.handed j behind cb
    (NetPackage.ofBytes (BaseServer.sendRespBytes w.order z x cmd seq compress)).m_pkgHeader)

include hu hj

/-- **The server gives its readers terminated arrays when `compress` has failed, or zlib was not
asked for.** -/
theorem server_handed_iff :
    RequestTerminated j behind cmd seq compress t w z x ↔ NulKept w z x cmd compress := by
  have hne := j.not_empty hj
  have hno := getJson_unterminated j hj
  have hraw : ∀ s : ByteArray, Terminated (Vec.memcpy (Vec.resize [] (s.length + 1) 0) 0 s) := by
    intro s
    rw [server_raw]
    exact List.mem_append_right s (List.mem_singleton.mpr rfl)
  rw [RequestTerminated, serverDecodes_content, BaseServer.handed, BaseClient.requestBytes]
  exact message_keeps_iff _ hu hne cmd seq compress t (fun x => (server_onRpc j behind).1)
    (fun x => (server_onRpc j behind).2) (fun _ h => h) hno hraw fun _ _ => Iff.rfl

/-- **The client gives its readers terminated arrays only by accident of LZMA**: what zlib gives has
no NUL, and without compression it gives them an empty array. -/
theorem client_handed_iff :
    ResponseGives j behind cb cmd seq compress t Terminated w z x ↔
      cmd ≠ NET_CMD_RPC ∨ z.succeeds x = true ∧ AsksLzma compress ∧
        LzmaTerminated w (z.stored x) := by
  have hne := j.not_empty hj
  have hno := getJson_unterminated j hj
  have hnil : ¬ Terminated [] := List.not_mem_nil
  rw [ResponseGives, clientDecodes_content, BaseClient.handed, BaseServer.sendRespBytes,
    message_gives_iff _ hu hne cmd seq compress t (fun x => (client_onRpc j behind cb).1)
      (fun x => (client_onRpc j behind cb).2) fun _ h => h, misread_iff]
  cases hs : z.succeeds x with
  | false =>
    rw [if_neg Bool.false_ne_true]
    exact or_congr_right (iff_of_false hnil fun h => Bool.noConfusion h.1)
  | true =>
    rw [if_pos rfl, and_iff_right rfl]
    refine or_congr_right ?_
    by_cases hz : AsksZlib compress
    · rw [if_pos hz]
      exact iff_of_false hno fun h => zlib_not_lzma hz h.1
    · rw [if_neg hz]
      by_cases hl : AsksLzma compress
      · rw [if_pos hl, and_iff_right hl]
        exact Iff.rfl
      · rw [if_neg hl]
        exact iff_of_false hnil fun h => hl h.1

/-- **What the client streams is terminated under the same condition as at the server.** -/
theorem client_streamed_iff :
    ResponseGives j behind cb cmd seq compress t (fun a => a ≠ [] → Terminated a) w z x ↔
      NulKept w z x cmd compress := by
  have hne := j.not_empty hj
  have hno := getJson_unterminated j hj
  rw [ResponseGives, clientDecodes_content, BaseClient.handed, BaseServer.sendRespBytes]
  exact message_keeps_iff (P := fun a => a ≠ [] → Terminated a) _ hu hne cmd seq compress t
    (fun x => (client_onRpc j behind cb).1) (fun x => (client_onRpc j behind cb).2)
    (fun _ h _ => h) (fun h => hno (h hne)) (fun _ h => absurd rfl h)
    fun _ hn => ⟨fun h => h hn, fun h _ => h⟩

/-- **When the readers are given terminated arrays**, for every payload of `getJson`, both ways. -/
theorem json_terminated_iff :
    (RequestTerminated j behind cmd seq compress t w z x ↔ NulKept w z x cmd compress) ∧
    (ResponseGives j behind cb cmd seq compress t Terminated w z x ↔
      cmd ≠ NET_CMD_RPC ∨ z.succeeds x = true ∧ AsksLzma compress ∧
        LzmaTerminated w (z.stored x)) ∧
    (ResponseGives j behind cb cmd seq compress t (fun a => a ≠ [] → Terminated a) w z x ↔
      NulKept w z x cmd compress) :=
  ⟨server_handed_iff j behind hu hj cmd seq compress t,
    client_handed_iff j behind cb hu hj cmd seq compress t,
    client_streamed_iff j behind cb hu hj cmd seq compress t⟩

end

/-! ### a request -/

/-- the zlib stream of the text of a request for `test` -/
def streamTest : ByteArray :=
  [0x78, 0x9c, 0xab, 0x56, 0x4a, 0x2b, 0xcd, 0x4b, 0x56, 0xb2, 0x52, 0x2a, 0x49, 0x2d, 0x2e, 0x51,
   0xd2, 0x51, 0x2a, 0x48, 0x2c, 0x4a, 0xcc, 0x55, 0xb2, 0xaa, 0x56, 0xca, 0x4c, 0x01, 0x0a, 0x9a,
   0x2b, 0xd5, 0xd6, 0x72, 0x01, 0x00, 0xca, 0x50, 0x0a, 0xaa]

/-- a host whose zlib knows this stream -/
def testPlatform : Platform :=
  { lettersPlatform with inflate := .one streamTest testText (by decide) }

theorem testPlatform_undoes : Undoes testPlatform.inflate (.one testText streamTest) :=
  undoes_one streamTest testText (by decide)

/-- the request as the client sends it, and the same as a response -/
theorem json_terminated_iff_test :
    (RequestTerminated testJson [] NET_CMD_RPC 1 2 0 testPlatform (.one testText streamTest)
        testText ↔ NulKept testPlatform (.one testText streamTest) testText NET_CMD_RPC 2) ∧
    (ResponseGives testJson [] (some .onTest) NET_CMD_RPC 1 2 0 Terminated testPlatform
        (.one testText streamTest) testText ↔
      NET_CMD_RPC ≠ NET_CMD_RPC ∨ (Deflate.one testText streamTest).succeeds testText = true ∧
        AsksLzma 2 ∧ LzmaTerminated testPlatform ((Deflate.one testText streamTest).stored
          testText)) ∧
    (ResponseGives testJson [] (some .onTest) NET_CMD_RPC 1 2 0
        (fun a => a ≠ [] → Terminated a) testPlatform (.one testText streamTest) testText ↔
      NulKept testPlatform (.one testText streamTest) testText NET_CMD_RPC 2) :=
  json_terminated_iff testJson [] (some .onTest) testPlatform_undoes testJson_text NET_CMD_RPC 1 2 0

/-- **A request for `test`, compressed as the client compresses it, is streamed without a NUL, and
so is the same text as a response.** -/
theorem json_unterminated :
    jsonHelper.getJson testJson testFunc testParam = some testText ∧
    Undoes testPlatform.inflate (.one testText streamTest) ∧
    ¬ RequestTerminated testJson [] NET_CMD_RPC 1 2 0 testPlatform (.one testText streamTest)
      testText ∧
    ¬ ResponseGives testJson [] (some .onTest) NET_CMD_RPC 1 2 0 (fun a => a ≠ [] → Terminated a)
      testPlatform (.one testText streamTest) testText := by
  have hs : (Deflate.one testText streamTest).succeeds testText = true := by decide
  have hno : ¬ NulKept testPlatform (.one testText streamTest) testText NET_CMD_RPC 2 := by
    rintro (h | h | h)
    · exact h rfl
    · rw [hs] at h
      cases h
    · exact h.1 (by decide)
  refine ⟨testJson_text, testPlatform_undoes, ?_, ?_⟩
  · rwa [server_handed_iff testJson [] testPlatform_undoes testJson_text]
  · rwa [client_streamed_iff testJson [] (some .onTest) testPlatform_undoes testJson_text]

end Netwb
