import Netwb.Net.Stream
import Netwb.Net.Receive

/-!
# The messages of the remote calls

What `BaseClient::request` and `BaseServer::sendResp` hand to `sendData`: the payload goes through
`zlibCompress` with room for a header, and the header is written over that room.

`rpc_one_frame_iff`: the receiving parser takes such a message for exactly one package if and only
if the payload is not empty.  For an empty payload `zlibCompress` makes no room, the length that is
put into the header is 0, and the parser throws away what it has buffered.
-/

namespace Netwb
open Wire Framing

def NET_CMD_RPC : BitVec 16 := 2

def COMPRESS_NONE : BitVec 3 := 0

/-- the body that `request` and `sendResp` share, up to the call of `sendData` -/
def rpcBytes (o : ByteOrder) (z : Deflate) (payload : ByteArray) (cmd : BitVec 16)
    (seq : BitVec 64) (compress : BitVec 8) : ByteArray :=
  let header := NetPackageHeader.make cmd seq compress 0
  let (ok, bytes) := zlibCompress z payload [] NET_PACKAGE_HEADER_LENGTH
  let header :=
    if ok then header
    else { header with m_flag := { header.m_flag with compress := COMPRESS_NONE } }
  let header := { header with m_length := BitVec.ofNat 32 bytes.length }
  (header.encode o bytes 0).2.1

/-- what `BaseClient::request(param, cb, cmd, compress)` sends after `genSeq` -/
def BaseClient.requestBytes (o : ByteOrder) (z : Deflate) (param : ByteArray) (cmd : BitVec 16)
    (seq : BitVec 64) (compress : BitVec 8) : ByteArray :=
  rpcBytes o z param cmd seq compress

/-- what `BaseServer::sendResp(resp, cmd, seq, connection, compress)` sends -/
def BaseServer.sendRespBytes (o : ByteOrder) (z : Deflate) (resp : ByteArray) (cmd : BitVec 16)
    (seq : BitVec 64) (compress : BitVec 8) : ByteArray :=
  rpcBytes o z resp cmd seq compress

/-! ## what a message is made of -/

theorem header_encode_front (o : ByteOrder) (h : NetPackageHeader) (data : ByteArray) :
    (h.encode o data 0).2.1 = h.bytes ++ data.drop 12 := by
  have he := header_encode o h data 0 (by omega)
  have hl := growTo_length data (0 + 12)
  rw [show (0 : Int) = ((0 : Nat) : Int) from rfl, he]
  show Vec.memcpy _ ((0 : Nat) : Int) h.bytes = _
  rw [Vec.memcpy_inside _ 0 h.bytes (by rw [h.bytes_length]; omega), List.take_zero,
    List.nil_append, h.bytes_length]
  congr 1
  by_cases hd : data.length < 12
  · rw [List.drop_of_length_le (by omega), List.drop_of_length_le (by omega)]
  · rw [growTo, if_neg (by omega)]

section
variable (o : ByteOrder) (z : Deflate) (payload : ByteArray) (cmd : BitVec 16) (seq : BitVec 64)
  (compress : BitVec 8)

/-- the header of a message, before its length is set -/
def rpcHeader : NetPackageHeader :=
  let header := NetPackageHeader.make cmd seq compress 0
  if z.succeeds payload then header
  else { header with m_flag := { header.m_flag with compress := COMPRESS_NONE } }

theorem rpcHeader_fields : (rpcHeader z payload cmd seq compress).m_cmd = cmd ∧
    (rpcHeader z payload cmd seq compress).m_seq = seq := by
  unfold rpcHeader
  dsimp only
  split <;> exact ⟨rfl, rfl⟩

/-- **A message with a payload is the encoding of a package.** -/
theorem rpcBytes_package (h : payload ≠ []) : rpcBytes o z payload cmd seq compress
    = (NetPackage.mk (rpcHeader z payload cmd seq compress) (z.stored payload)).bytes := by
  obtain ⟨front, hf, hz⟩ := zlibCompress_spec z payload [] 12 h
  have hl : (front ++ z.stored payload).length = 12 + (z.stored payload).length := by
    rw [List.length_append, hf]
  simp only [rpcBytes, NET_PACKAGE_HEADER_LENGTH, hz]
  rw [header_encode_front, List.drop_left' hf, hl]
  unfold rpcHeader
  cases z.succeeds payload <;> rfl

/-- the twelve bytes of a message without one -/
theorem rpcBytes_nil : rpcBytes o z [] cmd seq compress
    = ({ NetPackageHeader.make cmd seq 0 0 with m_length := 0 } : NetPackageHeader).bytes := by
  simp only [rpcBytes, zlibCompress_nil]
  rw [header_encode_front]
  rfl

end

/-! ## the receiving side -/

/-- a new parser that is fed the bytes takes them for exactly one package, which has their number,
the command and the sequence number, and is in its initial status afterwards -/
def OneFrame (o : ByteOrder) (wild : Int → BYTE) (bytes : ByteArray) (cmd : BitVec 16)
    (seq : BitVec 64) : Prop :=
  ∃ p pkg, (NetPackageParser.fresh.feedPack wild bytes bytes.length).packages o wild
      (fun _ => false) 0 = (p, [pkg], false) ∧
    p.isInitStatus = true ∧ pkg.size = bytes.length ∧
    pkg.m_pkgHeader.m_length.toNat = bytes.length ∧ pkg.m_pkgHeader.m_cmd = cmd ∧
    pkg.m_pkgHeader.m_seq = seq

section
variable (o : ByteOrder) (wild : Int → BYTE)

/-- what it makes of them -/
theorem fresh_packages (bytes : ByteArray) :
    ∃ p, (NetPackageParser.fresh.feedPack wild bytes bytes.length).packages o wild
        (fun _ => false) 0
        = (p, readsFrom o wild (NetPackageParser.fresh.feedPack wild bytes bytes.length).m_dataBuf
            0 (drain plain bytes).frames, false) ∧
      p.Good ∧ p.live = (drain plain bytes).rest ∧ p.m_dataIndex = 0 := by
  obtain ⟨hg, hlive, hidx⟩ := fed_fresh wild bytes
  obtain ⟨i1, i2, i3, i4⟩ := packages_drain o wild hg 0
  rw [hlive] at i2 i4
  rw [hidx] at i4
  exact ⟨_, Prod.ext rfl i4, i1, i2, i3⟩

/-- the package that is read at the front, if the bytes are those of one -/
theorem fresh_readAt (p : NetPackage) (hs : p.m_pkgHeader.m_seq.toNat < 2 ^ 36) :
    readAt o wild (NetPackageParser.fresh.feedPack wild p.bytes p.bytes.length).m_dataBuf 0
      p.bytes.length = p.sent := by
  obtain ⟨hg, hlive, hidx⟩ := fed_fresh wild p.bytes
  have hll := live_length hg
  have hle := hg.len_le
  have ht := live_take (NetPackageParser.fresh.feedPack wild p.bytes p.bytes.length)
    p.bytes.length (by rw [← hll, hlive])
  rw [hlive] at hll
  rw [hlive, List.take_length, hidx] at ht
  rw [readAt_frame o wild _ 0 p.bytes.length (by rw [package_bytes_length]; omega) (by omega)
    (Or.inl (by omega)), ← ht, package_ofBytes_bytes p hs]

theorem oneFrame_bytes (p : NetPackage) (hp : p.size ≤ NET_PACKAGE_INVALID_LENGTH)
    (hs : p.m_pkgHeader.m_seq.toNat < 2 ^ 36) :
    OneFrame o wild p.bytes p.m_pkgHeader.m_cmd p.m_pkgHeader.m_seq := by
  have hlen : p.bytes.length = p.size := package_bytes_length p
  have hd : drain plain p.bytes = ⟨[p.bytes], [], false⟩ := by
    have := drain_flatten_frames plain [p.bytes] (by
      intro f hf
      rw [List.mem_singleton.mp hf]
      exact look_bytes p hp)
    rwa [List.flatten_singleton] at this
  obtain ⟨p', hr, g, hl, h0⟩ := fresh_packages o wild p.bytes
  rw [hd] at hr hl
  refine ⟨p', p.sent, ?_, isInitStatus_of_live g h0 hl, hlen.symm, ?_, rfl, rfl⟩
  · rw [hr, ← fresh_readAt o wild p hs]
    rfl
  · show (BitVec.ofNat 32 p.size).toNat = _
    simp only [NET_PACKAGE_INVALID_LENGTH] at hp
    rw [BitVec.toNat_ofNat, Nat.mod_eq_of_lt (by omega), hlen]

/-- a header that gives the length 0 makes the parser forget everything -/
theorem not_oneFrame_of_zero (h : NetPackageHeader) (h0 : h.m_length = 0) (cmd : BitVec 16)
    (seq : BitVec 64) : ¬ OneFrame o wild h.bytes cmd seq := by
  rintro ⟨p, pkg, hr, -⟩
  have hw : lengthWord h.bytes = 0 := by
    show (join32 _ _ _ _).toNat = 0
    rw [join32_byteAt, h0]
    rfl
  have hbad : plain.look h.bytes = .bad := by
    show plainLook h.bytes = .bad
    rw [plainLook, hw, if_neg (by rw [h.bytes_length]; decide), if_pos (Or.inl (by decide))]
  obtain ⟨p', hr', -⟩ := fresh_packages o wild h.bytes
  rw [drain_bad plain hbad, hr] at hr'
  injection hr' with _ hr'
  injection hr' with hr' _
  cases hr'

end

/-- **A message is one frame exactly when its payload is not empty.** -/
theorem rpc_one_frame_iff (o : ByteOrder) (wild : Int → BYTE) (z : Deflate) (payload : ByteArray)
    (cmd : BitVec 16) (seq : BitVec 64) (compress : BitVec 8) (hseq : seq.toNat < 2 ^ 36) :
    ((BaseClient.requestBytes o z payload cmd seq compress).length ≤ NET_PACKAGE_INVALID_LENGTH →
      (OneFrame o wild (BaseClient.requestBytes o z payload cmd seq compress) cmd seq
        ↔ payload ≠ [])) ∧
    ((BaseServer.sendRespBytes o z payload cmd seq compress).length
        ≤ NET_PACKAGE_INVALID_LENGTH →
      (OneFrame o wild (BaseServer.sendRespBytes o z payload cmd seq compress) cmd seq
        ↔ payload ≠ [])) := by
  obtain ⟨hc, hs⟩ := rpcHeader_fields z payload cmd seq compress
  have key : (rpcBytes o z payload cmd seq compress).length ≤ NET_PACKAGE_INVALID_LENGTH →
      (OneFrame o wild (rpcBytes o z payload cmd seq compress) cmd seq ↔ payload ≠ []) := by
    intro hlen
    refine ⟨?_, ?_⟩
    · rintro hf rfl
      rw [rpcBytes_nil] at hf
      exact not_oneFrame_of_zero o wild _ rfl cmd seq hf
    · intro hp
      rw [rpcBytes_package o z payload cmd seq compress hp] at hlen ⊢
      have := oneFrame_bytes o wild ⟨rpcHeader z payload cmd seq compress, z.stored payload⟩
        (by rw [package_bytes_length] at hlen; exact hlen) (by rw [hs]; exact hseq)
      rwa [hc, hs] at this
  exact ⟨key, key⟩

theorem rpc_one_frame_iff_A :
    (OneFrame .little (fun _ => 0) (BaseClient.requestBytes .little deflateA [0x41] NET_CMD_RPC 1 2)
        NET_CMD_RPC 1 ↔ ([0x41] : ByteArray) ≠ []) ∧
    (OneFrame .little (fun _ => 0) (BaseServer.sendRespBytes .little deflateA [0x41] NET_CMD_RPC 1 2)
        NET_CMD_RPC 1 ↔ ([0x41] : ByteArray) ≠ []) := by
  have h := rpc_one_frame_iff .little (fun _ => 0) deflateA [0x41] NET_CMD_RPC 1 2 (by decide)
  exact ⟨h.1 (by decide), h.2 (by decide)⟩

/-- an empty payload: twelve bytes whose length word is 0 -/
theorem rpc_empty_payload :
    (BaseClient.requestBytes .little deflateA [] NET_CMD_RPC 1 0).length
      ≤ NET_PACKAGE_INVALID_LENGTH ∧
    ¬ OneFrame .little (fun _ => 0) (BaseClient.requestBytes .little deflateA [] NET_CMD_RPC 1 0)
        NET_CMD_RPC 1 := by
  have hb : BaseClient.requestBytes .little deflateA [] NET_CMD_RPC 1 0 = _ :=
    rpcBytes_nil .little deflateA NET_CMD_RPC 1 0
  rw [hb]
  exact ⟨by decide, not_oneFrame_of_zero .little _ _ rfl NET_CMD_RPC 1⟩

end Netwb
