import Netwb.Lib.Word
import Netwb.Lib.Vec
import Mathlib.Tactic.IntervalCases

/-!
# Network packages: the 12-byte header and the package codec

`NetPackageHeader` and `NetPackage` of `net/NetPackage.cpp`.  A header is stored as

* 4 bytes   the length of the whole package, header included;
* 4 bytes   the low half of the sequence number;
* 2 bytes   the command;
* 2 bytes   the flags: reserved (4), high sequence bits (4), version (2), encryption (3),
            compression (3);

every word in network order.  Positions are `r_int32`; each `nPos += sizeof(..)` of the source is a
conversion back to that type (`toInt32`).  A read outside the buffer finds `wild`.

`bytes` is what `encode` writes, on every host; `ofBytes` is what `decode` finds in twelve bytes, and
the two undo each other (`ofBytes_bytes`, `bytes_ofBytes`), so that the format is a bijection
(`header_codec`).
-/

namespace Netwb
open Wire

abbrev BYTE := Byte
/-- `std::vector<BYTE>` -/
abbrev ByteArray := List BYTE

def INT32_MAX : Int := 0x7FFFFFFF

def NET_PACKAGE_HEADER_LENGTH : Nat := 12
def NET_PACKAGE_INVALID_LENGTH : Nat := 512 * 1024 * 1024

/-- the bit-fields of the header -/
structure NetPackageHeaderFlag where
  reserved : BitVec 4
  seq : BitVec 4
  version : BitVec 2
  compress : BitVec 3
  encrypt : BitVec 3
deriving DecidableEq, Repr

structure NetPackageHeader where
  m_length : BitVec 32
  m_seq : BitVec 64
  m_cmd : BitVec 16
  m_flag : NetPackageHeaderFlag
deriving DecidableEq, Repr

/-- the constructor -/
def NetPackageHeader.make (cmd : BitVec 16) (seq : BitVec 64) (compress encrypt : BitVec 8) :
    NetPackageHeader where
  m_length := BitVec.ofNat 32 NET_PACKAGE_HEADER_LENGTH
  m_cmd := cmd
  m_seq := seq
  m_flag :=
    { compress := compress.setWidth 3
      encrypt := encrypt.setWidth 3
      reserved := 0
      seq := (seq >>> 32).setWidth 4
      version := 0 }

/-- the flag word that `encode` builds -/
def NetPackageHeaderFlag.word (f : NetPackageHeaderFlag) : BitVec 16 :=
  ((f.reserved.setWidth 16 &&& 0x0f) <<< 12) ||| ((f.seq.setWidth 16 &&& 0x0f) <<< 8) |||
    ((f.version.setWidth 16 &&& 0x03) <<< 6) ||| ((f.encrypt.setWidth 16 &&& 0x07) <<< 3) |||
    (f.compress.setWidth 16 &&& 0x07)

/-- the bit-fields that `decode` takes out of a flag word -/
def NetPackageHeaderFlag.ofWord (flag : BitVec 16) : NetPackageHeaderFlag where
  reserved := ((flag >>> 12) &&& 0x0f).setWidth 4
  seq := ((flag >>> 8) &&& 0x0f).setWidth 4
  version := ((flag >>> 6) &&& 0x03).setWidth 2
  encrypt := ((flag >>> 3) &&& 0x07).setWidth 3
  compress := (flag &&& 0x07).setWidth 3

/-- `data.resize` up to an unsigned 32-bit size if it is smaller -/
def growTo (data : ByteArray) (n : Nat) : ByteArray :=
  if data.length < n then Vec.resize data n 0 else data

/-- `NetPackageHeader::encode(data, nPos)`: the object (whose `m_flag.seq` is set), the buffer and
the position behind the header -/
def NetPackageHeader.encode (o : ByteOrder) (h : NetPackageHeader) (data : ByteArray)
    (nPos : Int) : NetPackageHeader × ByteArray × Int :=
  let data := growTo data ((nPos + NET_PACKAGE_HEADER_LENGTH) % 4294967296).toNat
  let netLen := hton32 o h.m_length
  let netSeq := hton32 o (h.m_seq.setWidth 32)
  let netCmd := hton16 o h.m_cmd
  let data := Vec.memcpy data nPos (store32 o netLen)
  let nPos := toInt32 (nPos + 4)
  let data := Vec.memcpy data nPos (store32 o netSeq)
  let nPos := toInt32 (nPos + 4)
  let data := Vec.memcpy data nPos (store16 o netCmd)
  let nPos := toInt32 (nPos + 2)
  let h := { h with m_flag := { h.m_flag with seq := (h.m_seq >>> 32).setWidth 4 } }
  let flag := hton16 o h.m_flag.word
  let data := Vec.memcpy data nPos (store16 o flag)
  let nPos := toInt32 (nPos + 2)
  (h, data, nPos)

/-- `*(r_uint32*)&data[nPos]` -/
def read32 (o : ByteOrder) (wild : Int → BYTE) (data : ByteArray) (nPos : Int) : BitVec 32 :=
  load32 o (Vec.peek wild data nPos) (Vec.peek wild data (nPos + 1))
    (Vec.peek wild data (nPos + 2)) (Vec.peek wild data (nPos + 3))

def read16 (o : ByteOrder) (wild : Int → BYTE) (data : ByteArray) (nPos : Int) : BitVec 16 :=
  load16 o (Vec.peek wild data nPos) (Vec.peek wild data (nPos + 1))

/-- `NetPackageHeader::decode(data, nPos)`: the header and the position behind it -/
def NetPackageHeader.decode (o : ByteOrder) (wild : Int → BYTE) (data : ByteArray) (nPos : Int) :
    NetPackageHeader × Int :=
  let m_length := hton32 o (read32 o wild data nPos)
  let nPos := toInt32 (nPos + 4)
  let m_seq := (hton32 o (read32 o wild data nPos)).setWidth 64
  let nPos := toInt32 (nPos + 4)
  let m_cmd := hton16 o (read16 o wild data nPos)
  let nPos := toInt32 (nPos + 2)
  let m_flag := NetPackageHeaderFlag.ofWord (hton16 o (read16 o wild data nPos))
  let m_seq := (m_flag.seq.setWidth 64 <<< 32) ||| m_seq
  let nPos := toInt32 (nPos + 2)
  (⟨m_length, m_seq, m_cmd, m_flag⟩, nPos)

structure NetPackage where
  m_pkgHeader : NetPackageHeader
  m_pkgContent : ByteArray
deriving DecidableEq, Repr

/-- `NetPackage::encode(data, nPos)`: the object, the buffer and the position behind the package -/
def NetPackage.encode (o : ByteOrder) (p : NetPackage) (data : ByteArray) (nPos : Int) :
    NetPackage × ByteArray × Int :=
  let h := { p.m_pkgHeader with
    m_length := BitVec.ofNat 32 (NET_PACKAGE_HEADER_LENGTH + p.m_pkgContent.length) }
  let data := growTo data ((h.m_length.toNat + nPos) % 4294967296).toNat
  let (h, data, nPos) := h.encode o data nPos
  let data :=
    if p.m_pkgContent.length > 0 then Vec.memcpy data nPos p.m_pkgContent else data
  let nPos := toInt32 (nPos + p.m_pkgContent.length)
  (⟨h, p.m_pkgContent⟩, data, nPos)

/-- `NetPackage::encode()` -/
def NetPackage.encodeArr (o : ByteOrder) (p : NetPackage) : ByteArray := (p.encode o [] 0).2.1

/-! ## the bytes of a header -/

/-- the header as `encode` leaves the object behind -/
def NetPackageHeader.sent (h : NetPackageHeader) : NetPackageHeader :=
  { h with m_flag := { h.m_flag with seq := (h.m_seq >>> 32).setWidth 4 } }

/-- the twelve bytes of a header -/
def NetPackageHeader.bytes (h : NetPackageHeader) : ByteArray :=
  be32 h.m_length ++ be32 (h.m_seq.setWidth 32) ++ be16 h.m_cmd ++ be16 h.sent.m_flag.word

/-- the header in twelve bytes -/
def NetPackageHeader.ofBytes : ByteArray → NetPackageHeader
  | [b0, b1, b2, b3, b4, b5, b6, b7, b8, b9, b10, b11] =>
    let m_flag := NetPackageHeaderFlag.ofWord (join16 b10 b11)
    { m_length := join32 b0 b1 b2 b3
      m_seq := (m_flag.seq.setWidth 64 <<< 32) ||| (join32 b4 b5 b6 b7).setWidth 64
      m_cmd := join16 b8 b9
      m_flag := m_flag }
  | _ => .make 0 0 0 0

@[simp] theorem NetPackageHeader.bytes_length (h : NetPackageHeader) : h.bytes.length = 12 := rfl

theorem flag_ofWord_word (f : NetPackageHeaderFlag) : .ofWord f.word = f := by
  obtain ⟨r, s, v, c, e⟩ := f
  simp only [NetPackageHeaderFlag.ofWord, NetPackageHeaderFlag.word,
    NetPackageHeaderFlag.mk.injEq]
  refine ⟨?_, ?_, ?_, ?_, ?_⟩
  all_goals
    apply BitVec.eq_of_getLsbD_eq
    intro i hi
    interval_cases i <;> simp

/-- the bit-fields come back from the two bytes of their word -/
theorem flag_ofWord_bytes (f : NetPackageHeaderFlag) :
    .ofWord (join16 (byteAt f.word 1) (byteAt f.word 0)) = f := by
  rw [join16_byteAt, flag_ofWord_word]

/-- the two parts of a sequence number are its 36 low bits -/
theorem seq_low (s : BitVec 64) :
    (((s >>> 32).setWidth 4).setWidth 64 <<< 32) ||| (s.setWidth 32).setWidth 64
      = (s.setWidth 36).setWidth 64 := by
  apply BitVec.eq_of_getLsbD_eq
  intro i hi
  simp only [BitVec.getLsbD_or, BitVec.getLsbD_shiftLeft, BitVec.getLsbD_setWidth,
    BitVec.getLsbD_ushiftRight, hi, decide_true, Bool.true_and]
  by_cases h32 : i < 32
  · simp [h32, show i < 36 by omega]
  · by_cases h36 : i < 36
    · have e : 32 + (i - 32) = i := by omega
      have h4 : i - 32 < 4 := by omega
      simp [h32, h36, h4, e, show i - 32 < 64 by omega]
    · have h4 : ¬ i - 32 < 4 := by omega
      simp [h32, h36, h4]

/-- a sequence number of 36 bits is put together again from its two parts -/
theorem seq_join (s : BitVec 64) (hs : s.toNat < 2 ^ 36) :
    (((s >>> 32).setWidth 4).setWidth 64 <<< 32) ||| (s.setWidth 32).setWidth 64 = s := by
  rw [seq_low]
  apply BitVec.eq_of_toNat_eq
  rw [BitVec.toNat_setWidth, BitVec.toNat_setWidth, Nat.mod_eq_of_lt hs, Nat.mod_eq_of_lt s.isLt]

/-- what is read as the number of a header that was stored -/
theorem ofBytes_bytes_seq (h : NetPackageHeader) :
    (NetPackageHeader.ofBytes h.bytes).m_seq = (h.m_seq.setWidth 36).setWidth 64 := by
  show _ ||| _ = _
  rw [flag_ofWord_bytes, join32_byteAt, ← seq_low]
  rfl

/-- **The header comes back from its bytes**, if its number has 36 bits -/
theorem ofBytes_bytes (h : NetPackageHeader) (hs : h.m_seq.toNat < 2 ^ 36) :
    NetPackageHeader.ofBytes h.bytes = h.sent := by
  show NetPackageHeader.mk _ _ _ _ = h.sent
  rw [flag_ofWord_bytes, join32_byteAt, join32_byteAt, join16_byteAt]
  show NetPackageHeader.mk h.m_length _ h.m_cmd _ = _
  have e := seq_join h.m_seq hs
  show NetPackageHeader.mk h.m_length
    ((((h.m_seq >>> 32).setWidth 4).setWidth 64 <<< 32) ||| (h.m_seq.setWidth 32).setWidth 64)
    h.m_cmd h.sent.m_flag = _
  rw [e]
  rfl

/-! ## what `encode` writes and `decode` reads -/

theorem growTo_length (data : ByteArray) (n : Nat) :
    (growTo data n).length = max data.length n := by
  unfold growTo
  split
  · rw [Vec.resize_length]; omega
  · omega

theorem header_encode (o : ByteOrder) (h : NetPackageHeader) (data : ByteArray) (k : Nat)
    (hk : k + 12 < 2147483648) :
    h.encode o data k
      = (h.sent, Vec.memcpy (growTo data (k + 12)) k h.bytes, ((k + 12 : Nat) : Int)) := by
  have hg : (((k : Int) + (NET_PACKAGE_HEADER_LENGTH : Int)) % 4294967296).toNat = k + 12 := by
    show (((k : Int) + 12) % 4294967296).toNat = k + 12
    omega
  have e4 : toInt32 ((k : Int) + 4) = ((k + 4 : Nat) : Int) := by
    rw [toInt32_eq] <;> omega
  have e8 : toInt32 (((k + 4 : Nat) : Int) + 4) = ((k + 8 : Nat) : Int) := by
    rw [toInt32_eq] <;> omega
  have e10 : toInt32 (((k + 8 : Nat) : Int) + 2) = ((k + 10 : Nat) : Int) := by
    rw [toInt32_eq] <;> omega
  have e12 : toInt32 (((k + 10 : Nat) : Int) + 2) = ((k + 12 : Nat) : Int) := by
    rw [toInt32_eq] <;> omega
  have hlen : k + 12 ≤ (growTo data (k + 12)).length := by rw [growTo_length]; omega
  simp only [NetPackageHeader.encode, hg, store32_hton, store16_hton, e4, e8, e10, e12]
  generalize growTo data (k + 12) = d at hlen ⊢
  have m1 : Vec.memcpy (Vec.memcpy d k (be32 h.m_length)) ((k + 4 : Nat) : Int)
      (be32 (h.m_seq.setWidth 32)) = _ :=
    Vec.memcpy_memcpy d k _ _ (by simp only [be32_length]; omega)
  have m2 : Vec.memcpy (Vec.memcpy d k (be32 h.m_length ++ be32 (h.m_seq.setWidth 32)))
      ((k + 8 : Nat) : Int) (be16 h.m_cmd) = _ :=
    Vec.memcpy_memcpy d k _ _ (by simp only [List.length_append, be32_length, be16_length]; omega)
  have m3 : Vec.memcpy (Vec.memcpy d k (be32 h.m_length ++ be32 (h.m_seq.setWidth 32)
      ++ be16 h.m_cmd)) ((k + 10 : Nat) : Int) (be16 h.sent.m_flag.word) = _ :=
    Vec.memcpy_memcpy d k _ _ (by simp only [List.length_append, be32_length, be16_length]; omega)
  rw [m1, m2]
  exact congrArg (fun d' => (h.sent, d', ((k + 12 : Nat) : Int))) m3

theorem header_decode (o : ByteOrder) (wild : Int → BYTE) (data : ByteArray) (k : Nat)
    (hd : k + 12 ≤ data.length) (hk : k + 10 < 2147483648) :
    NetPackageHeader.decode o wild data k
      = (NetPackageHeader.ofBytes ((data.drop k).take 12), toInt32 ((k + 12 : Nat) : Int)) := by
  have e4 : toInt32 ((k : Int) + 4) = (k : Int) + 4 := by rw [toInt32_eq] <;> omega
  have e8 : toInt32 ((k : Int) + 8) = (k : Int) + 8 := by rw [toInt32_eq] <;> omega
  have e10 : toInt32 ((k : Int) + 10) = (k : Int) + 10 := by rw [toInt32_eq] <;> omega
  have ht : (data.drop k).take 12 = Vec.peeks wild data k 12 :=
    (Vec.peeks_inside wild data k 12 hd).symm
  rw [ht]
  simp only [NetPackageHeader.decode, read32, read16, ntoh_load32, ntoh_load16, Vec.peeks,
    NetPackageHeader.ofBytes, Int.add_assoc, Int.reduceAdd, e4, e8, e10]
  rfl

/-! ## the header format as a bijection -/

/-- every flag word is the one of its bit-fields -/
theorem flag_word_ofWord (w : BitVec 16) : (NetPackageHeaderFlag.ofWord w).word = w := by
  apply BitVec.eq_of_getLsbD_eq
  intro i hi
  simp only [NetPackageHeaderFlag.word, NetPackageHeaderFlag.ofWord]
  interval_cases i <;> simp

/-- the two parts of a sequence number that was put together -/
theorem seq_split (hi : BitVec 4) (lo : BitVec 32) :
    (((hi.setWidth 64 <<< 32) ||| lo.setWidth 64).setWidth 32 : BitVec 32) = lo ∧
      (((hi.setWidth 64 <<< 32 ||| lo.setWidth 64) >>> 32).setWidth 4 : BitVec 4) = hi := by
  refine ⟨?_, ?_⟩
  · apply BitVec.eq_of_getLsbD_eq
    intro i h
    simp [h]
  · apply BitVec.eq_of_getLsbD_eq
    intro i h
    simp [h, show 32 + i < 64 by omega]

/-- **Twelve bytes are the bytes of the header in them.** -/
theorem bytes_ofBytes {b : ByteArray} (hb : b.length = 12) :
    (NetPackageHeader.ofBytes b).bytes = b := by
  match b, hb with
  | [b0, b1, b2, b3, b4, b5, b6, b7, b8, b9, b10, b11], _ =>
    obtain ⟨c0, c1, c2, c3⟩ := byteAt_join32 b0 b1 b2 b3
    obtain ⟨d0, d1, d2, d3⟩ := byteAt_join32 b4 b5 b6 b7
    obtain ⟨e0, e1⟩ := byteAt_join16 b8 b9
    obtain ⟨f0, f1⟩ := byteAt_join16 b10 b11
    obtain ⟨s1, s2⟩ := seq_split (NetPackageHeaderFlag.ofWord (join16 b10 b11)).seq
      (join32 b4 b5 b6 b7)
    have hflag : (NetPackageHeader.ofBytes
        [b0, b1, b2, b3, b4, b5, b6, b7, b8, b9, b10, b11]).sent.m_flag
          = .ofWord (join16 b10 b11) := by
      simp only [NetPackageHeader.sent, NetPackageHeader.ofBytes, s2]
    rw [NetPackageHeader.bytes, hflag, flag_word_ofWord]
    simp only [NetPackageHeader.ofBytes, s1, be32, be16, c0, c1, c2, c3, d0, d1, d2, d3, e0, e1,
      f0, f1]
    rfl

/-- a header as it is read back: every field, and 36 bits of the number -/
structure NetPackageHeader.Restored (h d : NetPackageHeader) : Prop where
  m_length : d.m_length = h.m_length
  m_cmd : d.m_cmd = h.m_cmd
  reserved : d.m_flag.reserved = h.m_flag.reserved
  version : d.m_flag.version = h.m_flag.version
  encrypt : d.m_flag.encrypt = h.m_flag.encrypt
  compress : d.m_flag.compress = h.m_flag.compress
  seq : d.m_flag.seq = (h.m_seq >>> 32).setWidth 4
  m_seq : d.m_seq.toNat = h.m_seq.toNat % 2 ^ 36
  exact_iff : d.m_seq = h.m_seq ↔ h.m_seq.toNat < 2 ^ 36

theorem restored_ofBytes (h : NetPackageHeader) : h.Restored (.ofBytes h.bytes) := by
  have hflag : (NetPackageHeader.ofBytes h.bytes).m_flag = h.sent.m_flag :=
    flag_ofWord_bytes h.sent.m_flag
  have hseq : (NetPackageHeader.ofBytes h.bytes).m_seq.toNat = h.m_seq.toNat % 2 ^ 36 := by
    rw [ofBytes_bytes_seq, BitVec.toNat_setWidth, BitVec.toNat_setWidth]
    have := h.m_seq.isLt
    omega
  refine ⟨join32_byteAt h.m_length, join16_byteAt h.m_cmd, ?_, ?_, ?_, ?_, ?_, hseq, ?_⟩
  · rw [hflag]; rfl
  · rw [hflag]; rfl
  · rw [hflag]; rfl
  · rw [hflag]; rfl
  · rw [hflag]; rfl
  · refine ⟨fun e => ?_, fun hs => ?_⟩
    · rw [e] at hseq
      omega
    · apply BitVec.eq_of_toNat_eq
      rw [hseq, Nat.mod_eq_of_lt hs]

theorem growTo_getElem? (data : ByteArray) (n : Nat) {i : Nat} (hi : i < data.length) :
    (growTo data n)[i]? = data[i]? := by
  unfold growTo
  split
  · exact Vec.resize_getElem? data n 0 (by omega) hi
  · rfl

/-- **Encoding writes the twelve bytes of the header and changes nothing else.** -/
theorem header_encode_frame (o : ByteOrder) (h : NetPackageHeader) (data : ByteArray) (k : Nat)
    (hk : k + 12 < 2147483648) :
    (h.encode o data k).2.1.length = max data.length (k + 12) ∧
      ((h.encode o data k).2.1.drop k).take 12 = h.bytes ∧
      ∀ i, i < data.length → i < k ∨ k + 12 ≤ i → (h.encode o data k).2.1[i]? = data[i]? := by
  have hl := growTo_length data (k + 12)
  have hbl := h.bytes_length
  have hin : k + h.bytes.length ≤ (growTo data (k + 12)).length := by omega
  rw [header_encode o h data k hk]
  refine ⟨?_, ?_, fun i hi hout => ?_⟩
  · show (Vec.memcpy _ (k : Int) h.bytes).length = _
    rw [Vec.memcpy_length, hl]
  · have hr := Vec.memcpy_read _ k h.bytes hin
    rwa [hbl] at hr
  · show (Vec.memcpy _ (k : Int) h.bytes)[i]? = _
    rw [Vec.memcpy_frame _ k h.bytes hin i (by rwa [hbl]), growTo_getElem? data _ hi]

theorem header_decode_at (o : ByteOrder) (wild : Int → BYTE) (data : ByteArray) (k : Nat)
    (hd : k + 12 ≤ data.length) (hk : k + 12 < 2147483648) :
    NetPackageHeader.decode o wild data k
      = (NetPackageHeader.ofBytes ((data.drop k).take 12), ((k + 12 : Nat) : Int)) := by
  rw [header_decode o wild data k hd (by omega), toInt32_eq (by omega) (by omega)]

/-- what is encoded at a position comes back from there, and what is decoded from twelve bytes is
encoded to the same twelve bytes -/
structure HeaderCodec (o : ByteOrder) (wild : Int → BYTE) (nPos : Int) : Prop where
  restores : ∀ (h : NetPackageHeader) (data : ByteArray), ∃ h' data',
    h.encode o data nPos = (h', data', nPos + 12) ∧
    data'.length = max data.length (nPos.toNat + 12) ∧
    (∀ i : Nat, i < data.length → (i : Int) < nPos ∨ nPos + 12 ≤ i → data'[i]? = data[i]?) ∧
    ∃ d, NetPackageHeader.decode o wild data' nPos = (d, nPos + 12) ∧ h.Restored d
  reproduces : ∀ data : ByteArray, nPos.toNat + 12 ≤ data.length →
    ∃ d, NetPackageHeader.decode o wild data nPos = (d, nPos + 12) ∧
      ∀ (data' : ByteArray) (nPos' : Int), 0 ≤ nPos' → nPos' + 12 ≤ INT32_MAX →
        ((d.encode o data' nPos').2.1.drop nPos'.toNat).take 12
          = (data.drop nPos.toNat).take 12

/-- **The header format is a bijection** at every position that is an `r_int32` up to its end. -/
theorem header_codec (o : ByteOrder) (wild : Int → BYTE) (nPos : Int) (h0 : 0 ≤ nPos)
    (h1 : nPos + 12 ≤ INT32_MAX) : HeaderCodec o wild nPos := by
  obtain ⟨k, rfl⟩ := Int.eq_ofNat_of_zero_le h0
  have hk : k + 12 < 2147483648 := by
    unfold INT32_MAX at h1
    omega
  refine ⟨fun h data => ?_, fun data hd => ?_⟩
  · obtain ⟨hl, hr, hf⟩ := header_encode_frame o h data k hk
    have he := header_encode o h data k hk
    generalize Vec.memcpy (growTo data (k + 12)) k h.bytes = data' at he
    rw [he] at hl hr hf
    dsimp only at hl hr
    refine ⟨_, data', he, hl, fun i hi hout => hf i hi (by omega), _, ?_, restored_ofBytes h⟩
    rw [header_decode_at o wild data' k (by omega) hk, hr]
    rfl
  · refine ⟨_, header_decode_at o wild data k hd hk, fun data' nPos' h0' h1' => ?_⟩
    obtain ⟨k', rfl⟩ := Int.eq_ofNat_of_zero_le h0'
    have hk' : k' + 12 < 2147483648 := by
      unfold INT32_MAX at h1'
      omega
    have hb : ((data.drop k).take 12).length = 12 := by
      rw [List.length_take, List.length_drop]
      omega
    obtain ⟨_, hr, _⟩ := header_encode_frame o (.ofBytes ((data.drop k).take 12)) data' k' hk'
    rw [bytes_ofBytes hb] at hr
    exact hr

theorem header_codec_three : HeaderCodec .little (fun _ => 0) 3 :=
  header_codec .little (fun _ => 0) 3 (by decide) (by decide)

/-! ## packages -/

/-- the length word at the front -/
def lengthWord : ByteArray → Nat
  | b0 :: b1 :: b2 :: b3 :: _ => (join32 b0 b1 b2 b3).toNat
  | _ => 0

theorem lengthWord_append (xs ys : ByteArray) (h : 4 ≤ xs.length) :
    lengthWord (xs ++ ys) = lengthWord xs := by
  match xs, h with
  | b0 :: b1 :: b2 :: b3 :: rest, _ => rfl

/-- the header with the length that `NetPackage::encode` stores in it -/
def NetPackage.sized (p : NetPackage) : NetPackageHeader :=
  { p.m_pkgHeader with
    m_length := BitVec.ofNat 32 (NET_PACKAGE_HEADER_LENGTH + p.m_pkgContent.length) }

/-- the package as `NetPackage::encode` leaves the object behind -/
def NetPackage.sent (p : NetPackage) : NetPackage := ⟨p.sized.sent, p.m_pkgContent⟩

/-- the bytes of a package -/
def NetPackage.bytes (p : NetPackage) : ByteArray := p.sized.bytes ++ p.m_pkgContent

/-- a package from its bytes -/
def NetPackage.ofBytes (f : ByteArray) : NetPackage := ⟨.ofBytes (f.take 12), f.drop 12⟩

theorem package_bytes_length (p : NetPackage) : p.bytes.length = 12 + p.m_pkgContent.length := by
  rw [NetPackage.bytes, List.length_append, NetPackageHeader.bytes_length]

theorem package_ofBytes_bytes (p : NetPackage) (hs : p.m_pkgHeader.m_seq.toNat < 2 ^ 36) :
    NetPackage.ofBytes p.bytes = p.sent := by
  have ht : p.bytes.take 12 = p.sized.bytes := List.take_left' (by simp)
  have hd : p.bytes.drop 12 = p.m_pkgContent := List.drop_left' (by simp)
  rw [NetPackage.ofBytes, ht, hd, ofBytes_bytes p.sized hs]
  rfl

theorem growTo_growTo (data : ByteArray) (m n : Nat) (h : n ≤ m) :
    growTo (growTo data m) n = growTo data m := by
  have hl := growTo_length data m
  rw [growTo, if_neg (by omega)]

/-- what `NetPackage::encode` writes: the bytes of the package, over a buffer grown to hold them -/
theorem package_encode (o : ByteOrder) (p : NetPackage) (data : ByteArray) (k : Nat)
    (hk : k + p.bytes.length < 2147483648) :
    p.encode o data k = (p.sent, Vec.memcpy (growTo data (k + p.bytes.length)) k p.bytes,
      ((k + p.bytes.length : Nat) : Int)) := by
  have hb := package_bytes_length p
  have hlen : (BitVec.ofNat 32 (NET_PACKAGE_HEADER_LENGTH + p.m_pkgContent.length)).toNat
      = p.bytes.length := by
    rw [BitVec.toNat_ofNat, NET_PACKAGE_HEADER_LENGTH, Nat.mod_eq_of_lt (by omega), hb]
  have hg : (((p.bytes.length : Int) + (k : Int)) % 4294967296).toNat = k + p.bytes.length := by
    omega
  have he := header_encode o p.sized (growTo data (k + p.bytes.length)) k (by omega)
  rw [growTo_growTo _ _ _ (by omega)] at he
  have hpos : toInt32 (((k + 12 : Nat) : Int) + (p.m_pkgContent.length : Int))
      = ((k + p.bytes.length : Nat) : Int) := by
    rw [toInt32_eq] <;> omega
  have hin : k + p.bytes.length ≤ (growTo data (k + p.bytes.length)).length := by
    rw [growTo_length]; omega
  have hsized : { p.m_pkgHeader with
      m_length := BitVec.ofNat 32 (NET_PACKAGE_HEADER_LENGTH + p.m_pkgContent.length) }
        = p.sized := rfl
  simp only [NetPackage.encode, hsized, hlen, hg, he, hpos]
  generalize growTo data (k + p.bytes.length) = d at hin ⊢
  have hm : (if p.m_pkgContent.length > 0 then
      Vec.memcpy (Vec.memcpy d k p.sized.bytes) ((k + 12 : Nat) : Int) p.m_pkgContent
      else Vec.memcpy d k p.sized.bytes) = Vec.memcpy d k p.bytes := by
    by_cases hc : p.m_pkgContent.length > 0
    · rw [if_pos hc]
      exact Vec.memcpy_memcpy d k p.sized.bytes p.m_pkgContent
        (by rw [NetPackageHeader.bytes_length]; omega)
    · have hnil : p.m_pkgContent = [] := List.eq_nil_of_length_eq_zero (by omega)
      rw [if_neg hc, NetPackage.bytes, hnil, List.append_nil]
  rw [hm]
  rfl

theorem package_encodeArr (o : ByteOrder) (p : NetPackage) (hp : p.bytes.length < 2147483648) :
    p.encodeArr o = p.bytes := by
  have h := package_encode o p [] 0 (by omega)
  have hl : (growTo [] (0 + p.bytes.length)).length = p.bytes.length := by
    rw [growTo_length]; simp
  rw [NetPackage.encodeArr, show (0 : Int) = ((0 : Nat) : Int) from rfl, h]
  show Vec.memcpy _ ((0 : Nat) : Int) _ = _
  rw [Vec.memcpy_inside _ 0 _ (by omega), List.take_zero, List.nil_append,
    List.drop_of_length_le (by omega), List.append_nil]

end Netwb
