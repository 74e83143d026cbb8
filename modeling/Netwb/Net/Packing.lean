import Netwb.Net.Package

/-!
# Many packages in one buffer

`NetPackage::encode(data, nPos)` called for one package after the other, each at the position that
the call before returned (`encodeAll`), and `NetPackage::decode(data, pkgLength, nPos)` in the same
way (`decodeAll`).  A call leaves the object, the buffer and the position behind the package.

* `Frames`         no call changes a byte before its start or shrinks the buffer;
* `encodeAll_at`   so the packages stand one behind the other in the buffer at the end;
* `packing`        and are read from there: the objects as `encode` has left them, at the same
                   positions.
-/

namespace Netwb
open Wire

/-- `NetPackage::decode(data, pkgLength, nPos)`: the object and the position behind the package -/
def NetPackage.decode (o : ByteOrder) (wild : Int → BYTE) (data : ByteArray) (pkgLength nPos : Int) :
    NetPackage × Int :=
  let (m_pkgHeader, nPos) := NetPackageHeader.decode o wild data nPos
  let size := ((pkgLength - NET_PACKAGE_HEADER_LENGTH) % 4294967296).toNat
  let m_pkgContent := Vec.peeks wild data nPos size
  let nPos := toInt32 (nPos + m_pkgContent.length)
  (⟨m_pkgHeader, m_pkgContent⟩, nPos)

/-- what a call of `encode` leaves -/
abbrev Encoded := NetPackage × ByteArray × Int

section
variable (o : ByteOrder) (wild : Int → BYTE)

def encodeAll : List NetPackage → ByteArray → Int → List Encoded
  | [], _, _ => []
  | p :: ps, data, nPos =>
    let r := p.encode o data nPos
    r :: encodeAll ps r.2.1 r.2.2

/-- told the length of each package -/
def decodeAll (data : ByteArray) : List Int → Int → List (NetPackage × Int)
  | [], _ => []
  | pkgLength :: lens, nPos =>
    let r := NetPackage.decode o wild data pkgLength nPos
    r :: decodeAll data lens r.2

/-- the buffer behind the calls -/
def packed : ByteArray → List Encoded → ByteArray
  | data, [] => data
  | _, r :: rs => packed r.2.1 rs

/-- no call changes a byte before its start, or shrinks the buffer -/
def Frames : ByteArray → Int → List Encoded → Prop
  | _, _, [] => True
  | data, nPos, r :: rs => data.length ≤ r.2.1.length ∧
    (∀ j : Nat, j < data.length → (j : Int) < nPos → r.2.1[j]? = data[j]?) ∧ Frames r.2.1 r.2.2 rs

/-- an object as `encode` leaves it: the same package, with the length set and the high bits of the
number in their field -/
structure NetPackage.Set (p q : NetPackage) : Prop where
  m_length : q.m_pkgHeader.m_length.toNat = NET_PACKAGE_HEADER_LENGTH + p.m_pkgContent.length
  m_seq : q.m_pkgHeader.m_seq = p.m_pkgHeader.m_seq
  m_cmd : q.m_pkgHeader.m_cmd = p.m_pkgHeader.m_cmd
  m_flag : q.m_pkgHeader.m_flag
    = { p.m_pkgHeader.m_flag with seq := (p.m_pkgHeader.m_seq >>> 32).setWidth 4 }
  m_pkgContent : q.m_pkgContent = p.m_pkgContent

/-- the bytes of the packages, one behind the other -/
def packedBytes (pkgs : List NetPackage) : ByteArray := pkgs.flatMap NetPackage.bytes

theorem packedBytes_cons (p : NetPackage) (ps : List NetPackage) :
    packedBytes (p :: ps) = p.bytes ++ packedBytes ps := List.flatMap_cons

theorem bytes_length_le {p : NetPackage} {ps : List NetPackage} (hp : p ∈ ps) :
    p.bytes.length ≤ (packedBytes ps).length := by
  obtain ⟨front, back, rfl⟩ := List.append_of_mem hp
  rw [packedBytes, List.flatMap_append, List.flatMap_cons, List.length_append, List.length_append]
  omega

/-! ## one package -/

theorem package_sent_set (p : NetPackage) (hp : p.bytes.length < 2147483648) : p.Set p.sent := by
  have hl := package_bytes_length p
  refine ⟨?_, rfl, rfl, rfl, rfl⟩
  show (BitVec.ofNat 32 _).toNat = _
  rw [BitVec.toNat_ofNat, NET_PACKAGE_HEADER_LENGTH]
  omega

/-- an object that was encoded is encoded to the same bytes again -/
theorem package_encode_sent (p : NetPackage) (data : ByteArray) (nPos : Int) :
    p.sent.encode o data nPos = p.encode o data nPos := rfl

section
variable {o wild}

/-- what a call of `encode` does to the buffer -/
theorem package_encode_frame (p : NetPackage) (data : ByteArray) (k : Nat)
    (hk : k + p.bytes.length < 2147483648) :
    data.length ≤ (p.encode o data k).2.1.length ∧
      k + p.bytes.length ≤ (p.encode o data k).2.1.length ∧
      (∀ j, j < data.length → j < k → (p.encode o data k).2.1[j]? = data[j]?) ∧
      ((p.encode o data k).2.1.drop k).take p.bytes.length = p.bytes := by
  have hl := growTo_length data (k + p.bytes.length)
  rw [package_encode o p data k hk]
  refine ⟨?_, ?_, fun j hj hlt => ?_, Vec.memcpy_read _ k _ (by omega)⟩
  · show data.length ≤ (Vec.memcpy _ (k : Int) p.bytes).length
    rw [Vec.memcpy_length]
    omega
  · show _ ≤ (Vec.memcpy _ (k : Int) p.bytes).length
    rw [Vec.memcpy_length]
    omega
  · show (Vec.memcpy _ (k : Int) p.bytes)[j]? = _
    rw [Vec.memcpy_frame _ k _ (by omega) j (.inl hlt), growTo_getElem? data _ hj]

/-- **A package is decoded from its bytes**, if its number has 36 bits -/
theorem package_decode (p : NetPackage) (data : ByteArray) (k : Nat)
    (hk : k + p.bytes.length < 2147483648) (hs : p.m_pkgHeader.m_seq.toNat < 2 ^ 36)
    (hb : (data.drop k).take p.bytes.length = p.bytes) :
    NetPackage.decode o wild data p.sent.m_pkgHeader.m_length.toNat k
      = (p.sent, ((k + p.bytes.length : Nat) : Int)) := by
  have hl := package_bytes_length p
  have hin : k + p.bytes.length ≤ data.length := by
    have h := congrArg List.length hb
    rw [List.length_take, List.length_drop] at h
    omega
  have hm := (package_sent_set p (by omega)).m_length
  have hheader : (data.drop k).take 12 = p.bytes.take 12 := by
    rw [← hb, List.take_take, Nat.min_eq_left (by omega)]
  have hcontent : (data.drop (k + 12)).take p.m_pkgContent.length = p.bytes.drop 12 := by
    rw [← hb, List.drop_take, List.drop_drop, hl, Nat.add_sub_cancel_left]
  have hsize : (((p.sent.m_pkgHeader.m_length.toNat : Int) - (NET_PACKAGE_HEADER_LENGTH : Int))
      % 4294967296).toNat = p.m_pkgContent.length := by
    rw [hm, NET_PACKAGE_HEADER_LENGTH]
    omega
  have hpos : toInt32 (((k + 12 : Nat) : Int) + (p.m_pkgContent.length : Int))
      = ((k + p.bytes.length : Nat) : Int) := by
    rw [toInt32_eq] <;> omega
  rw [NetPackage.decode, header_decode_at o wild data k (by omega) (by omega)]
  dsimp only
  rw [hsize, Vec.peeks_length, hpos, Vec.peeks_inside _ _ _ _ (by omega), hheader, hcontent]
  exact congrArg (·, ((k + p.bytes.length : Nat) : Int)) (package_ofBytes_bytes p hs)

/-! ## one after the other -/

theorem encodeAll_cons (p : NetPackage) (ps : List NetPackage) (data : ByteArray) (k : Nat)
    (hk : k + p.bytes.length < 2147483648) :
    encodeAll o (p :: ps) data k = p.encode o data k ::
      encodeAll o ps (p.encode o data k).2.1 ((k + p.bytes.length : Nat) : Int) := by
  have hpos : (p.encode o data k).2.2 = ((k + p.bytes.length : Nat) : Int) := by
    rw [package_encode o p data k hk]
  rw [encodeAll, hpos]

/-- the packages stand in a buffer from `k` on, and what stood before is kept -/
structure Stand (pkgs : List NetPackage) (data : ByteArray) (k : Nat) (last : ByteArray) : Prop where
  grows : data.length ≤ last.length
  before : ∀ j, j < data.length → j < k → last[j]? = data[j]?
  there : (last.drop k).take (packedBytes pkgs).length = packedBytes pkgs

/-- **The packages stand one behind the other in the buffer at the end**, and no call has touched
what stood before it. -/
theorem encodeAll_at (ps : List NetPackage) : ∀ (data : ByteArray) (k : Nat),
    k + (packedBytes ps).length < 2147483648 →
    Frames data k (encodeAll o ps data k) ∧ Stand ps data k (packed data (encodeAll o ps data k)) := by
  induction ps with
  | nil => exact fun data k _ => ⟨trivial, Nat.le_refl _, fun _ _ _ => rfl, List.take_zero⟩
  | cons p ps ih =>
    intro data k hk
    rw [packedBytes_cons, List.length_append] at hk
    obtain ⟨hg, hin, hkeep, hread⟩ := package_encode_frame (o := o) p data k (by omega)
    obtain ⟨hf, hst⟩ := ih (p.encode o data k).2.1 (k + p.bytes.length) (by omega)
    have hpos : (p.encode o data k).2.2 = ((k + p.bytes.length : Nat) : Int) := by
      rw [package_encode o p data k (by omega)]
    rw [encodeAll_cons p ps data k (by omega)]
    generalize hd : p.encode o data k = r at hg hin hkeep hread hf hst hpos
    obtain ⟨q, d, nPos⟩ := r
    dsimp only at hg hin hkeep hread hf hst hpos
    rw [← hpos] at hf
    rw [packed]
    have hfront : (packed d (encodeAll o ps d ((k + p.bytes.length : Nat) : Int))).take
        (k + p.bytes.length) = d.take (k + p.bytes.length) := by
      apply List.ext_getElem?
      intro j
      by_cases hj : j < k + p.bytes.length
      · rw [List.getElem?_take_of_lt hj, List.getElem?_take_of_lt hj]
        exact hst.before j (by omega) hj
      · rw [List.getElem?_take_eq_none (by omega), List.getElem?_take_eq_none (by omega)]
    refine ⟨⟨hg, fun j hj hlt => hkeep j hj (by omega), ?_⟩, Nat.le_trans hg hst.grows,
      fun j hj hlt => ?_, ?_⟩
    · rw [← hpos]
      exact hf
    · exact (hst.before j (by omega) (by omega)).trans (hkeep j hj hlt)
    · rw [packedBytes_cons, List.length_append, List.take_add, List.drop_drop, hst.there,
        List.take_drop, hfront, ← List.take_drop, hread]

/-- the length words and the objects do not depend on the buffer -/
theorem encodeAll_objects (ps : List NetPackage) : ∀ (data : ByteArray) (k : Nat),
    k + (packedBytes ps).length < 2147483648 →
    (encodeAll o ps data k).map Prod.fst = ps.map NetPackage.sent := by
  induction ps with
  | nil => exact fun _ _ _ => rfl
  | cons p ps ih =>
    intro data k hk
    rw [packedBytes_cons, List.length_append] at hk
    rw [encodeAll_cons p ps data k (by omega), List.map_cons, List.map_cons,
      ih _ _ (by omega), package_encode o p data k (by omega)]

/-- **What stands in a buffer is decoded from it.** -/
theorem decodeAll_at (last : ByteArray) (ps : List NetPackage)
    (hs : ∀ p ∈ ps, p.m_pkgHeader.m_seq.toNat < 2 ^ 36) : ∀ (data : ByteArray) (k : Nat),
    k + (packedBytes ps).length < 2147483648 →
    (last.drop k).take (packedBytes ps).length = packedBytes ps →
    decodeAll o wild last ((encodeAll o ps data k).map fun r => (r.1.m_pkgHeader.m_length.toNat : Int)) k
      = (encodeAll o ps data k).map fun r => (r.1, r.2.2) := by
  induction ps with
  | nil => exact fun _ _ _ _ => rfl
  | cons p ps ih =>
    intro data k hk hb
    rw [packedBytes_cons, List.length_append] at hk hb
    rw [List.take_add, List.drop_drop] at hb
    obtain ⟨hp, hps⟩ := List.append_inj hb (by
      have h := congrArg List.length hb
      rw [List.length_append, List.length_append, List.length_take, List.length_take,
        List.length_drop, List.length_drop] at h
      rw [List.length_take, List.length_drop]
      omega)
    have hd := @package_decode o wild p last k (by omega)
      (hs p (List.mem_cons_self ..)) hp
    have hrest := ih (fun q hq => hs q (List.mem_cons_of_mem _ hq)) (p.encode o data k).2.1
      (k + p.bytes.length) (by omega) hps
    have he := package_encode o p data k (by omega)
    rw [encodeAll_cons p ps data k (by omega), List.map_cons, List.map_cons, decodeAll]
    rw [he] at hrest ⊢
    rw [hd, hrest]

/-- what was encoded is encoded to the same bytes again -/
theorem encodeAll_sent (ps : List NetPackage) : ∀ (data : ByteArray) (nPos : Int),
    encodeAll o (ps.map NetPackage.sent) data nPos = encodeAll o ps data nPos := by
  induction ps with
  | nil => exact fun _ _ => rfl
  | cons p ps ih =>
    intro data nPos
    rw [List.map_cons, encodeAll, encodeAll, package_encode_sent, ih]

end

/-- the packages that were packed are unpacked -/
structure Packs (pkgs : List NetPackage) (data : ByteArray) (k : Nat) : Prop where
  /-- each object is its package, with the length set -/
  objects : List.Forall₂ (fun p (r : Encoded) => p.Set r.1) pkgs (encodeAll o pkgs data k)
  frames : Frames data k (encodeAll o pkgs data k)
  /-- told the lengths, `decode` gives the objects and the positions -/
  decoded : decodeAll o wild (packed data (encodeAll o pkgs data k))
      ((encodeAll o pkgs data k).map fun r => (r.1.m_pkgHeader.m_length.toNat : Int)) k
    = (encodeAll o pkgs data k).map fun r => (r.1, r.2.2)
  /-- and from these the same calls are made again -/
  again : encodeAll o ((encodeAll o pkgs data k).map Prod.fst) data k = encodeAll o pkgs data k

/-- **Many packages in one buffer**: what `encode` puts there one after the other, `decode` takes
out again. -/
theorem packing (pkgs : List NetPackage) (data : ByteArray) (k : Nat)
    (hseq : ∀ p ∈ pkgs, p.m_pkgHeader.m_seq.toNat < 2 ^ 36)
    (hsize : k + (packedBytes pkgs).length < 2147483648) : Packs o wild pkgs data k := by
  obtain ⟨hf, hst⟩ := encodeAll_at (o := o) pkgs data k hsize
  have hobj := encodeAll_objects (o := o) pkgs data k hsize
  refine ⟨?_, hf, decodeAll_at _ pkgs hseq data k hsize hst.there, ?_⟩
  · rw [← List.forall₂_map_right_iff, hobj, List.forall₂_map_right_iff, List.forall₂_same]
    intro p hp
    have hle := bytes_length_le hp
    exact package_sent_set p (by omega)
  · rw [hobj, encodeAll_sent]

/-- an empty package and one of a byte, over a buffer of two bytes -/
theorem packing_two : Packs .little (fun _ => 0)
    [⟨.make 1 5 0 0, []⟩, ⟨.make 2 0x300000006 1 0, [7]⟩] [0xaa, 0xbb] 1 :=
  packing _ _ _ [0xaa, 0xbb] 1 (by decide) (by decide)

end
end Netwb
