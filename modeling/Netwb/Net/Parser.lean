import Netwb.Net.Cipher

/-!
# The package parser

`NetPackageParser` of `net/NetPackageParser.cpp` and the loop of `NetManager::onDataReceived` that
empties it.  Sizes (`size_t`) are natural numbers; `decode` takes its position as an `r_int32`, so
`m_dataIndex` is converted on the way (`toInt32`).

`feedData` may loop for ever when a cipher is set, so it takes a bound on the rounds of its outer
loop and answers `none` when the bound is reached; it also reports the blocks it hands to
`feedPack`.  The inner loop (a buffer that is doubled while the cipher asks for more room) has its
own bound.
-/

namespace Netwb
open Wire

structure EncrytInfo where
  dataBuf : ByteArray
  dataLen : Nat
  dataIndex : Nat
  packSize : Nat
  cipher : Option BaseCipher

structure NetPackageParser where
  m_dataBuf : ByteArray
  m_dataLen : Nat
  m_dataIndex : Nat
  m_encryptInfo : EncrytInfo

def NetPackageParser.reset (p : NetPackageParser) : NetPackageParser :=
  { p with m_dataLen := 0, m_dataIndex := 0 }

/-- the constructor -/
def NetPackageParser.fresh : NetPackageParser where
  m_dataBuf := List.replicate (64 * 1024) 0
  m_dataLen := 0
  m_dataIndex := 0
  m_encryptInfo := ⟨[], 0, 0, 0, none⟩

def NetPackageParser.setCipher (p : NetPackageParser) (cipher : Option BaseCipher) :
    NetPackageParser :=
  { p with m_encryptInfo := { p.m_encryptInfo with cipher := cipher } }

def NetPackageParser.isInitStatus (p : NetPackageParser) : Bool :=
  p.m_dataIndex == 0 && p.m_dataLen == 0

section
variable (o : ByteOrder) (wild : Int → BYTE)

def NetPackageParser.ajust (p : NetPackageParser) : NetPackageParser :=
  let m_dataLen := p.m_dataLen - p.m_dataIndex
  if p.m_dataIndex > 0 then
    { p with
      m_dataLen := m_dataLen
      m_dataBuf :=
        if m_dataLen > 0 then
          Vec.memcpy p.m_dataBuf 0 (Vec.peeks wild p.m_dataBuf p.m_dataIndex m_dataLen)
        else p.m_dataBuf
      m_dataIndex := 0 }
  else { p with m_dataLen := m_dataLen }

def NetPackageParser.feedPack (p : NetPackageParser) (data : ByteArray) (len : Nat) :
    NetPackageParser :=
  if len = 0 then p
  else
    let m_dataBuf :=
      if p.m_dataBuf.length < p.m_dataLen + len then
        Vec.resize p.m_dataBuf (p.m_dataBuf.length + len) 0
      else p.m_dataBuf
    { p with
      m_dataBuf := Vec.memcpy m_dataBuf p.m_dataLen (Vec.peeks wild data 0 len)
      m_dataLen := p.m_dataLen + len }

/-- `nextPackage`: the parser, the package if one was taken, and `*isReset` -/
def NetPackageParser.nextPackage (p : NetPackageParser) :
    NetPackageParser × Option NetPackage × Bool :=
  if NET_PACKAGE_HEADER_LENGTH ≤ p.m_dataLen - p.m_dataIndex then
    let pkgLength := (hton32 o (read32 o wild p.m_dataBuf p.m_dataIndex)).toNat
    if pkgLength < NET_PACKAGE_HEADER_LENGTH ∨ NET_PACKAGE_INVALID_LENGTH < pkgLength then
      (p.reset, none, true)
    else if pkgLength ≤ p.m_dataLen - p.m_dataIndex then
      let (header, nPos) := NetPackageHeader.decode o wild p.m_dataBuf (toInt32 p.m_dataIndex)
      let content := Vec.peeks wild p.m_dataBuf nPos (pkgLength - NET_PACKAGE_HEADER_LENGTH)
      ({ p with m_dataIndex := p.m_dataIndex + pkgLength }, some ⟨header, content⟩, false)
    else (if p.m_dataIndex > 0 then p.ajust wild else p, none, false)
  else (if p.m_dataIndex > 0 then p.ajust wild else p, none, false)

theorem feedPack_frame (p : NetPackageParser) (data : ByteArray) (len : Nat) :
    (p.feedPack wild data len).m_encryptInfo = p.m_encryptInfo ∧
      (p.feedPack wild data len).m_dataIndex = p.m_dataIndex := by
  unfold NetPackageParser.feedPack
  split <;> exact ⟨rfl, rfl⟩

theorem nextPackage_lt {p p' : NetPackageParser} {pkg : NetPackage} {b : Bool}
    (h : p.nextPackage o wild = (p', some pkg, b)) :
    p'.m_dataLen - p'.m_dataIndex < p.m_dataLen - p.m_dataIndex := by
  unfold NetPackageParser.nextPackage at h
  split at h
  · dsimp only at h
    split at h
    · cases h
    · rename_i hv
      split at h
      · injection h with h1 _
        rw [← h1]
        show p.m_dataLen - (p.m_dataIndex + _) < p.m_dataLen - p.m_dataIndex
        simp only [NET_PACKAGE_HEADER_LENGTH, not_or] at *
        omega
      · cases h
  · cases h

/-- the loop of `NetManager::onDataReceived`: packages are taken and handed to
`onPackageReceived`, whose `k`-th call throws if `throws k`; the parser, the packages handed over
and whether the loop was left by an exception -/
def NetPackageParser.packages (throws : Nat → Bool) (p : NetPackageParser) (k : Nat) :
    NetPackageParser × List NetPackage × Bool :=
  match h : p.nextPackage o wild with
  | (p', none, _) => (p', [], false)
  | (p', some pkg, _) =>
    if throws k then (p', [pkg], true)
    else
      let r := NetPackageParser.packages throws p' (k + 1)
      (r.1, pkg :: r.2.1, r.2.2)
termination_by p.m_dataLen - p.m_dataIndex
decreasing_by exact nextPackage_lt o wild h

/-! ## the cipher path -/

/-- the word that `ntohl(packSize)` gets after four bytes were copied to the front of the zero
`packSize`: on a big-endian host they are the upper half of the eight bytes -/
def packSizeWord (dataBuf : ByteArray) (pos : Int) : BitVec 32 :=
  match o with
  | .little => read32 .little wild dataBuf pos
  | .big => 0

/-- the inner loop: decrypt one frame into `bytes`, doubling it while the cipher asks for room;
the parser and the block handed to `feedPack`, if any -/
def decryptFrame (cipher : BaseCipher) (p : NetPackageParser) :
    Nat → ByteArray → Option (NetPackageParser × List ByteArray)
  | 0, _ => none
  | fuel + 1, bytes =>
    let e := p.m_encryptInfo
    let realLen := (hton32 o (read32 o wild e.dataBuf (e.dataIndex + 4 : Nat))).toNat
    let raw := Vec.peeks wild e.dataBuf (e.dataIndex + 2 * 4 : Nat) e.packSize
    let (ret, out) := cipher.decrypt raw bytes.length
    let bytes := Vec.memcpy bytes 0 out
    match ret with
    | .OK => some (p.feedPack wild bytes realLen, [Vec.peeks wild bytes 0 realLen])
    | .BUFFER_ERROR => decryptFrame cipher p fuel (Vec.resize bytes (bytes.length * 2) 0)
    | .UNKNOWN_ERROR => some (p, [])

/-- the outer loop over the frames received so far -/
def decryptLoop (cipher : BaseCipher) :
    Nat → NetPackageParser → Option (NetPackageParser × List ByteArray)
  | 0, _ => none
  | fuel + 1, p =>
    let e := p.m_encryptInfo
    if e.packSize = 0 ∧ ¬ 4 ≤ e.dataLen - e.dataIndex then some (p, [])
    else
      let packSize :=
        if e.packSize = 0 then
          (hton32 o (packSizeWord o wild e.dataBuf p.m_dataIndex)).toNat
        else e.packSize
      let p := { p with m_encryptInfo := { e with packSize := packSize } }
      if packSize ≤ e.dataLen - e.dataIndex then
        (decryptFrame o wild cipher p (fuel + 1) (List.replicate (packSize * 2) 0)).bind fun r =>
        let e := r.1.m_encryptInfo
        let p := { r.1 with
          m_encryptInfo := { e with dataIndex := e.dataIndex + packSize, packSize := 0 } }
        (decryptLoop cipher fuel p).map fun t => (t.1, r.2 ++ t.2)
      else decryptLoop cipher fuel p

/-- the bytes that are left move to the front of the cipher buffer -/
def EncrytInfo.compact (e : EncrytInfo) : EncrytInfo :=
  if e.dataIndex > 0 then
    let dataLen := e.dataLen - e.dataIndex
    { e with
      dataLen := dataLen
      dataBuf :=
        if dataLen > 0 then
          Vec.memcpy e.dataBuf 0 (Vec.peeks wild e.dataBuf e.dataIndex dataLen)
        else e.dataBuf
      dataIndex := 0 }
  else e

/-- `feedData`: the parser and the blocks handed to `feedPack` -/
def NetPackageParser.feedData (fuel : Nat) (p : NetPackageParser) (data : ByteArray) (len : Nat) :
    Option (NetPackageParser × List ByteArray) :=
  match p.m_encryptInfo.cipher with
  | none => some (p.feedPack wild data len, [Vec.peeks wild data 0 len])
  | some cipher =>
    let e := p.m_encryptInfo
    let dataLen := e.dataLen + len
    let dataBuf := if e.dataBuf.length < dataLen then Vec.resize e.dataBuf dataLen 0 else e.dataBuf
    let e := { e with
      dataLen := dataLen
      dataBuf := Vec.memcpy dataBuf e.dataIndex (Vec.peeks wild data 0 len) }
    (decryptLoop o wild cipher fuel { p with m_encryptInfo := e }).map fun r =>
      ({ r.1 with m_encryptInfo := r.1.m_encryptInfo.compact wild }, r.2)

/-! ## receiving -/

/-- `NetManager::onDataReceived(data, len)` -/
def onDataReceived (fuel : Nat) (throws : Nat → Bool) (p : NetPackageParser) (data : ByteArray)
    (len : Int) : Option (NetPackageParser × List NetPackage × Bool) :=
  (p.feedData o wild fuel data (toSize len)).map fun r => r.1.packages o wild throws 0

/-- a piece of the stream as `onDataReceived` can be given it: its length is an `r_int32` -/
structure Chunk where
  bytes : ByteArray
  fits : (bytes.length : Int) ≤ INT32_MAX

/-- one call of `onDataReceived` a chunk, with a handler that returns normally: the packages handed
over by each call, and the parser -/
def receive (fuel : Nat) : NetPackageParser → List Chunk →
    Option (List (List NetPackage) × NetPackageParser)
  | p, [] => some ([], p)
  | p, c :: cs =>
    (onDataReceived o wild fuel (fun _ => false) p c.bytes c.bytes.length).bind fun r =>
    (receive fuel r.1 cs).map fun t => (r.2.1 :: t.1, t.2)

end

end Netwb
