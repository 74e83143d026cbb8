import Netwb.Net.RoundTrip
import Netwb.Sample.Rpc

/-!
# The decode stages of the remote calls

What `BaseServer::onPackageReceived` and `BaseClient::onPackageReceived` do with the content of a
package before they look at its command.  Both choose by the compression flag of the header; the
client has no branch for a content that is not compressed.  `request` and `sendResp` always use
`zlibCompress`, and put the flag they were given into the header when it succeeds.

LZMA is a parameter (`Lzma`), and so is the allocator: `LzmaDecomp` takes the size of its result
from the content, and `resize` throws when the memory is not there.

* `decode_zlib`              a zlib flag: both get what the content unpacks to;
* `decodes_iff`              when one payload comes through;
* `rpc_transparent_iff`      for which flags and outcomes of `compress` the payload comes through.
-/

namespace Netwb
open Wire Machine

def COMPRESS_ZLIB : BitVec 3 := 1
def COMPRESS_DOUBLE_ZLIB : BitVec 3 := 2
def COMPRESS_LZMA : BitVec 3 := 3
def COMPRESS_DOUBLE_LZMA : BitVec 3 := 4

/-! ## LZMA -/

def SZ_OK : Int := 0
def LzmaLen : Nat := 5
def ssLen : Nat := 8

/-- `LzmaUncompress(dest, &destLen, src, &srcLen, props, propsSize)`: for the room that `destLen`
tells of, a source and the properties, the return code and the bytes written -/
structure Lzma where
  uncompress : Nat → ByteArray → ByteArray → Int × ByteArray
  fits : ∀ room source props, (uncompress room source props).2.length ≤ room

/-- a `size_t` of the host -/
def loadSize : ByteOrder → ByteArray → Nat
  | .little, bs => bs.foldr (fun b n => b.toNat + 256 * n) 0
  | .big, bs => bs.foldl (fun n b => 256 * n + b.toNat) 0

/-- what the two programs share with their surroundings: the byte order, what lies around the
content, whether memory of a size is there, and the libraries -/
structure Platform where
  order : ByteOrder
  wild : Int → BYTE
  alloc : Nat → Bool
  inflate : Inflate
  lzma : Lzma

/-- `LzmaDecomp(srcData, srcDatalen, dstData, reservedBytes)`, the pointer overload; `none` when
`resize` throws -/
def LzmaDecomp (w : Platform) (srcData dstData : ByteArray) (reservedBytes : Int) :
    Option (Bool × ByteArray) :=
  let reservedBytes := if reservedBytes < 0 then 0 else reservedBytes.toNat
  let srcDatalen := srcData.length
  let srcLen := toSize (srcDatalen - LzmaLen - ssLen - reservedBytes)
  if srcLen = 0 then some (false, dstData)
  else
    let prop := Vec.peeks w.wild srcData reservedBytes LzmaLen
    let dstLen := loadSize w.order (Vec.peeks w.wild srcData (LzmaLen + reservedBytes) ssLen)
    if w.alloc dstLen then
      let dstData := Vec.resize dstData dstLen 0
      let (ret, written) := w.lzma.uncompress dstLen
        (Vec.peeks w.wild srcData (LzmaLen + ssLen + reservedBytes) srcLen) prop
      let dstData := Vec.memcpy dstData 0 written
      if ret = SZ_OK then some (true, Vec.resize dstData written.length 0)
      else
        let dstData := Vec.memcpy dstData 0 (Vec.peeks w.wild srcData reservedBytes srcDatalen)
        some (false, Vec.resize dstData (toSize (srcDatalen - reservedBytes)) 0)
    else none

/-! ## the decode stages -/

/-- what becomes of a content: `tmpData`, or nothing because the function returns or throws -/
inductive Decoded where
  | data (tmpData : ByteArray)
  | dropped
  | threw
deriving DecidableEq

/-- the branches that the two functions share; `uncompressed` is what is done with a content under
any other flag.  With `tmpData` comes the `m_compressType` of the connection. -/
def decodeContent (uncompressed : ByteArray → ByteArray) (w : Platform) (fuel : Nat)
    (m_compressType : BitVec 8) (header : NetPackageHeader) (content : ByteArray) :
    Option (BitVec 8 × Decoded) :=
  let compress := header.m_flag.compress
  if content.length = 0 then some (m_compressType, .dropped)
  else if compress = COMPRESS_ZLIB ∨ compress = COMPRESS_DOUBLE_ZLIB then
    let m_compressType := if compress = COMPRESS_DOUBLE_ZLIB then COMPRESS_DOUBLE_ZLIB.setWidth 8
      else m_compressType
    (zlibDecompressPtr w.inflate fuel content [] 0).map fun f =>
      (m_compressType, if f.dstData = [] then .dropped else .data f.dstData)
  else if compress = COMPRESS_LZMA ∨ compress = COMPRESS_DOUBLE_LZMA then
    let m_compressType := if compress = COMPRESS_DOUBLE_LZMA then COMPRESS_DOUBLE_LZMA.setWidth 8
      else m_compressType
    some (m_compressType, match LzmaDecomp w content [] 0 with
      | some (_, tmpData) => if tmpData = [] then .dropped else .data tmpData
      | none => .threw)
  else some (m_compressType, .data (uncompressed content))

/-- `BaseServer::onPackageReceived` up to the `switch`: an uncompressed content is copied into a
vector that is one byte larger -/
def BaseServer.decode : Platform → Nat → BitVec 8 → NetPackageHeader → ByteArray →
    Option (BitVec 8 × Decoded) :=
  decodeContent fun content => Vec.memcpy (Vec.resize [] (content.length + 1) 0) 0 content

/-- `BaseClient::onPackageReceived` up to the `switch`: `tmpData` stays empty -/
def BaseClient.decode : Platform → Nat → BitVec 8 → NetPackageHeader → ByteArray →
    Option (BitVec 8 × Decoded) :=
  decodeContent fun _ => []

/-! ## both ends -/

/-- the payload, up to one trailing NUL -/
def Decoded.Is (d : Decoded) (x : ByteArray) : Prop := d = .data x ∨ d = .data (x ++ [0])

instance (d : Decoded) (x : ByteArray) : Decidable (d.Is x) := inferInstanceAs (Decidable (_ ∨ _))

/-- the decode stage comes back with the payload -/
def Gets (f : Nat → Option (BitVec 8 × Decoded)) (x : ByteArray) : Prop :=
  ∃ t d, Comes f (t, d) ∧ d.Is x

/-- the bytes of a request, decoded as the package that the server takes them for -/
def serverDecodes (w : Platform) (z : Deflate) (x : ByteArray) (cmd : BitVec 16) (seq : BitVec 64)
    (compress m_compressType : BitVec 8) (fuel : Nat) : Option (BitVec 8 × Decoded) :=
  let pkg := NetPackage.ofBytes (BaseClient.requestBytes w.order z x cmd seq compress)
  BaseServer.decode w fuel m_compressType pkg.m_pkgHeader pkg.m_pkgContent

/-- the bytes of a response, decoded as the package that the client takes them for -/
def clientDecodes (w : Platform) (z : Deflate) (x : ByteArray) (cmd : BitVec 16) (seq : BitVec 64)
    (compress m_compressType : BitVec 8) (fuel : Nat) : Option (BitVec 8 × Decoded) :=
  let pkg := NetPackage.ofBytes (BaseServer.sendRespBytes w.order z x cmd seq compress)
  BaseClient.decode w fuel m_compressType pkg.m_pkgHeader pkg.m_pkgContent

/-- the two, with what is received -/
theorem serverDecodes_content (w : Platform) (z : Deflate) (x : ByteArray) (cmd : BitVec 16)
    (seq : BitVec 64) (compress t : BitVec 8) :
    serverDecodes w z x cmd seq compress t = fun fuel => decodeContent
      (fun content => Vec.memcpy (Vec.resize [] (content.length + 1) 0) 0 content) w fuel t
      (NetPackage.ofBytes (rpcBytes w.order z x cmd seq compress)).m_pkgHeader
      (NetPackage.ofBytes (rpcBytes w.order z x cmd seq compress)).m_pkgContent := by
  funext fuel
  rw [serverDecodes, BaseServer.decode, BaseClient.requestBytes]

theorem clientDecodes_content (w : Platform) (z : Deflate) (x : ByteArray) (cmd : BitVec 16)
    (seq : BitVec 64) (compress t : BitVec 8) :
    clientDecodes w z x cmd seq compress t = fun fuel => decodeContent (fun _ => []) w fuel t
      (NetPackage.ofBytes (rpcBytes w.order z x cmd seq compress)).m_pkgHeader
      (NetPackage.ofBytes (rpcBytes w.order z x cmd seq compress)).m_pkgContent := by
  funext fuel
  rw [clientDecodes, BaseClient.decode, BaseServer.sendRespBytes]

/-- every payload comes through that is requested with this argument, when `compress` succeeds or
not as told -/
def RequestTransparent (compress : BitVec 8) (ok : Bool) : Prop :=
  ∀ (w : Platform) (z : Deflate), Undoes w.inflate z → ∀ x, x ≠ [] → z.succeeds x = ok →
    ∀ cmd seq m_compressType, Gets (serverDecodes w z x cmd seq compress m_compressType) x

/-- the same for the responses -/
def ResponseTransparent (compress : BitVec 8) (ok : Bool) : Prop :=
  ∀ (w : Platform) (z : Deflate), Undoes w.inflate z → ∀ x, x ≠ [] → z.succeeds x = ok →
    ∀ cmd seq m_compressType, Gets (clientDecodes w z x cmd seq compress m_compressType) x

/-- the argument is `COMPRESS_ZLIB` or `COMPRESS_DOUBLE_ZLIB` -/
def AsksZlib (compress : BitVec 8) : Prop :=
  compress.setWidth 3 = COMPRESS_ZLIB ∨ compress.setWidth 3 = COMPRESS_DOUBLE_ZLIB

instance (compress : BitVec 8) : Decidable (AsksZlib compress) :=
  inferInstanceAs (Decidable (_ ∨ _))

/-! ## what arrives -/

section
variable (o : ByteOrder) (z : Deflate) (x : ByteArray) (cmd : BitVec 16) (seq : BitVec 64)
  (compress : BitVec 8)

/-- the flag that is sent -/
def sentFlag : BitVec 3 := if z.succeeds x then compress.setWidth 3 else COMPRESS_NONE

/-- the content is what is stored for the payload, and the flag is the one that was sent -/
theorem rpc_arrives (hx : x ≠ []) :
    (NetPackage.ofBytes (rpcBytes o z x cmd seq compress)).m_pkgContent = z.stored x ∧
      (NetPackage.ofBytes (rpcBytes o z x cmd seq compress)).m_pkgHeader.m_flag.compress
        = sentFlag z x compress := by
  rw [rpcBytes_package o z x cmd seq compress hx]
  generalize hp : NetPackage.mk (rpcHeader z x cmd seq compress) (z.stored x) = p
  have ht : p.bytes.take 12 = p.sized.bytes := List.take_left' (by simp)
  have hd : p.bytes.drop 12 = p.m_pkgContent := List.drop_left' (by simp)
  refine ⟨?_, ?_⟩
  · show p.bytes.drop 12 = _
    rw [hd, ← hp]
  · show (NetPackageHeader.ofBytes (p.bytes.take 12)).m_flag.compress = _
    rw [ht, (restored_ofBytes p.sized).compress, ← hp]
    show (rpcHeader z x cmd seq compress).m_flag.compress = _
    unfold rpcHeader sentFlag
    cases z.succeeds x <;> rfl

theorem stored_ne_nil {i : Inflate} {z : Deflate} (hu : Undoes i z) {x : ByteArray} (hx : x ≠ []) :
    z.stored x ≠ [] := by
  unfold Deflate.stored
  cases hs : z.succeeds x with
  | true =>
    rw [if_pos rfl]
    exact compressed_ne_nil hu (show z.succeedsIn (2 * x.length + 16) x = true from hs) []
  | false => exact hx

end

/-! ## the branches -/

section
variable (raw : ByteArray → ByteArray) (w : Platform) (t : BitVec 8) (h : NetPackageHeader)
  {content : ByteArray}

/-- **Under a zlib flag both ends get what the content unpacks to.** -/
theorem decode_zlib (hc : content ≠ []) (hout : w.inflate.unpacked content ≠ [])
    (hf : h.m_flag.compress = COMPRESS_ZLIB ∨ h.m_flag.compress = COMPRESS_DOUBLE_ZLIB) :
    ∃ t', Comes (fun fuel => decodeContent raw w fuel t h content)
      (t', .data (w.inflate.unpacked content)) := by
  have hn : content.length ≠ 0 := fun e => hc (List.eq_nil_of_length_eq_zero e)
  obtain ⟨f, hcomes, hd, _⟩ := unpackReserved_spec w.inflate [] content [] hc
  rw [List.nil_append] at hcomes hd
  refine ⟨if h.m_flag.compress = COMPRESS_DOUBLE_ZLIB then COMPRESS_DOUBLE_ZLIB.setWidth 8
    else t, ?_⟩
  have hmap := hcomes.map fun f : Filled =>
    ((if h.m_flag.compress = COMPRESS_DOUBLE_ZLIB then COMPRESS_DOUBLE_ZLIB.setWidth 8 else t),
      if f.dstData = [] then Decoded.dropped else .data f.dstData)
  rw [hd, if_neg hout] at hmap
  refine Eq.mp (congrArg (Comes · _) ?_) hmap
  funext fuel
  rw [decodeContent]
  dsimp only
  rw [if_neg hn, if_pos hf]
  rfl

theorem decode_lzma (hc : content ≠ [])
    (hf : h.m_flag.compress = COMPRESS_LZMA ∨ h.m_flag.compress = COMPRESS_DOUBLE_LZMA) :
    ∃ t', Comes (fun fuel => decodeContent raw w fuel t h content)
      (t', match LzmaDecomp w content [] 0 with
        | some (_, tmpData) => if tmpData = [] then .dropped else .data tmpData
        | none => .threw) := by
  have hn : content.length ≠ 0 := fun e => hc (List.eq_nil_of_length_eq_zero e)
  refine ⟨if h.m_flag.compress = COMPRESS_DOUBLE_LZMA then COMPRESS_DOUBLE_LZMA.setWidth 8
    else t, ?_⟩
  have hz : ¬ (h.m_flag.compress = COMPRESS_ZLIB ∨ h.m_flag.compress = COMPRESS_DOUBLE_ZLIB) := by
    rcases hf with e | e
    · rw [e]
      decide
    · rw [e]
      decide
  refine Eq.mp (congrArg (Comes · _) ?_) (comes_now _)
  funext fuel
  rw [decodeContent]
  dsimp only
  rw [if_neg hn, if_neg hz, if_pos hf]

theorem decode_other (hc : content ≠ [])
    (hz : ¬ (h.m_flag.compress = COMPRESS_ZLIB ∨ h.m_flag.compress = COMPRESS_DOUBLE_ZLIB))
    (hl : ¬ (h.m_flag.compress = COMPRESS_LZMA ∨ h.m_flag.compress = COMPRESS_DOUBLE_LZMA)) :
    Comes (fun fuel => decodeContent raw w fuel t h content) (t, .data (raw content)) := by
  have hn : content.length ≠ 0 := fun e => hc (List.eq_nil_of_length_eq_zero e)
  refine Eq.mp (congrArg (Comes · _) ?_) (comes_now _)
  funext fuel
  rw [decodeContent]
  dsimp only
  rw [if_neg hn, if_neg hz, if_neg hl]

end

/-- a decode stage that has come back with something comes back with it -/
theorem decode_settles {raw : ByteArray → ByteArray} {w : Platform} {fuel : Nat} {t : BitVec 8}
    {header : NetPackageHeader} {content : ByteArray} {r : BitVec 8 × Decoded}
    (h : decodeContent raw w fuel t header content = some r) :
    Comes (fun fuel => decodeContent raw w fuel t header content) r := by
  refine ⟨fuel, fun n hn => ?_⟩
  show decodeContent raw w n t header content = some r
  rw [decodeContent] at h ⊢
  dsimp only at h ⊢
  split at h
  · rename_i hc
    rw [if_pos hc]
    exact h
  · rename_i hc
    rw [if_neg hc]
    split at h
    · rename_i hz
      rw [if_pos hz]
      obtain ⟨f, hf, rfl⟩ := Option.map_eq_some_iff.mp h
      have hzero : (0 : Int) ≥ 0 := Int.le_refl 0
      rw [zlibDecompressPtr, if_pos hzero, zlibDecompress2Ptr, unpackReserved, if_neg hc] at hf ⊢
      obtain ⟨g, hg, rfl⟩ := Option.map_eq_some_iff.mp hf
      rw [inflateLoop_settles _ _ _ hg hn]
      rfl
    · rename_i hz
      rw [if_neg hz]
      exact h

/-- the copy that the server makes -/
theorem server_raw (content : ByteArray) :
    Vec.memcpy (Vec.resize [] (content.length + 1) 0) 0 content = content ++ [0] := by
  have hfresh : Vec.resize ([] : ByteArray) (content.length + 1) 0
      = List.replicate content.length 0 ++ [0] := by
    rw [Vec.resize, List.take_nil, List.nil_append, List.length_nil, Nat.sub_zero,
      List.replicate_succ']
  rw [hfresh]
  exact Vec.memcpy_over _ [0] content List.length_replicate.symm

/-! ## the payloads that come through -/

theorem gets_of_comes {f : Nat → Option (BitVec 8 × Decoded)} {t : BitVec 8} {x : ByteArray}
    (h : Comes f (t, .data x)) : Gets f x := ⟨t, .data x, h, .inl rfl⟩

/-- what the decode stage comes back with is what the payload is compared with -/
theorem gets_iff {f : Nat → Option (BitVec 8 × Decoded)} {t : BitVec 8} {d : Decoded}
    (h : Comes f (t, d)) (x : ByteArray) : Gets f x ↔ d.Is x := by
  refine ⟨?_, fun hd => ⟨t, d, h, hd⟩⟩
  rintro ⟨t', d', hf, hd⟩
  rw [(Prod.mk.inj (h.unique hf)).2]
  exact hd

/-- what an end makes of the zlib stream `s` under a flag that is no zlib flag -/
def misread (raw : ByteArray → ByteArray) (w : Platform) (compress : BitVec 8) (s : ByteArray) :
    Decoded :=
  if compress.setWidth 3 = COMPRESS_LZMA ∨ compress.setWidth 3 = COMPRESS_DOUBLE_LZMA then
    match LzmaDecomp w s [] 0 with
    | some (_, tmpData) => if tmpData = [] then .dropped else .data tmpData
    | none => .threw
  else .data (raw s)

section
variable (raw : ByteArray → ByteArray) {w : Platform} {z : Deflate} {x : ByteArray} (hx : x ≠ [])
  (cmd : BitVec 16) (seq : BitVec 64) (compress t : BitVec 8)
include hx

/-- compressed by zlib, and said to be so: it is the payload -/
theorem zlib_comes (hu : Undoes w.inflate z) (hs : z.succeeds x = true) (hz : AsksZlib compress) :
    ∃ t', Comes (fun fuel => decodeContent raw w fuel t
      (NetPackage.ofBytes (rpcBytes w.order z x cmd seq compress)).m_pkgHeader
      (NetPackage.ofBytes (rpcBytes w.order z x cmd seq compress)).m_pkgContent)
      (t', .data x) := by
  obtain ⟨hc, hf⟩ := rpc_arrives w.order z x cmd seq compress hx
  have hback : w.inflate.unpacked (z.stored x) = x := by
    rw [Deflate.stored, if_pos hs]
    exact unpacked_compressed hu (show z.succeedsIn (2 * x.length + 16) x = true from hs)
  obtain ⟨t', h⟩ := decode_zlib raw w t
    (NetPackage.ofBytes (rpcBytes w.order z x cmd seq compress)).m_pkgHeader (stored_ne_nil hu hx)
    (by rw [hback]; exact hx) (by rw [hf, sentFlag, if_pos hs]; exact hz)
  rw [hback] at h
  rw [hc]
  exact ⟨t', h⟩

theorem zlib_comes_through (hu : Undoes w.inflate z) (hs : z.succeeds x = true)
    (hz : AsksZlib compress) :
    Gets (fun fuel => decodeContent raw w fuel t
      (NetPackage.ofBytes (rpcBytes w.order z x cmd seq compress)).m_pkgHeader
      (NetPackage.ofBytes (rpcBytes w.order z x cmd seq compress)).m_pkgContent) x := by
  obtain ⟨t', h⟩ := zlib_comes raw hx cmd seq compress t hu hs hz
  exact gets_of_comes h

/-- not compressed, and said to be so: it is what the end makes of it -/
theorem raw_comes (hs : z.succeeds x = false) :
    Comes (fun fuel => decodeContent raw w fuel t
      (NetPackage.ofBytes (rpcBytes w.order z x cmd seq compress)).m_pkgHeader
      (NetPackage.ofBytes (rpcBytes w.order z x cmd seq compress)).m_pkgContent)
      (t, .data (raw x)) := by
  obtain ⟨hc, hf⟩ := rpc_arrives w.order z x cmd seq compress hx
  have hst : z.stored x = x := by
    rw [Deflate.stored, hs]
    rfl
  rw [hc, hst]
  refine decode_other raw w t _ hx ?_ ?_
  · rw [hf, sentFlag, hs, if_neg Bool.false_ne_true]
    decide
  · rw [hf, sentFlag, hs, if_neg Bool.false_ne_true]
    decide

/-- compressed by zlib, and said to be something else: the end makes of the stream what it can -/
theorem mislabelled_comes (hu : Undoes w.inflate z) (hs : z.succeeds x = true)
    (hz : ¬ AsksZlib compress) :
    ∃ t', Comes (fun fuel => decodeContent raw w fuel t
      (NetPackage.ofBytes (rpcBytes w.order z x cmd seq compress)).m_pkgHeader
      (NetPackage.ofBytes (rpcBytes w.order z x cmd seq compress)).m_pkgContent)
      (t', misread raw w compress (z.stored x)) := by
  obtain ⟨hc, hf⟩ := rpc_arrives w.order z x cmd seq compress hx
  rw [sentFlag, if_pos hs] at hf
  have hne := stored_ne_nil hu hx
  rw [hc, misread]
  by_cases hlz : compress.setWidth 3 = COMPRESS_LZMA ∨ compress.setWidth 3 = COMPRESS_DOUBLE_LZMA
  · rw [if_pos hlz]
    exact decode_lzma raw w t
      (NetPackage.ofBytes (rpcBytes w.order z x cmd seq compress)).m_pkgHeader hne (by rwa [hf])
  · rw [if_neg hlz]
    exact ⟨t, decode_other raw w t _ hne (by rw [hf]; exact hz) (by rw [hf]; exact hlz)⟩

/-- **Whether one payload comes through**: compressed, it does when a zlib method is asked for, or
when the stream by accident reads as the payload; uncompressed, it is what the end makes of it. -/
theorem decodes_iff (hu : Undoes w.inflate z) :
    Gets (fun fuel => decodeContent raw w fuel t
      (NetPackage.ofBytes (rpcBytes w.order z x cmd seq compress)).m_pkgHeader
      (NetPackage.ofBytes (rpcBytes w.order z x cmd seq compress)).m_pkgContent) x ↔
      if z.succeeds x then AsksZlib compress ∨ (misread raw w compress (z.stored x)).Is x
      else (Decoded.data (raw x)).Is x := by
  cases hs : z.succeeds x with
  | false =>
    rw [if_neg Bool.false_ne_true]
    exact gets_iff (raw_comes raw hx cmd seq compress t hs) x
  | true =>
    rw [if_pos rfl]
    by_cases hz : AsksZlib compress
    · exact iff_of_true (zlib_comes_through raw hx cmd seq compress t hu hs hz) (.inl hz)
    · obtain ⟨t', h⟩ := mislabelled_comes raw hx cmd seq compress t hu hs hz
      rw [gets_iff h x, or_iff_right hz]

end

/-! ### a host with one stream -/

def letters : ByteArray := [0x41, 0x42, 0x43, 0x44, 0x45, 0x46]

/-- the zlib stream of the letters -/
def streamLetters : ByteArray :=
  [0x78, 0x9c, 0x73, 0x74, 0x72, 0x76, 0x71, 0x75, 0x03, 0x00, 0x05, 0x7e, 0x01, 0x96]

/-- a host with 2^47 bytes of memory that knows this stream -/
def lettersPlatform : Platform where
  order := .little
  wild := fun _ => 0
  alloc := fun n => n ≤ 2 ^ 47
  inflate := .one streamLetters letters (by decide)
  lzma := ⟨fun _ _ _ => (1, []), fun _ _ _ => Nat.zero_le _⟩

/-- read as an LZMA content the stream asks for 2^56 bytes -/
theorem lettersPlatform_lzma : LzmaDecomp lettersPlatform streamLetters [] 0 = none := by decide

theorem letters_succeed : (Deflate.one letters streamLetters).succeeds letters = true := by decide

theorem letters_stored : (Deflate.one letters streamLetters).stored letters = streamLetters := by
  decide

theorem lettersPlatform_undoes : Undoes lettersPlatform.inflate (.one letters streamLetters) :=
  undoes_one streamLetters letters (by decide)

/-- the letters, compressed and said to be something else, do not come through -/
theorem letters_mislabelled (raw : ByteArray → ByteArray) (compress : BitVec 8)
    (hz : ¬ AsksZlib compress) (hraw : ¬ (Decoded.data (raw streamLetters)).Is letters) :
    ¬ Gets (fun fuel => decodeContent raw lettersPlatform fuel 0
      (NetPackage.ofBytes (rpcBytes .little (.one letters streamLetters) letters 0 0
        compress)).m_pkgHeader
      (NetPackage.ofBytes (rpcBytes .little (.one letters streamLetters) letters 0 0
        compress)).m_pkgContent) letters := by
  intro hgets
  have hread := (decodes_iff raw (w := lettersPlatform) (x := letters) (by decide) 0 0 compress 0
    lettersPlatform_undoes).mp hgets
  rw [if_pos letters_succeed, or_iff_right hz, letters_stored, misread] at hread
  split at hread
  · rw [lettersPlatform_lzma] at hread
    rcases hread with e | e
    · cases e
    · cases e
  · exact hraw hread

/-- **A request comes through when it is not compressed, or a zlib method is asked for.** -/
theorem requestTransparent_iff (compress : BitVec 8) (ok : Bool) :
    RequestTransparent compress ok ↔ ok = false ∨ AsksZlib compress := by
  refine ⟨fun h => ?_, ?_⟩
  · by_contra hno
    obtain ⟨hok, hz⟩ := not_or.mp hno
    have hgets := h lettersPlatform (.one letters streamLetters) lettersPlatform_undoes letters
      (by decide) (by rw [letters_succeed, Bool.eq_true_of_not_eq_false hok]) 0 0 0
    rw [serverDecodes_content] at hgets
    refine letters_mislabelled _ compress hz ?_ hgets
    rw [server_raw]
    decide
  · intro hcond w z hu x hx hs cmd seq t
    rw [serverDecodes_content, decodes_iff _ hx cmd seq compress t hu, hs]
    cases ok with
    | true => exact .inl (hcond.resolve_left fun e => Bool.noConfusion e)
    | false =>
      rw [if_neg Bool.false_ne_true, server_raw]
      exact .inr rfl

/-- **A response comes through when it is compressed and a zlib method is asked for.** -/
theorem responseTransparent_iff (compress : BitVec 8) (ok : Bool) :
    ResponseTransparent compress ok ↔ ok = true ∧ AsksZlib compress := by
  refine ⟨fun h => ?_, ?_⟩
  · cases ok with
    | true =>
      refine ⟨rfl, ?_⟩
      by_contra hz
      have hgets := h lettersPlatform (.one letters streamLetters) lettersPlatform_undoes letters
        (by decide) letters_succeed 0 0 0
      rw [clientDecodes_content] at hgets
      exact letters_mislabelled _ compress hz (by decide) hgets
    | false =>
      -- the client leaves `tmpData` empty
      have hs : Deflate.noMemory.succeeds letters = false := rfl
      have hgets := h lettersPlatform .noMemory (undoes_noMemory _) letters (by decide) hs 0 0 0
      rw [clientDecodes_content, decodes_iff (z := .noMemory) _ (by decide) 0 0 compress 0
        (undoes_noMemory _), hs, if_neg Bool.false_ne_true] at hgets
      exact absurd hgets (by decide)
  · rintro ⟨rfl, hz⟩ w z hu x hx hs cmd seq t
    rw [clientDecodes_content, decodes_iff _ hx cmd seq compress t hu, if_pos hs]
    exact .inl hz

/-- **Which payloads come through**, for every argument and every outcome of `compress`. -/
theorem rpc_transparent_iff (compress : BitVec 8) (ok : Bool) :
    (RequestTransparent compress ok ↔ ok = false ∨ AsksZlib compress) ∧
      (ResponseTransparent compress ok ↔ ok = true ∧ AsksZlib compress) :=
  ⟨requestTransparent_iff compress ok, responseTransparent_iff compress ok⟩

/-- the letters are compressed and sent with `COMPRESS_NONE`: neither end gets them -/
theorem uncompressed_lost : Undoes lettersPlatform.inflate (.one letters streamLetters) ∧
    ¬ Gets (serverDecodes lettersPlatform (.one letters streamLetters) letters 0 0 0 0) letters ∧
    ¬ Gets (clientDecodes lettersPlatform (.one letters streamLetters) letters 0 0 0 0)
      letters := by
  refine ⟨lettersPlatform_undoes, ?_, ?_⟩
  · rw [serverDecodes_content]
    refine letters_mislabelled _ 0 (by decide) ?_
    rw [server_raw]
    decide
  · rw [clientDecodes_content]
    exact letters_mislabelled _ 0 (by decide) (by decide)

end Netwb
