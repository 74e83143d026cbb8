import Netwb.Lib.Run
import Netwb.Net.Stream

/-!
# Decompression, and the marked format

The pointer overloads of `zlibCompress`, `zlibDecompress` and `zlibDecompress2` of
`net/stream.cpp`.  Sizes are numbers: this is what the code computes while they are words of
`unsigned long`, that is, of `w` bits, while `2 * n + 16 + r < 2 ^ w` for `n` bytes to compress and
`r` reserved ones, and while `10 * n + r < 2 ^ w` and twice the room that is needed, with `r`, is
below `2 ^ w` for `n` bytes to decompress (`Width.zlibCompressPtr_unbounded`,
`Width.zlibDecompressPtr_unbounded`).  Beyond that the functions of the namespace `Width` say it.

zlib's `uncompress` is a parameter (`Inflate`): `contents` says what a byte string holds when it is
a zlib stream, and the laws are those of its interface: a stream has a header and is not empty, with
room enough the contents are written, with less the answer is `Z_BUF_ERROR`, and a byte string that
is no stream is not answered by `Z_OK`, nor by `Z_BUF_ERROR` for ever.

The decompressors call `uncompress` in a loop that doubles the room on `Z_BUF_ERROR`
(`inflateLoop`); they come back on every input (`inflateLoop_comes`).

* `unpackReserved_spec`     of a header and a source: the header and what the source unpacks to, its
                          contents if it is a stream and itself if it is not (`unpacked`);
* `zlibDecompressPtr_marked`, `zlibDecompressPtr_unmarked`   the same for the marked format.

Every result carries the ranges that were copied or given to zlib (`spans`).
-/

namespace Netwb
open Wire

def Z_BUF_ERROR : Int := -5
def Z_MEM_ERROR : Int := -4
def Z_DATA_ERROR : Int := -3

/-- `uncompress(dest, &destLen, source, sourceLen)`: for the room that `destLen` tells of and a
source, the return code and the bytes written; on `Z_BUF_ERROR` they fill the room -/
structure Inflate where
  uncompress : Nat → ByteArray → Int × ByteArray
  contents : ByteArray → Option ByteArray
  empty : contents [] = none
  fits : ∀ room source, (uncompress room source).2.length ≤ room
  enough : ∀ {source data}, contents source = some data → ∀ room, data.length ≤ room →
    uncompress room source = (Z_OK, data)
  short : ∀ {source data}, contents source = some data → ∀ room, room < data.length →
    (uncompress room source).1 = Z_BUF_ERROR
  no_stream : ∀ {source}, contents source = none → ∀ room, (uncompress room source).1 ≠ Z_OK
  gives_up : ∀ {source}, contents source = none →
    ∃ n, ∀ room, n ≤ room → (uncompress room source).1 ≠ Z_BUF_ERROR

/-- `uncompress(compress(x)) = x` -/
def Undoes (i : Inflate) (z : Deflate) : Prop :=
  ∀ room source written, z.compress room source = (Z_OK, written) → i.contents written = some source

/-- what a function leaves: whether it succeeded, the vector, and the ranges it has touched -/
structure Filled where
  ok : Bool
  dstData : ByteArray
  spans : List Vec.Span

/-! ## compressing -/

def zipString : ByteArray := [0x5A, 0x69, 0x50, 0x65, 0x44, 0x69, 0x54]

/-- `zlibCompress(srcData, srcDataLen, dstData, reservedLen)`: a negative `reservedLen` asks for the
mark in front.  The fallback makes no room for the reserved bytes. -/
def zlibCompressPtr (z : Deflate) (srcData dstData : ByteArray) (reservedLen : Int) : Filled :=
  let reservedBytes := if reservedLen ≥ 0 then reservedLen.toNat else zipString.length
  let srcDataLen := srcData.length
  let dstDataLen := 2 * srcDataLen + 16
  if srcDataLen = 0 then ⟨false, dstData, []⟩
  else
    let dstData := Vec.resize dstData (dstDataLen + reservedBytes) 0
    let room : Vec.Span := ⟨reservedBytes, dstDataLen, dstData.length⟩
    let (ret, written) := z.compress dstDataLen srcData
    let dstData := Vec.memcpy dstData reservedBytes written
    if ret = Z_OK then
      let dstData := Vec.resize dstData (written.length + reservedBytes) 0
      if reservedLen < 0 then
        ⟨true, Vec.memcpy dstData 0 zipString, [room, ⟨0, zipString.length, dstData.length⟩]⟩
      else ⟨true, dstData, [room]⟩
    else
      let dstData := Vec.resize dstData srcDataLen 0
      if reservedLen < 0 then
        ⟨false, Vec.memcpy dstData 0 srcData, [room, ⟨0, srcDataLen, dstData.length⟩]⟩
      else
        ⟨false, Vec.memcpy dstData reservedLen srcData,
          [room, ⟨reservedLen, srcDataLen, dstData.length⟩]⟩

/-! ## decompressing -/

/-- the loop around `uncompress`, which writes behind the first `reservedBytes` of `dstData`: the
room is doubled until the answer is not `Z_BUF_ERROR` -/
def inflateLoop (i : Inflate) (reservedBytes : Nat) (source : ByteArray) :
    Nat → ByteArray → Nat → Option Filled
  | 0, _, _ => none
  | fuel + 1, dstData, dstDataLen =>
    let room : Vec.Span := ⟨reservedBytes, dstDataLen, dstData.length⟩
    let (ret, written) := i.uncompress dstDataLen source
    let dstData := Vec.memcpy dstData reservedBytes written
    if ret = Z_OK then
      some ⟨true, Vec.resize dstData (written.length + reservedBytes) 0, [room]⟩
    else if ret = Z_BUF_ERROR then
      let dstDataLen := dstDataLen + dstDataLen
      (inflateLoop i reservedBytes source fuel (Vec.resize dstData (dstDataLen + reservedBytes) 0)
        dstDataLen).map fun f => { f with spans := room :: f.spans }
    else some ⟨false, dstData, [room]⟩

/-- `zlibDecompress2` behind its loop: the reserved bytes go to the front, or the source is copied
as it is -/
def afterReserved (srcData : ByteArray) (reservedBytes : Nat) (f : Filled) : Filled :=
  if f.ok then
    if reservedBytes > 0 then
      ⟨true, Vec.memcpy f.dstData 0 (srcData.take reservedBytes),
        f.spans ++ [⟨0, reservedBytes, f.dstData.length⟩, ⟨0, reservedBytes, srcData.length⟩]⟩
    else f
  else
    let dstData := Vec.resize f.dstData srcData.length 0
    ⟨false, Vec.memcpy dstData 0 srcData, f.spans ++ [⟨0, srcData.length, dstData.length⟩]⟩

/-- the body of the two overloads of `zlibDecompress2`, for a source of at least `reservedBytes` -/
def unpackReserved (i : Inflate) (fuel : Nat) (srcData dstData : ByteArray) (reservedBytes : Nat) :
    Option Filled :=
  let srcDataLen := srcData.length
  let dstDataLen := srcDataLen * 10
  if srcDataLen = 0 then some ⟨false, dstData, []⟩
  else
    (inflateLoop i reservedBytes (srcData.drop reservedBytes) fuel
      (Vec.resize dstData (dstDataLen + reservedBytes) 0) dstDataLen).map
        (afterReserved srcData reservedBytes)

def zlibDecompress2Ptr (i : Inflate) (fuel : Nat) (srcData dstData : ByteArray)
    (reservedBytes : Nat) : Option Filled :=
  unpackReserved i fuel srcData dstData reservedBytes

/-- `zlibDecompress` behind its loop: without success what follows the mark is copied -/
def afterMark (srcData : ByteArray) (f : Filled) : Filled :=
  if f.ok then f
  else
    let dstData := Vec.resize f.dstData (srcData.length - zipString.length) 0
    ⟨false, Vec.memcpy dstData 0 (srcData.drop zipString.length),
      f.spans ++ [⟨0, srcData.length - zipString.length, dstData.length⟩]⟩

/-- `zlibDecompress(srcData, srcDataLen, dstData, reservedLen)`: with a negative `reservedLen` a
source without the mark is copied -/
def zlibDecompressPtr (i : Inflate) (fuel : Nat) (srcData dstData : ByteArray) (reservedLen : Int) :
    Option Filled :=
  if reservedLen ≥ 0 then zlibDecompress2Ptr i fuel srcData dstData reservedLen.toNat
  else
    let reservedBytes := zipString.length
    let srcDataLen := srcData.length
    let dstDataLen := srcDataLen * 10
    if srcDataLen = 0 then some ⟨false, dstData, []⟩
    else
      let dstData := Vec.resize dstData dstDataLen 0
      if srcDataLen < reservedBytes ∨ srcData.take reservedBytes ≠ zipString then
        let dstData := Vec.resize dstData srcDataLen 0
        some ⟨true, Vec.memcpy dstData 0 srcData, [⟨0, srcDataLen, dstData.length⟩]⟩
      else
        (inflateLoop i 0 (srcData.drop reservedBytes) fuel dstData dstDataLen).map
          (afterMark srcData)

theorem span_whole (n : Nat) : (⟨0, n, n⟩ : Vec.Span).Inside :=
  .inr ⟨Int.le_refl _, by dsimp only; omega⟩

/-! ## the loop comes back -/

/-- a loop that has come back does the same with more rounds -/
theorem inflateLoop_settles (i : Inflate) (reservedBytes : Nat) (source : ByteArray) {fuel : Nat}
    {dstData : ByteArray} {len : Nat} {f : Filled}
    (h : inflateLoop i reservedBytes source fuel dstData len = some f) {n : Nat} (hn : fuel ≤ n) :
    inflateLoop i reservedBytes source n dstData len = some f := by
  induction fuel generalizing n dstData len f with
  | zero => cases h
  | succ fuel ih =>
    obtain ⟨n, rfl⟩ := Nat.exists_eq_add_one_of_ne_zero (by omega : n ≠ 0)
    rw [inflateLoop] at h ⊢
    dsimp only at h ⊢
    by_cases hok : (i.uncompress len source).1 = Z_OK
    · rw [if_pos hok] at h ⊢
      exact h
    · rw [if_neg hok] at h ⊢
      by_cases hbuf : (i.uncompress len source).1 = Z_BUF_ERROR
      · rw [if_pos hbuf] at h ⊢
        obtain ⟨g, hg, hf⟩ := Option.map_eq_some_iff.mp h
        rw [ih hg (Nat.le_of_succ_le_succ hn), Option.map_some, hf]
      · rw [if_neg hbuf] at h ⊢
        exact h

/-- the answer is not `Z_BUF_ERROR` -/
theorem inflateLoop_now (i : Inflate) {r : Nat} {source dstData : ByteArray} {len : Nat}
    (hlen : dstData.length = len + r) (hne : (i.uncompress len source).1 ≠ Z_BUF_ERROR) :
    ∃ room f, (i.uncompress room source).1 ≠ Z_BUF_ERROR ∧
      Machine.Comes (fun fuel => inflateLoop i r source fuel dstData len) f ∧
      (∀ sp ∈ f.spans, sp.Inside) ∧
      (f.ok = true ∧ (i.uncompress room source).1 = Z_OK ∧
          (∃ front, front.length = r ∧ f.dstData = front ++ (i.uncompress room source).2) ∨
        f.ok = false ∧ (i.uncompress room source).1 ≠ Z_OK) := by
  have hfit := i.fits len source
  have hin : r + (i.uncompress len source).2.length ≤ dstData.length := by omega
  have hspan : (⟨r, len, dstData.length⟩ : Vec.Span).Inside := by
    refine .inr ⟨Int.natCast_nonneg _, ?_⟩
    dsimp only
    omega
  by_cases hok : (i.uncompress len source).1 = Z_OK
  · refine ⟨len, ⟨true, dstData.take r ++ (i.uncompress len source).2, _⟩, hne, ⟨1, ?_⟩,
      List.forall_mem_singleton.mpr hspan,
      .inl ⟨rfl, hok, dstData.take r, by rw [List.length_take]; omega, rfl⟩⟩
    intro fuel hfuel
    obtain ⟨m, rfl⟩ : ∃ m, fuel = m + 1 := ⟨fuel - 1, by omega⟩
    show inflateLoop i r source (m + 1) dstData len = _
    rw [inflateLoop]
    dsimp only
    rw [if_pos hok, Vec.resize_memcpy _ _ _ _ hin]
  · refine ⟨len, ⟨false, Vec.memcpy dstData r (i.uncompress len source).2, _⟩, hne, ⟨1, ?_⟩,
      List.forall_mem_singleton.mpr hspan, .inr ⟨rfl, hok⟩⟩
    intro fuel hfuel
    obtain ⟨m, rfl⟩ : ∃ m, fuel = m + 1 := ⟨fuel - 1, by omega⟩
    show inflateLoop i r source (m + 1) dstData len = _
    rw [inflateLoop]
    dsimp only
    rw [if_neg hok, if_neg hne]

/-- **With room that is enough after `k` doublings the loop comes back**: with what was written
behind the reserved bytes, or without success. -/
theorem inflateLoop_comes (i : Inflate) (r : Nat) (source : ByteArray) (k : Nat) :
    ∀ {dstData : ByteArray} {len : Nat}, dstData.length = len + r →
      (∀ room, len * 2 ^ k ≤ room → (i.uncompress room source).1 ≠ Z_BUF_ERROR) →
      ∃ room f, (i.uncompress room source).1 ≠ Z_BUF_ERROR ∧
        Machine.Comes (fun fuel => inflateLoop i r source fuel dstData len) f ∧
        (∀ sp ∈ f.spans, sp.Inside) ∧
        (f.ok = true ∧ (i.uncompress room source).1 = Z_OK ∧
            (∃ front, front.length = r ∧ f.dstData = front ++ (i.uncompress room source).2) ∨
          f.ok = false ∧ (i.uncompress room source).1 ≠ Z_OK) := by
  induction k with
  | zero =>
    intro dstData len hlen henough
    exact inflateLoop_now i hlen (henough len (by omega))
  | succ k ih =>
    intro dstData len hlen henough
    by_cases hbuf : (i.uncompress len source).1 = Z_BUF_ERROR
    · have hdouble : (len + len) * 2 ^ k = len * 2 ^ (k + 1) := by
        rw [Nat.add_mul, Nat.pow_succ, ← Nat.mul_assoc]
        omega
      have hnext := Vec.resize_length (Vec.memcpy dstData r (i.uncompress len source).2)
        (len + len + r) (0 : BYTE)
      obtain ⟨room, f, h1, ⟨n, hn⟩, h3, h4⟩ := ih hnext (by rw [hdouble]; exact henough)
      refine ⟨room, { f with spans := ⟨r, len, dstData.length⟩ :: f.spans }, h1, ⟨n + 1, ?_⟩, ?_,
        h4⟩
      · intro fuel hfuel
        obtain ⟨m, rfl⟩ : ∃ m, fuel = m + 1 := ⟨fuel - 1, by omega⟩
        show inflateLoop i r source (m + 1) dstData len = _
        rw [inflateLoop]
        dsimp only
        rw [hbuf, if_neg (by decide), if_pos rfl]
        exact congrArg (Option.map _) (hn m (by omega))
      · refine List.forall_mem_cons.mpr ⟨.inr ⟨Int.natCast_nonneg _, ?_⟩, h3⟩
        dsimp only
        omega
    · exact inflateLoop_now i hlen hbuf

theorem inflate_stream {i : Inflate} {source data : ByteArray} (h : i.contents source = some data)
    {dstData : ByteArray} {len r : Nat} (hlen : dstData.length = len + r) (h0 : 0 < len) :
    ∃ f front, Machine.Comes (fun fuel => inflateLoop i r source fuel dstData len) f ∧
      f.ok = true ∧ front.length = r ∧ f.dstData = front ++ data ∧ ∀ sp ∈ f.spans, sp.Inside := by
  obtain ⟨room, f, h1, h2, h3, h4⟩ := inflateLoop_comes i r source data.length hlen (by
    intro room hroom
    have hpow : data.length < 2 ^ data.length := Nat.lt_two_pow_self
    have hle : 2 ^ data.length ≤ len * 2 ^ data.length := Nat.le_mul_of_pos_left _ h0
    rw [i.enough h room (by omega)]
    show Z_OK ≠ Z_BUF_ERROR
    decide)
  have hroom : data.length ≤ room := by
    by_contra hlt
    exact h1 (i.short h room (by omega))
  have hu := i.enough h room hroom
  rcases h4 with ⟨hok, _, front, hf, hd⟩ | ⟨_, hne⟩
  · rw [hu] at hd
    exact ⟨f, front, h2, hok, hf, hd, h3⟩
  · rw [hu] at hne
    exact absurd rfl hne

theorem inflate_raw {i : Inflate} {source : ByteArray} (h : i.contents source = none)
    {dstData : ByteArray} {len r : Nat} (hlen : dstData.length = len + r) (h0 : 0 < len) :
    ∃ f, Machine.Comes (fun fuel => inflateLoop i r source fuel dstData len) f ∧
      f.ok = false ∧ ∀ sp ∈ f.spans, sp.Inside := by
  obtain ⟨n, hn⟩ := i.gives_up h
  obtain ⟨room, f, h1, h2, h3, h4⟩ := inflateLoop_comes i r source n hlen (by
    intro room hroom
    have hpow : n < 2 ^ n := Nat.lt_two_pow_self
    have hle : 2 ^ n ≤ len * 2 ^ n := Nat.le_mul_of_pos_left _ h0
    exact hn room (by omega))
  rcases h4 with ⟨_, hz, _⟩ | ⟨hno, _⟩
  · exact absurd hz (i.no_stream h room)
  · exact ⟨f, h2, hno, h3⟩

/-! ## what the compressors leave -/

/-- `compress` succeeds with this room -/
def Deflate.succeedsIn (z : Deflate) (room : Nat) (source : ByteArray) : Bool :=
  (z.compress room source).1 == Z_OK

theorem Deflate.compress_ok {z : Deflate} {room : Nat} {source : ByteArray}
    (h : z.succeedsIn room source = true) :
    z.compress room source = (Z_OK, (z.compress room source).2) :=
  Prod.ext (by simpa [Deflate.succeedsIn] using h) rfl

theorem Deflate.compress_not_ok {z : Deflate} {room : Nat} {source : ByteArray}
    (h : z.succeedsIn room source = false) : (z.compress room source).1 ≠ Z_OK := by
  simpa [Deflate.succeedsIn] using h

/-! ## what the decompressors make of a source -/

theorem unpackReserved_comes {i : Inflate} {h s dstData : ByteArray} (hne : h ++ s ≠ [])
    {f : Filled} (hf : Machine.Comes (fun fuel => inflateLoop i h.length s fuel
      (Vec.resize dstData ((h ++ s).length * 10 + h.length) 0) ((h ++ s).length * 10)) f) :
    Machine.Comes (fun fuel => unpackReserved i fuel (h ++ s) dstData h.length)
      (afterReserved (h ++ s) h.length f) := by
  have hn : (h ++ s).length ≠ 0 := fun h0 => hne (List.eq_nil_of_length_eq_zero h0)
  have e : ∀ fuel, unpackReserved i fuel (h ++ s) dstData h.length
      = (inflateLoop i h.length s fuel (Vec.resize dstData ((h ++ s).length * 10 + h.length) 0)
          ((h ++ s).length * 10)).map (afterReserved (h ++ s) h.length) := by
    intro fuel
    rw [unpackReserved, if_neg hn, List.drop_left]
  rw [funext e]
  exact hf.map _

/-- **Of a stream behind a header: the header and the contents.** -/
theorem unpackReserved_stream {i : Inflate} {h s data : ByteArray} (hs : i.contents s = some data)
    (hne : h ++ s ≠ []) (dstData : ByteArray) :
    ∃ f, Machine.Comes (fun fuel => unpackReserved i fuel (h ++ s) dstData h.length) f ∧
      f.dstData = h ++ data ∧ ∀ sp ∈ f.spans, sp.Inside := by
  have hn := List.length_pos_of_ne_nil hne
  have hlen := Vec.resize_length dstData ((h ++ s).length * 10 + h.length) (0 : BYTE)
  obtain ⟨f, front, hf, hok, hfront, hd, hin⟩ := inflate_stream hs hlen (by omega)
  refine ⟨_, unpackReserved_comes hne hf, ?_, ?_⟩
  · rw [afterReserved, if_pos hok, List.take_left]
    split
    · rw [hd, Vec.memcpy_over front data h hfront.symm]
    · rename_i hz
      obtain rfl : h = [] := List.eq_nil_of_length_eq_zero (by omega)
      obtain rfl : front = [] := List.eq_nil_of_length_eq_zero hfront
      exact hd
  · rw [afterReserved, if_pos hok]
    split
    · have hdl : f.dstData.length = h.length + data.length := by
        rw [hd, List.length_append, hfront]
      intro sp hsp
      rcases List.mem_append.mp hsp with hsp | hsp
      · exact hin sp hsp
      · simp only [List.mem_cons, List.not_mem_nil, or_false] at hsp
        rcases hsp with rfl | rfl
        · refine .inr ⟨Int.le_refl _, ?_⟩
          dsimp only
          omega
        · refine .inr ⟨Int.le_refl _, ?_⟩
          dsimp only
          rw [List.length_append]
          omega
    · exact hin

/-- **Of anything else: the source as it is.** -/
theorem unpackReserved_raw {i : Inflate} {h s : ByteArray} (hs : i.contents s = none)
    (hne : h ++ s ≠ []) (dstData : ByteArray) :
    ∃ f, Machine.Comes (fun fuel => unpackReserved i fuel (h ++ s) dstData h.length) f ∧
      f.dstData = h ++ s ∧ ∀ sp ∈ f.spans, sp.Inside := by
  have hn := List.length_pos_of_ne_nil hne
  have hlen := Vec.resize_length dstData ((h ++ s).length * 10 + h.length) (0 : BYTE)
  obtain ⟨f, hf, hno, hin⟩ := inflate_raw hs hlen (by omega)
  have hne' : ¬ f.ok = true := by
    rw [hno]
    exact Bool.false_ne_true
  refine ⟨_, unpackReserved_comes hne hf, ?_, ?_⟩
  · rw [afterReserved, if_neg hne']
    have hfill := Vec.memcpy_fill (Vec.resize f.dstData (h ++ s).length 0) 0 (h ++ s)
      (by rw [Vec.resize_length, Nat.zero_add])
    rwa [List.take_zero, List.nil_append] at hfill
  · rw [afterReserved, if_neg hne']
    dsimp only
    rw [Vec.resize_length]
    intro sp hsp
    rcases List.mem_append.mp hsp with hsp | hsp
    · exact hin sp hsp
    · rw [List.mem_singleton.mp hsp]
      exact span_whole _

/-- what a byte string unpacks to: its contents if it is a stream, itself if it is not -/
def Inflate.unpacked (i : Inflate) (source : ByteArray) : ByteArray :=
  (i.contents source).getD source

/-- **Of a header and a source: the header and what the source unpacks to.** -/
theorem unpackReserved_spec (i : Inflate) (h s dstData : ByteArray) (hne : h ++ s ≠ []) :
    ∃ f, Machine.Comes (fun fuel => unpackReserved i fuel (h ++ s) dstData h.length) f ∧
      f.dstData = h ++ i.unpacked s ∧ ∀ sp ∈ f.spans, sp.Inside := by
  unfold Inflate.unpacked
  cases hs : i.contents s with
  | some data => exact unpackReserved_stream hs hne dstData
  | none => exact unpackReserved_raw hs hne dstData

/-- a source without the mark is copied -/
theorem zlibDecompressPtr_unmarked (i : Inflate) {s : ByteArray} (dstData : ByteArray)
    {reservedLen : Int} (hr : reservedLen < 0) (hne : s ≠ [])
    (hm : s.take zipString.length ≠ zipString) :
    ∃ f, Machine.Comes (fun fuel => zlibDecompressPtr i fuel s dstData reservedLen) f ∧
      f.dstData = s := by
  have hn : s.length ≠ 0 := fun h => hne (List.eq_nil_of_length_eq_zero h)
  have hfill := Vec.memcpy_fill (Vec.resize (Vec.resize dstData (s.length * 10) 0) s.length 0) 0 s
    (by rw [Vec.resize_length, Nat.zero_add])
  rw [List.take_zero, List.nil_append] at hfill
  have e : ∀ fuel, zlibDecompressPtr i fuel s dstData reservedLen
      = some ⟨true, s, [⟨0, s.length, s.length⟩]⟩ := by
    intro fuel
    rw [zlibDecompressPtr, if_neg (by omega), if_neg hn, if_pos (.inr hm)]
    dsimp only
    rw [Vec.resize_length]
    exact congrArg (fun d => some (Filled.mk true d [⟨0, s.length, s.length⟩])) hfill
  refine ⟨⟨true, s, [⟨0, s.length, s.length⟩]⟩, ?_, rfl⟩
  rw [funext e]
  exact Machine.comes_now _

/-- of a source with the mark: what the rest unpacks to -/
theorem zlibDecompressPtr_marked (i : Inflate) (s dstData : ByteArray) {reservedLen : Int}
    (hr : reservedLen < 0) :
    ∃ f, Machine.Comes
        (fun fuel => zlibDecompressPtr i fuel (zipString ++ s) dstData reservedLen) f ∧
      f.dstData = i.unpacked s := by
  have hz : zipString.length = 7 := rfl
  have hlen : (zipString ++ s).length = 7 + s.length := List.length_append
  have htake : (zipString ++ s).take zipString.length = zipString := List.take_left
  have hdrop : (zipString ++ s).drop zipString.length = s := List.drop_left
  have hroom := Vec.resize_length dstData ((zipString ++ s).length * 10) (0 : BYTE)
  have hcomes : ∀ {f}, Machine.Comes (fun fuel => inflateLoop i 0 s fuel
      (Vec.resize dstData ((zipString ++ s).length * 10) 0) ((zipString ++ s).length * 10)) f →
      Machine.Comes (fun fuel => zlibDecompressPtr i fuel (zipString ++ s) dstData reservedLen)
        (afterMark (zipString ++ s) f) := by
    intro f hf
    have e : ∀ fuel, zlibDecompressPtr i fuel (zipString ++ s) dstData reservedLen
        = (inflateLoop i 0 s fuel (Vec.resize dstData ((zipString ++ s).length * 10) 0)
            ((zipString ++ s).length * 10)).map (afterMark (zipString ++ s)) := by
      intro fuel
      rw [zlibDecompressPtr, if_neg (by omega), if_neg (by omega), if_neg, hdrop]
      rintro (hlt | hne)
      · omega
      · exact hne htake
    rw [funext e]
    exact hf.map _
  unfold Inflate.unpacked
  cases hs : i.contents s with
  | some data =>
    obtain ⟨f, front, hf, hok, hfront, hd, _⟩ := inflate_stream hs (r := 0) hroom (by omega)
    obtain rfl : front = [] := List.eq_nil_of_length_eq_zero hfront
    refine ⟨_, hcomes hf, ?_⟩
    rw [afterMark, if_pos hok]
    exact hd
  | none =>
    obtain ⟨f, hf, hno, _⟩ := inflate_raw hs (r := 0) hroom (by omega)
    refine ⟨_, hcomes hf, ?_⟩
    rw [afterMark, if_neg (by rw [hno]; exact Bool.false_ne_true), hdrop]
    have hfill := Vec.memcpy_fill (Vec.resize f.dstData ((zipString ++ s).length - zipString.length)
      0) 0 s (by rw [Vec.resize_length, hlen, hz]; omega)
    rwa [List.take_zero, List.nil_append] at hfill

/-- the marked format: the mark and the stream, or the source as it is -/
theorem zlibCompressPtr_marked (z : Deflate) {x : ByteArray} (dstData : ByteArray)
    {reservedLen : Int} (hr : reservedLen < 0) (hx : x ≠ []) :
    (zlibCompressPtr z x dstData reservedLen).dstData = if z.succeedsIn (2 * x.length + 16) x then
      zipString ++ (z.compress (2 * x.length + 16) x).2 else x := by
  have hn : x.length ≠ 0 := fun h => hx (List.eq_nil_of_length_eq_zero h)
  have hfit := z.fits (2 * x.length + 16) x
  have hz : (if reservedLen ≥ 0 then reservedLen.toNat else zipString.length) = 7 :=
    if_neg (by omega)
  have hlen := Vec.resize_length dstData (2 * x.length + 16 + 7) (0 : BYTE)
  rw [zlibCompressPtr, hz, if_neg hn]
  dsimp only
  generalize Vec.resize dstData (2 * x.length + 16 + 7) (0 : BYTE) = d at hlen ⊢
  cases hs : z.succeedsIn (2 * x.length + 16) x with
  | true =>
    have hok := congrArg Prod.fst (Deflate.compress_ok hs)
    have hin : 7 + (z.compress (2 * x.length + 16) x).2.length ≤ d.length := by omega
    rw [if_pos hok, if_pos hr, if_pos rfl]
    dsimp only
    rw [Vec.resize_memcpy d 7 (z.compress (2 * x.length + 16) x).2 0 hin]
    exact Vec.memcpy_over _ _ zipString (by rw [List.length_take]; show 7 = _; omega)
  | false =>
    rw [if_neg (Deflate.compress_not_ok hs), if_pos hr, if_neg Bool.false_ne_true]
    have hfill := Vec.memcpy_fill (Vec.resize (Vec.memcpy d ((7 : Nat) : Int)
      (z.compress (2 * x.length + 16) x).2) x.length 0) 0 x
      (by rw [Vec.resize_length, Nat.zero_add])
    rwa [List.take_zero, List.nil_append] at hfill

end Netwb
