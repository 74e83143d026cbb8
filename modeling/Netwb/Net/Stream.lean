import Netwb.Net.Package

/-!
# Compression with room for a header

`zlibCompress(srcData, dstData, reservedLen)` of `net/stream.cpp`, the overload for byte vectors.
zlib's `compress` is a parameter (`Deflate`): of its outcome only what its interface promises is
used, that it does not write more than the room it was told of.  Sizes are numbers: this is what the
code computes while `2 * n + 16 + r` is an `unsigned long`, for a source of `n` bytes and `r` reserved
ones, that is, for less than two gigabytes where that type has 32 bits.

`zlibCompress_spec` says what is behind the reserved bytes; an empty source is the one case in which
`dstData` is left alone (`zlibCompress_nil`).
-/

namespace Netwb
open Wire

def Z_OK : Int := 0

/-- `compress(dest, &destLen, source, sourceLen)`: for the room that `destLen` tells of and a source,
the return code and the bytes written, whose number is the new `destLen` on `Z_OK` -/
structure Deflate where
  compress : Nat → ByteArray → Int × ByteArray
  fits : ∀ room source, (compress room source).2.length ≤ room

/-- `zlibCompress(srcData, dstData, reservedLen)`: whether it compressed, and `dstData` -/
def zlibCompress (z : Deflate) (srcData dstData : ByteArray) (reservedLen : Int) :
    Bool × ByteArray :=
  let reservedBytes := if reservedLen > 0 then reservedLen.toNat else 0
  let srcDataLen := srcData.length
  let dstDataLen := 2 * srcDataLen + 16
  if srcDataLen = 0 then (false, dstData)
  else
    let dstData := Vec.resize dstData (dstDataLen + reservedBytes) 0
    let (ret, written) := z.compress dstDataLen srcData
    let dstData := Vec.memcpy dstData reservedBytes written
    if ret = Z_OK then (true, Vec.resize dstData (written.length + reservedBytes) 0)
    else
      let dstData := Vec.resize dstData (srcDataLen + reservedBytes) 0
      (false, Vec.memcpy dstData reservedBytes srcData)

/-- whether `compress` succeeds with the room that `zlibCompress` gives it -/
def Deflate.succeeds (z : Deflate) (srcData : ByteArray) : Bool :=
  (z.compress (2 * srcData.length + 16) srcData).1 == Z_OK

/-- what is stored for a source: the compressed bytes, or the source as it is -/
def Deflate.stored (z : Deflate) (srcData : ByteArray) : ByteArray :=
  if z.succeeds srcData then (z.compress (2 * srcData.length + 16) srcData).2 else srcData

theorem zlibCompress_nil (z : Deflate) (dstData : ByteArray) (reservedLen : Int) :
    zlibCompress z [] dstData reservedLen = (false, dstData) := rfl

/-- **Behind the reserved bytes is what is stored for the source, and nothing else.** -/
theorem zlibCompress_spec (z : Deflate) (srcData dstData : ByteArray) (r : Nat)
    (hsrc : srcData ≠ []) :
    ∃ front, front.length = r ∧
      zlibCompress z srcData dstData r = (z.succeeds srcData, front ++ z.stored srcData) := by
  have hn : srcData.length ≠ 0 := fun h => hsrc (List.eq_nil_of_length_eq_zero h)
  have hr : (if (r : Int) > 0 then (r : Int).toNat else 0) = r := by
    split <;> omega
  have hfit := z.fits (2 * srcData.length + 16) srcData
  simp only [zlibCompress, if_neg hn, hr, Deflate.stored, Deflate.succeeds]
  obtain ⟨⟨ret, written⟩, hq⟩ : ∃ q, z.compress (2 * srcData.length + 16) srcData = q := ⟨_, rfl⟩
  rw [hq] at hfit
  simp only [hq]
  dsimp only at hfit
  have hlen := Vec.resize_length dstData (2 * srcData.length + 16 + r) (0 : BYTE)
  generalize Vec.resize dstData (2 * srcData.length + 16 + r) (0 : BYTE) = d at hlen ⊢
  by_cases hok : ret = Z_OK
  · refine ⟨d.take r, by rw [List.length_take]; omega, ?_⟩
    rw [if_pos hok, if_pos (by rw [hok]; rfl), Vec.resize_memcpy _ _ _ _ (by omega), hok]
    rfl
  · have hne : (ret == Z_OK) = false := by simpa using hok
    rw [if_neg hok, hne, if_neg Bool.false_ne_true,
      Vec.memcpy_fill _ r srcData (by rw [Vec.resize_length]; omega)]
    refine ⟨_, ?_, rfl⟩
    rw [List.length_take, Vec.resize_length]
    omega

/-- `compress` on the one-byte source `A` -/
def deflateA : Deflate where
  compress := fun room source =>
    if source = [0x41] ∧ 9 ≤ room then
      (Z_OK, [0x78, 0x9c, 0x73, 0x04, 0x00, 0x00, 0x42, 0x00, 0x42])
    else (-5, [])
  fits := by
    intro room source
    split
    · rename_i h
      exact h.2
    · exact Nat.zero_le _

end Netwb
