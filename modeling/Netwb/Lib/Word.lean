import Mathlib.Data.BitVec
import Mathlib.Tactic.NormNum

/-!
# Machine words and their bytes

A word of 16 or 32 bits is stored as a byte list in the order of the host (`ByteOrder`).  The
network order is the big-endian one; `hton16`, `hton32` exchange the bytes on a little-endian host
and do nothing on a big-endian one.  What a program that converts before it stores writes is
therefore the same list on every host: `store32_hton`, `ntoh_load32` and their 16-bit companions.

Signed machine integers are integers; `toInt32` is the wrap-around of a 32-bit conversion and
`toSize` the conversion to an unsigned 64-bit size.
-/

namespace Wire

abbrev Byte := BitVec 8

inductive ByteOrder where
  | little
  | big
deriving DecidableEq, Repr

/-- the byte of weight `256 ^ i` -/
def byteAt {w : Nat} (x : BitVec w) (i : Nat) : Byte := BitVec.ofNat 8 (x.toNat / 256 ^ i)

/-- a word from its bytes, the most significant one first -/
def join16 (b1 b0 : Byte) : BitVec 16 := BitVec.ofNat 16 (b1.toNat * 256 + b0.toNat)
def join32 (b3 b2 b1 b0 : Byte) : BitVec 32 :=
  BitVec.ofNat 32 (b3.toNat * 16777216 + b2.toNat * 65536 + b1.toNat * 256 + b0.toNat)

def swap16 (x : BitVec 16) : BitVec 16 := join16 (byteAt x 0) (byteAt x 1)
def swap32 (x : BitVec 32) : BitVec 32 :=
  join32 (byteAt x 0) (byteAt x 1) (byteAt x 2) (byteAt x 3)

/-- the bytes of a word at increasing addresses -/
def store16 : ByteOrder → BitVec 16 → List Byte
  | .little, x => [byteAt x 0, byteAt x 1]
  | .big, x => [byteAt x 1, byteAt x 0]

def store32 : ByteOrder → BitVec 32 → List Byte
  | .little, x => [byteAt x 0, byteAt x 1, byteAt x 2, byteAt x 3]
  | .big, x => [byteAt x 3, byteAt x 2, byteAt x 1, byteAt x 0]

/-- a word from the bytes at increasing addresses -/
def load16 : ByteOrder → Byte → Byte → BitVec 16
  | .little, a0, a1 => join16 a1 a0
  | .big, a0, a1 => join16 a0 a1

def load32 : ByteOrder → Byte → Byte → Byte → Byte → BitVec 32
  | .little, a0, a1, a2, a3 => join32 a3 a2 a1 a0
  | .big, a0, a1, a2, a3 => join32 a0 a1 a2 a3

def hton16 : ByteOrder → BitVec 16 → BitVec 16
  | .little, x => swap16 x
  | .big, x => x

def hton32 : ByteOrder → BitVec 32 → BitVec 32
  | .little, x => swap32 x
  | .big, x => x

/-! ## bytes of joined words -/

theorem byteAt_join16 (b1 b0 : Byte) :
    byteAt (join16 b1 b0) 0 = b0 ∧ byteAt (join16 b1 b0) 1 = b1 := by
  have h1 := b1.isLt
  have h0 := b0.isLt
  refine ⟨?_, ?_⟩ <;>
  · apply BitVec.eq_of_toNat_eq
    simp only [join16, byteAt, BitVec.toNat_ofNat]
    norm_num
    omega

theorem byteAt_join32 (b3 b2 b1 b0 : Byte) :
    byteAt (join32 b3 b2 b1 b0) 0 = b0 ∧ byteAt (join32 b3 b2 b1 b0) 1 = b1 ∧
      byteAt (join32 b3 b2 b1 b0) 2 = b2 ∧ byteAt (join32 b3 b2 b1 b0) 3 = b3 := by
  have h3 := b3.isLt
  have h2 := b2.isLt
  have h1 := b1.isLt
  have h0 := b0.isLt
  refine ⟨?_, ?_, ?_, ?_⟩ <;>
  · apply BitVec.eq_of_toNat_eq
    simp only [join32, byteAt, BitVec.toNat_ofNat]
    norm_num
    omega

theorem join16_byteAt (x : BitVec 16) : join16 (byteAt x 1) (byteAt x 0) = x := by
  have hx := x.isLt
  apply BitVec.eq_of_toNat_eq
  simp only [join16, byteAt, BitVec.toNat_ofNat]
  norm_num
  omega

theorem join32_byteAt (x : BitVec 32) :
    join32 (byteAt x 3) (byteAt x 2) (byteAt x 1) (byteAt x 0) = x := by
  have hx := x.isLt
  apply BitVec.eq_of_toNat_eq
  simp only [join32, byteAt, BitVec.toNat_ofNat]
  norm_num
  omega

theorem swap16_join16 (b1 b0 : Byte) : swap16 (join16 b1 b0) = join16 b0 b1 := by
  obtain ⟨h0, h1⟩ := byteAt_join16 b1 b0
  rw [swap16, h0, h1]

theorem swap32_join32 (b3 b2 b1 b0 : Byte) :
    swap32 (join32 b3 b2 b1 b0) = join32 b0 b1 b2 b3 := by
  obtain ⟨h0, h1, h2, h3⟩ := byteAt_join32 b3 b2 b1 b0
  rw [swap32, h0, h1, h2, h3]

/-! ## the network order -/

/-- the bytes of a word, the most significant one first -/
def be16 (x : BitVec 16) : List Byte := [byteAt x 1, byteAt x 0]
def be32 (x : BitVec 32) : List Byte := [byteAt x 3, byteAt x 2, byteAt x 1, byteAt x 0]

@[simp] theorem be16_length (x : BitVec 16) : (be16 x).length = 2 := rfl
@[simp] theorem be32_length (x : BitVec 32) : (be32 x).length = 4 := rfl

/-- a converted word is stored in network order on every host -/
theorem store16_hton (o : ByteOrder) (x : BitVec 16) : store16 o (hton16 o x) = be16 x := by
  cases o with
  | little =>
    obtain ⟨h0, h1⟩ := byteAt_join16 (byteAt x 0) (byteAt x 1)
    show [byteAt (swap16 x) 0, byteAt (swap16 x) 1] = _
    rw [swap16, h0, h1]
    rfl
  | big => rfl

theorem store32_hton (o : ByteOrder) (x : BitVec 32) : store32 o (hton32 o x) = be32 x := by
  cases o with
  | little =>
    obtain ⟨h0, h1, h2, h3⟩ := byteAt_join32 (byteAt x 0) (byteAt x 1) (byteAt x 2) (byteAt x 3)
    show [byteAt (swap32 x) 0, byteAt (swap32 x) 1, byteAt (swap32 x) 2, byteAt (swap32 x) 3] = _
    rw [swap32, h0, h1, h2, h3]
    rfl
  | big => rfl

/-- a loaded word is converted back from network order on every host -/
theorem ntoh_load16 (o : ByteOrder) (a0 a1 : Byte) : hton16 o (load16 o a0 a1) = join16 a0 a1 := by
  cases o with
  | little => exact swap16_join16 a1 a0
  | big => rfl

theorem ntoh_load32 (o : ByteOrder) (a0 a1 a2 a3 : Byte) :
    hton32 o (load32 o a0 a1 a2 a3) = join32 a0 a1 a2 a3 := by
  cases o with
  | little => exact swap32_join32 a3 a2 a1 a0
  | big => rfl

/-! ## integer conversions -/

/-- conversion to a signed 32-bit integer, modulo `2 ^ 32` -/
def toInt32 (x : Int) : Int := (x + 2147483648) % 4294967296 - 2147483648

/-- conversion to an unsigned 64-bit size, modulo `2 ^ 64` -/
def toSize (x : Int) : Nat := (x % 18446744073709551616).toNat

theorem toInt32_eq {x : Int} (h0 : -2147483648 ≤ x) (h1 : x < 2147483648) : toInt32 x = x := by
  unfold toInt32
  omega

theorem toSize_eq {x : Int} (h0 : 0 ≤ x) (h1 : x < 18446744073709551616) :
    toSize x = x.toNat := by
  unfold toSize
  omega

end Wire
