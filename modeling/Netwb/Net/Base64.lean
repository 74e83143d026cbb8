import Netwb.Net.Package

/-!
# Base64

`base64_init`, `base64_encode` and `base64_decode` of `net/base64.c`.  An `int` that only takes
small values is a natural number; a byte that is stored is its remainder.  The encoder writes a NUL
behind the characters it counts.  The decoder is given a C string: a NUL stands behind its last
character, and the loops that skip characters may read it.

`base64_init_paired`: the tables of an alphabet belong together.  `base64_round_trip`: with every
alphabet, what was encoded is decoded again, also out of lines that the decoder takes the newlines
from.
-/

namespace Netwb
open Wire

def BASE64_NO_PADDING : Nat := 0x01
def BASE64_AUTO_NEWLINE : Nat := 0x02
def BASE64_IGNORE_SPACE : Nat := 0x10
def BASE64_IGNORE_NON_ALPHABET : Nat := 0x20

structure base64_t where
  alphabet : ByteArray
  detab : ByteArray

/-- `A` to `Z`, `a` to `z`, `0` to `9`, `-`, `_` and the padding `=` -/
def url_base64_alphabet : ByteArray :=
  (List.range' 0x41 26 ++ List.range' 0x61 26 ++ List.range' 0x30 10 ++ [0x2d, 0x5f, 0x3d]).map
    (BitVec.ofNat 8)

/-- `base64_init(b64, alphabet)` for a C string: the return code, and what is in `b64` -/
def base64_init (alphabet : ByteArray) : Int × base64_t :=
  let none : base64_t := ⟨List.replicate 66 0, List.replicate 256 0⟩
  if alphabet.length < 64 then (-1, none)
  else
    let a := alphabet.take 64 ++ [alphabet.getD 64 0x3d, 0]
    -- `strchr` finds no character twice, and finds the final NUL of every string
    if (List.range 65).any fun i => a.getD i 0 ∈ a.drop (i + 1) then (-1, ⟨a, none.detab⟩)
    else
      (0, ⟨a, (List.range 65).foldl (fun t i => t.set (a.getD i 0).toNat (BitVec.ofNat 8 i))
        (List.replicate 256 65)⟩)

def isspace (c : BYTE) : Bool := c = 0x20 ∨ 9 ≤ c.toNat ∧ c.toNat ≤ 13

section
variable (b64 : base64_t) (flag : Nat)

/-- `etab[x]` -/
def base64_t.etab (x : Nat) : BYTE := b64.alphabet.getD x 0

/-- the characters that `base64_encode` writes, with `d` of them already there -/
def base64_encode : Nat → ByteArray → ByteArray
  | d, b0 :: b1 :: b2 :: rest =>
    let c0 := b0.toNat
    let c1 := b1.toNat
    let c2 := b2.toNat
    let four := [b64.etab (c0 >>> 2), b64.etab ((c0 <<< 4 ||| c1 >>> 4) &&& 0x3F),
      b64.etab ((c1 <<< 2 ||| c2 >>> 6) &&& 0x3F), b64.etab (c2 &&& 0x3F)]
    if flag &&& BASE64_AUTO_NEWLINE ≠ 0 ∧ (d + 4 + 1) % 77 = 0 then
      four ++ 0x0a :: base64_encode (d + 5) rest
    else four ++ base64_encode (d + 4) rest
  | _, [b0, b1] =>
    let c0 := b0.toNat
    let c1 := b1.toNat
    let three := [b64.etab (c0 >>> 2), b64.etab ((c0 <<< 4 ||| c1 >>> 4) &&& 0x3F),
      b64.etab ((c1 <<< 2) &&& 0x3F)]
    if flag &&& BASE64_NO_PADDING ≠ 0 then three else three ++ [b64.etab 64]
  | _, [b0] =>
    let c0 := b0.toNat
    let two := [b64.etab (c0 >>> 2), b64.etab ((c0 <<< 4) &&& 0x3F)]
    if flag &&& BASE64_NO_PADDING ≠ 0 then two else two ++ [b64.etab 64, b64.etab 64]
  | _, [] => []

/-- `n`, `r` and what was written to `out` -/
structure Decoding where
  n : Nat
  r : Nat
  written : ByteArray
deriving DecidableEq

/-- the `switch (n)` -/
def Decoding.put (st : Decoding) (x : Nat) : Decoding :=
  match st.n with
  | 0 => ⟨1, x <<< 2, st.written⟩
  | 1 => ⟨2, x <<< 4, st.written ++ [BitVec.ofNat 8 (st.r + x >>> 4)]⟩
  | 2 => ⟨3, x <<< 6, st.written ++ [BitVec.ofNat 8 (st.r + x >>> 2)]⟩
  | _ => ⟨0, st.r, st.written ++ [BitVec.ofNat 8 (st.r + x)]⟩

/-- where the next character is read: by the loop itself, or by one of those that skip some -/
inductive Reading where
  | loop
  | nonAlphabet
  | space

/-- the loop of `base64_decode` with the two inside it, on the characters that are left, of which
`s` are read and the last one was `c` -/
def scan : Reading → ByteArray → Nat → BYTE → Decoding → Decoding × Nat × BYTE
  | .loop, [], s, c, st => (st, s, c)
  | _, [], s, _, st => (st, s + 1, 0)
  | reading, c :: rest, s, _, st =>
    if c = 0 then (st, s + 1, 0)
    else
      let x := (b64.detab.getD c.toNat 0).toNat
      if x < 64 then scan .loop rest (s + 1) c (st.put x)
      else if x = 64 then (st, s + 1, c)
      else
        match reading with
        | .loop =>
          if flag &&& BASE64_IGNORE_NON_ALPHABET ≠ 0 then scan .nonAlphabet rest (s + 1) c st
          else if flag &&& BASE64_IGNORE_SPACE ≠ 0 then scan .space rest (s + 1) c st
          else (st, s + 1, c)
        | .nonAlphabet => scan .nonAlphabet rest (s + 1) c st
        | .space => if isspace c then scan .space rest (s + 1) c st else (st, s + 1, c)

/-- `base64_decode`: what it returns, a negative number for an error, and what it writes -/
def base64_decode (input : ByteArray) : Int × ByteArray :=
  let (st, s, c) := scan b64 flag .loop input 0 0 ⟨0, 0, []⟩
  if s < input.length ∧ c ≠ 0 ∧ c ≠ b64.etab 64 ∨ st.n = 1 ∨ st.n ≠ 0 ∧ st.r &&& 0xff ≠ 0 then
    (-s, st.written)
  else (st.written.length, st.written)

end

/-- the tables that the two password functions build -/
def urlTables : base64_t := (base64_init url_base64_alphabet).2

/-! ## the tables -/

/-- what `detab` says of a character: the number of a letter, 64 of the padding, 65 of any other -/
def base64_t.value (b64 : base64_t) (c : BYTE) : Nat := (b64.detab.getD c.toNat 0).toNat

/-- the two tables belong together -/
structure base64_t.Paired (b64 : base64_t) : Prop where
  nonzero : ∀ x < 65, b64.etab x ≠ 0
  symbol : ∀ x < 65, b64.value (b64.etab x) = x
  other : ∀ c, (∀ x < 65, b64.etab x ≠ c) → b64.value c = 65

theorem getD_eq {a : ByteArray} {j : Nat} (hj : j < a.length) : a.getD j 0 = a[j] := by
  rw [List.getD_eq_getElem?_getD, List.getElem?_eq_getElem hj]
  rfl

/-- the table of the values, for different characters of which the last one is a NUL -/
theorem paired_of_distinct {a : ByteArray} (hlast : a.getD 65 0 = 0)
    (hne : ∀ i < 65, ∀ j, i < j → j < 66 → a.getD j 0 ≠ a.getD i 0) :
    (base64_t.mk a (Vec.fill (fun i => (a.getD i 0).toNat) (BitVec.ofNat 8)
      (List.replicate 256 65) 65)).Paired := by
  refine ⟨fun x hx h0 => ?_, fun x hx => ?_, fun c hc => ?_⟩
  · exact hne x hx 65 hx (by decide) (hlast.trans h0.symm)
  · have hget := Vec.fill_get (fun i => (a.getD i 0).toNat) (BitVec.ofNat 8)
      (List.replicate 256 (65 : BYTE)) 0 65
      (fun i _ => by rw [List.length_replicate]; exact (a.getD i 0).isLt)
      (fun i hi j hj heq => hne j (by omega) i hj (by omega) (BitVec.eq_of_toNat_eq heq).symm) x hx
    unfold base64_t.value base64_t.etab
    dsimp only
    rw [hget, BitVec.toNat_ofNat]
    exact Nat.mod_eq_of_lt (by omega)
  · have hkept := Vec.fill_other (fun i => (a.getD i 0).toNat) (BitVec.ofNat 8)
      (List.replicate 256 (65 : BYTE)) 0 65 fun i hi heq => hc i hi (BitVec.eq_of_toNat_eq heq)
    unfold base64_t.value
    dsimp only
    rw [hkept, List.getD_eq_getElem?_getD, List.getElem?_replicate_of_lt c.isLt]
    rfl

/-- **`base64_init` makes a pair of tables of every alphabet that it accepts.** -/
theorem base64_init_paired {alphabet : ByteArray} (h : (base64_init alphabet).1 = 0) :
    (base64_init alphabet).2.Paired := by
  by_cases hlen : alphabet.length < 64
  · rw [base64_init, if_pos hlen] at h
    cases h
  obtain ⟨a, ha⟩ : ∃ a, alphabet.take 64 ++ [alphabet.getD 64 0x3d, 0] = a := ⟨_, rfl⟩
  have h64 : (alphabet.take 64).length = 64 := by
    rw [List.length_take]
    omega
  have hlong : a.length = 66 := by
    rw [← ha, List.length_append, h64]
    rfl
  have hlast : a.getD 65 0 = 0 := by
    rw [← ha, List.getD_eq_getElem?_getD, List.getElem?_append_right (by omega), h64]
    rfl
  by_cases hdup : ((List.range 65).any fun i => a.getD i 0 ∈ a.drop (i + 1)) = true
  · rw [base64_init, if_neg hlen, ha] at h
    dsimp only at h
    rw [if_pos hdup] at h
    cases h
  -- no character is found behind its place
  have hne : ∀ i < 65, ∀ j, i < j → j < 66 → a.getD j 0 ≠ a.getD i 0 := by
    intro i hi j hij hj heq
    refine hdup (List.any_eq_true.mpr ⟨i, List.mem_range.mpr hi, decide_eq_true ?_⟩)
    rw [← heq, getD_eq (by omega)]
    exact List.mem_drop_iff_getElem.mpr ⟨j - (i + 1), by omega, by congr 1; omega⟩
  have htables : (base64_init alphabet).2 = base64_t.mk a (Vec.fill (fun i => (a.getD i 0).toNat)
      (BitVec.ofNat 8) (List.replicate 256 65) 65) := by
    rw [base64_init, if_neg hlen, ha]
    dsimp only
    rw [if_neg hdup]
    rfl
  rw [htables]
  exact paired_of_distinct hlast hne

theorem urlTables_init : (base64_init url_base64_alphabet).1 = 0 := by decide +kernel

theorem url_paired : urlTables.Paired := base64_init_paired urlTables_init

/-! ## the bits of three bytes -/

theorem sextet_first (c : Nat) : c >>> 2 = c / 4 := Nat.shiftRight_eq_div_pow c 2

theorem sextet_second (c0 : Nat) {c1 : Nat} (h : c1 < 256) :
    (c0 <<< 4 ||| c1 >>> 4) &&& 0x3F = c0 % 4 * 16 + c1 / 16 := by
  have hlow : c1 >>> 4 = c1 / 16 := Nat.shiftRight_eq_div_pow c1 4
  rw [hlow, ← Nat.shiftLeft_add_eq_or_of_lt (by omega : c1 / 16 < 2 ^ 4), Nat.shiftLeft_eq,
    show 0x3F = 2 ^ 6 - 1 from rfl, Nat.and_two_pow_sub_one_eq_mod]
  omega

theorem sextet_third (c1 : Nat) {c2 : Nat} (h : c2 < 256) :
    (c1 <<< 2 ||| c2 >>> 6) &&& 0x3F = c1 % 16 * 4 + c2 / 64 := by
  have hlow : c2 >>> 6 = c2 / 64 := Nat.shiftRight_eq_div_pow c2 6
  rw [hlow, ← Nat.shiftLeft_add_eq_or_of_lt (by omega : c2 / 64 < 2 ^ 2), Nat.shiftLeft_eq,
    show 0x3F = 2 ^ 6 - 1 from rfl, Nat.and_two_pow_sub_one_eq_mod]
  omega

theorem sextet_fourth (c2 : Nat) : c2 &&& 0x3F = c2 % 64 :=
  Nat.and_two_pow_sub_one_eq_mod c2 6

/-- the last letter before the padding -/
theorem sextet_short (c0 : Nat) : (c0 <<< 4) &&& 0x3F = c0 % 4 * 16 := by
  have h := sextet_second c0 (show 0 < 256 by omega)
  rwa [Nat.zero_shiftRight, Nat.or_zero] at h

theorem sextet_short' (c1 : Nat) : (c1 <<< 2) &&& 0x3F = c1 % 16 * 4 := by
  have h := sextet_third c1 (show 0 < 256 by omega)
  rwa [Nat.zero_shiftRight, Nat.or_zero] at h

theorem byte_ofNat {n : Nat} {b : BYTE} (h : n % 256 = b.toNat) : BitVec.ofNat 8 n = b :=
  BitVec.eq_of_toNat_eq (by rw [BitVec.toNat_ofNat]; exact h)

/-! ## the decoder on letters -/

section
variable (r x : Nat) (w : ByteArray)

@[simp] theorem put_zero : Decoding.put ⟨0, r, w⟩ x = ⟨1, x <<< 2, w⟩ := rfl

@[simp] theorem put_one : Decoding.put ⟨1, r, w⟩ x
    = ⟨2, x <<< 4, w ++ [BitVec.ofNat 8 (r + x >>> 4)]⟩ := rfl

@[simp] theorem put_two : Decoding.put ⟨2, r, w⟩ x
    = ⟨3, x <<< 6, w ++ [BitVec.ofNat 8 (r + x >>> 2)]⟩ := rfl

@[simp] theorem put_three : Decoding.put ⟨3, r, w⟩ x
    = ⟨0, r, w ++ [BitVec.ofNat 8 (r + x)]⟩ := rfl

end

section
variable {b64 : base64_t} (T : b64.Paired) (flag : Nat) (rest : ByteArray) (s : Nat) (c : BYTE)
  (st : Decoding)
include T

/-- a letter of the alphabet, wherever it is read -/
theorem scan_letter (reading : Reading) {x : Nat} (hx : x < 64) :
    scan b64 flag reading (b64.etab x :: rest) s c st
      = scan b64 flag .loop rest (s + 1) (b64.etab x) (st.put x) := by
  have hne := T.nonzero x (by omega)
  have hvalue : (b64.detab.getD (b64.etab x).toNat 0).toNat = x := T.symbol x (by omega)
  cases reading <;>
  · rw [scan, if_neg hne, hvalue]
    exact if_pos hx

/-- the padding ends the loop -/
theorem scan_padding :
    scan b64 flag .loop (b64.etab 64 :: rest) s c st = (st, s + 1, b64.etab 64) := by
  have hvalue : (b64.detab.getD (b64.etab 64).toNat 0).toNat = 64 := T.symbol 64 (by decide)
  rw [scan, if_neg (T.nonzero 64 (by decide)), hvalue]
  rfl

/-- a character that is skipped -/
theorem scan_skipped (hflag : flag &&& BASE64_IGNORE_NON_ALPHABET ≠ 0 ∨
      flag &&& BASE64_IGNORE_SPACE ≠ 0) {x : BYTE} (hx : x ≠ 0)
    (hother : ∀ i < 65, b64.etab i ≠ x) :
    ∃ reading, scan b64 flag .loop (x :: rest) s c st
      = scan b64 flag reading rest (s + 1) x st := by
  have hvalue : (b64.detab.getD x.toNat 0).toNat = 65 := T.other x hother
  rw [scan, if_neg hx, hvalue]
  dsimp only
  rw [if_neg (by decide), if_neg (by decide)]
  by_cases hnon : flag &&& BASE64_IGNORE_NON_ALPHABET ≠ 0
  · exact ⟨.nonAlphabet, if_pos hnon⟩
  · exact ⟨.space, by rw [if_neg hnon, if_pos (hflag.resolve_left hnon)]⟩

end

/-! ## the characters of some bytes -/

/-- the padding behind the last letters -/
def padding (b64 : base64_t) (flag k : Nat) : ByteArray :=
  if flag &&& BASE64_NO_PADDING ≠ 0 then [] else List.replicate k (b64.etab 64)

/-- the newline behind a line -/
def newline (flag d : Nat) : ByteArray :=
  if flag &&& BASE64_AUTO_NEWLINE ≠ 0 ∧ (d + 4 + 1) % 77 = 0 then [0x0a] else []

section
variable (b64 : base64_t) (flag : Nat) (b0 b1 b2 : BYTE)

/-- the letters that the bytes are cut into -/
theorem encode_three (d : Nat) (rest : ByteArray) :
    base64_encode b64 flag d (b0 :: b1 :: b2 :: rest)
      = b64.etab (b0.toNat / 4) :: b64.etab (b0.toNat % 4 * 16 + b1.toNat / 16) ::
        b64.etab (b1.toNat % 16 * 4 + b2.toNat / 64) :: b64.etab (b2.toNat % 64) ::
        (newline flag d ++ base64_encode b64 flag (d + 4 + (newline flag d).length) rest) := by
  rw [base64_encode, sextet_first, sextet_second _ b1.isLt, sextet_third _ b2.isLt,
    sextet_fourth, newline]
  split
  · rfl
  · rfl

theorem encode_two (d : Nat) : base64_encode b64 flag d [b0, b1]
    = b64.etab (b0.toNat / 4) :: b64.etab (b0.toNat % 4 * 16 + b1.toNat / 16) ::
      b64.etab (b1.toNat % 16 * 4) :: padding b64 flag 1 := by
  rw [base64_encode, sextet_first, sextet_second _ b1.isLt, sextet_short', padding]
  split
  · rfl
  · rfl

theorem encode_one (d : Nat) : base64_encode b64 flag d [b0]
    = b64.etab (b0.toNat / 4) :: b64.etab (b0.toNat % 4 * 16) :: padding b64 flag 2 := by
  rw [base64_encode, sextet_first, sextet_short, padding]
  split
  · rfl
  · rfl

/-- the bytes that the letters are put together to -/
theorem byte_first {x : Nat} (hx : x / 16 = b0.toNat % 4) :
    BitVec.ofNat 8 ((b0.toNat / 4) <<< 2 + x >>> 4) = b0 := by
  rw [Nat.shiftLeft_eq, Nat.shiftRight_eq_div_pow]
  exact byte_ofNat (by have := b0.isLt; omega)

theorem byte_second {x : Nat} (hx : x / 4 = b1.toNat % 16) :
    BitVec.ofNat 8 ((b0.toNat % 4 * 16 + b1.toNat / 16) <<< 4 + x >>> 2) = b1 := by
  rw [Nat.shiftLeft_eq, Nat.shiftRight_eq_div_pow]
  exact byte_ofNat (by have := b1.isLt; omega)

theorem byte_third :
    BitVec.ofNat 8 ((b1.toNat % 16 * 4 + b2.toNat / 64) <<< 6 + b2.toNat % 64) = b2 := by
  rw [Nat.shiftLeft_eq]
  exact byte_ofNat (by have := b2.isLt; omega)

end

/-- no bits are left over -/
theorem rest_eight (x : Nat) : (x * 2 ^ 8) &&& 0xff = 0 := by
  rw [show 0xff = 2 ^ 8 - 1 from rfl, Nat.and_two_pow_sub_one_eq_mod, Nat.mul_mod_left]

/-- what is left after some characters: all of them read, the padding met, or the NUL behind a
character that was skipped -/
structure Scanned (b64 : base64_t) (auto : Prop) (stop : Nat) (bytes : ByteArray)
    (t : Decoding × Nat × BYTE) : Prop where
  written : t.1.written = bytes
  not_one : t.1.n ≠ 1
  no_rest : t.1.n ≠ 0 → t.1.r &&& 0xff = 0
  ended : t.2.1 = stop ∨ t.2.2 = b64.etab 64 ∨ auto ∧ t.2.2 = 0

/-- behind the last letters -/
theorem scan_end {b64 : base64_t} (T : b64.Paired) (auto : Prop) (f g k s : Nat) (c : BYTE)
    {st : Decoding} {bytes : ByteArray} (hw : st.written = bytes) (h1 : st.n ≠ 1)
    (hr : st.n ≠ 0 → st.r &&& 0xff = 0) :
    Scanned b64 auto (s + (padding b64 f (k + 1)).length) bytes
      (scan b64 g .loop (padding b64 f (k + 1)) s c st) := by
  unfold padding
  split
  · exact ⟨hw, h1, hr, .inl rfl⟩
  · rw [List.replicate_succ, scan_padding T]
    exact ⟨hw, h1, hr, .inr (.inl rfl)⟩

/-- newlines are written only for a decoder that skips them -/
def SkipsNewlines (b64 : base64_t) (f g : Nat) : Prop :=
  f &&& BASE64_AUTO_NEWLINE ≠ 0 →
    (g &&& BASE64_IGNORE_NON_ALPHABET ≠ 0 ∨ g &&& BASE64_IGNORE_SPACE ≠ 0) ∧
      ∀ i < 65, b64.etab i ≠ 0x0a

section
variable {b64 : base64_t} (T : b64.Paired) (f g : Nat) (reading : Reading) (b0 b1 b2 : BYTE)
  (s : Nat) (c : BYTE) (r : Nat) (w : ByteArray)
include T

/-- the letters of three bytes -/
theorem scan_three (tail : ByteArray) :
    scan b64 g reading (b64.etab (b0.toNat / 4) :: b64.etab (b0.toNat % 4 * 16 + b1.toNat / 16) ::
        b64.etab (b1.toNat % 16 * 4 + b2.toNat / 64) :: b64.etab (b2.toNat % 64) :: tail) s c
        ⟨0, r, w⟩
      = scan b64 g .loop tail (s + 4) (b64.etab (b2.toNat % 64))
        ⟨0, (b1.toNat % 16 * 4 + b2.toNat / 64) <<< 6, w ++ [b0, b1, b2]⟩ := by
  have h0 := b0.isLt
  have h1 := b1.isLt
  have h2 := b2.isLt
  have hsum : w ++ [b0, b1, b2] = w ++ [b0] ++ [b1] ++ [b2] := by simp
  rw [scan_letter T _ _ _ _ _ _ (by omega), scan_letter T _ _ _ _ _ _ (by omega),
    scan_letter T _ _ _ _ _ _ (by omega), scan_letter T _ _ _ _ _ _ (by omega), put_zero,
    put_one, put_two, put_three, byte_first b0 (by omega), byte_second b0 b1 (by omega),
    byte_third, hsum]

/-- two bytes are left -/
theorem scan_two (auto : Prop) (d : Nat) :
    Scanned b64 auto (s + (base64_encode b64 f d [b0, b1]).length) (w ++ [b0, b1])
      (scan b64 g reading (base64_encode b64 f d [b0, b1]) s c ⟨0, r, w⟩) := by
  have h0 := b0.isLt
  have h1 := b1.isLt
  have hsum : w ++ [b0, b1] = w ++ [b0] ++ [b1] := by simp
  have hstop : ∀ m, s + (m + 1 + 1 + 1) = s + 3 + m := fun m => by omega
  rw [encode_two, scan_letter T _ _ _ _ _ _ (by omega), scan_letter T _ _ _ _ _ _ (by omega),
    scan_letter T _ _ _ _ _ _ (by omega), put_zero, put_one, put_two,
    byte_first b0 (by omega), byte_second b0 b1 (by omega), hsum, List.length_cons,
    List.length_cons, List.length_cons, hstop]
  refine scan_end T auto f g 0 (s + 3) _ rfl (by simp) fun _ => ?_
  dsimp only
  rw [Nat.shiftLeft_eq, Nat.mul_assoc]
  exact rest_eight _

/-- one byte is left -/
theorem scan_one (auto : Prop) (d : Nat) :
    Scanned b64 auto (s + (base64_encode b64 f d [b0]).length) (w ++ [b0])
      (scan b64 g reading (base64_encode b64 f d [b0]) s c ⟨0, r, w⟩) := by
  have h0 := b0.isLt
  have hstop : ∀ m, s + (m + 1 + 1) = s + 2 + m := fun m => by omega
  rw [encode_one, scan_letter T _ _ _ _ _ _ (by omega), scan_letter T _ _ _ _ _ _ (by omega),
    put_zero, put_one, byte_first b0 (by omega), List.length_cons, List.length_cons, hstop]
  refine scan_end T auto f g 1 (s + 2) _ rfl (by simp) fun _ => ?_
  dsimp only
  rw [Nat.shiftLeft_eq, Nat.mul_assoc]
  exact rest_eight _

end

/-- nothing is left, or a NUL behind a newline that is being skipped -/
theorem scan_none {b64 : base64_t} {auto : Prop} (g : Nat) {reading : Reading}
    (hreading : reading = .loop ∨ auto) (s : Nat) (c : BYTE) (r : Nat) (w : ByteArray) :
    Scanned b64 auto s w (scan b64 g reading [] s c ⟨0, r, w⟩) := by
  cases reading with
  | loop => exact ⟨rfl, Nat.zero_ne_one, fun h => absurd rfl h, .inl rfl⟩
  | nonAlphabet =>
    have hauto := hreading.resolve_left fun h => Reading.noConfusion h
    exact ⟨rfl, Nat.zero_ne_one, fun h => absurd rfl h, .inr (.inr ⟨hauto, rfl⟩)⟩
  | space =>
    have hauto := hreading.resolve_left fun h => Reading.noConfusion h
    exact ⟨rfl, Nat.zero_ne_one, fun h => absurd rfl h, .inr (.inr ⟨hauto, rfl⟩)⟩

/-- **The characters of some bytes are decoded to these**, also behind a newline that is being
skipped. -/
theorem scan_encoded {b64 : base64_t} (T : b64.Paired) {f g : Nat} (hf : SkipsNewlines b64 f g) :
    ∀ (xs : ByteArray) (d : Nat) (reading : Reading),
      reading = .loop ∨ f &&& BASE64_AUTO_NEWLINE ≠ 0 →
      ∀ (s : Nat) (c : BYTE) (r : Nat) (w : ByteArray),
      Scanned b64 (f &&& BASE64_AUTO_NEWLINE ≠ 0) (s + (base64_encode b64 f d xs).length) (w ++ xs)
        (scan b64 g reading (base64_encode b64 f d xs) s c ⟨0, r, w⟩)
  | b0 :: b1 :: b2 :: rest, d, reading, _, s, c, r, w => by
    have hsum : w ++ b0 :: b1 :: b2 :: rest = w ++ [b0, b1, b2] ++ rest := by simp
    rw [encode_three, scan_three T, hsum]
    unfold newline
    split
    · rename_i hline
      obtain ⟨hskips, hother⟩ := hf hline.1
      obtain ⟨reading', hscan⟩ := scan_skipped T g
        ([] ++ base64_encode b64 f (d + 4 + 1) rest) (s + 4) (b64.etab (b2.toNat % 64))
        ⟨0, (b1.toNat % 16 * 4 + b2.toNat / 64) <<< 6, w ++ [b0, b1, b2]⟩ hskips
        (by decide) hother
      have ih := scan_encoded T hf rest (d + 4 + 1) reading' (.inr hline.1) (s + 5)
        0x0a ((b1.toNat % 16 * 4 + b2.toNat / 64) <<< 6) (w ++ [b0, b1, b2])
      have hstop : ∀ m, s + 5 + m = s + (m + 1 + 1 + 1 + 1 + 1) := fun m => by omega
      rw [hstop] at ih
      exact hscan ▸ ih
    · have ih := scan_encoded T hf rest (d + 4) .loop (.inl rfl) (s + 4)
        (b64.etab (b2.toNat % 64)) ((b1.toNat % 16 * 4 + b2.toNat / 64) <<< 6)
        (w ++ [b0, b1, b2])
      have hstop : ∀ m, s + 4 + m = s + (m + 1 + 1 + 1 + 1) := fun m => by omega
      rw [hstop] at ih
      exact ih
  | [b0, b1], d, reading, _, s, c, r, w => scan_two T f g reading b0 b1 s c r w _ d
  | [b0], d, reading, _, s, c, r, w => scan_one T f g reading b0 s c r w _ d
  | [], d, reading, hreading, s, c, r, w => by
    rw [List.append_nil, base64_encode]
    exact scan_none g hreading s c r w

/-- what was scanned completely is decoded -/
theorem decode_scanned {b64 : base64_t} {auto : Prop} {g : Nat} {input xs : ByteArray}
    (h : Scanned b64 auto (0 + input.length) xs (scan b64 g .loop input 0 0 ⟨0, 0, []⟩)) :
    base64_decode b64 g input = ((xs.length : Int), xs) := by
  obtain ⟨hw, h1, hr, hend⟩ := h
  rw [base64_decode]
  rcases hscan : scan b64 g .loop input 0 0 ⟨0, 0, []⟩ with ⟨st, s, c⟩
  rw [hscan] at hw h1 hr hend
  dsimp only at hw h1 hr hend ⊢
  rw [if_neg, hw]
  rintro (⟨hlt, hzero, hne⟩ | hone | ⟨hn, hrest⟩)
  · rcases hend with hs | hc | ⟨_, hc⟩
    · omega
    · exact hne hc
    · exact hzero hc
  · exact h1 hone
  · exact hrest (hr hn)

def BASE64_LEN (n : Nat) : Nat := (n * 4 + 2) / 3

/-- without the newlines: the letters and the padding -/
def symbols (f n : Nat) : Nat :=
  if f &&& BASE64_NO_PADDING ≠ 0 then BASE64_LEN n else (n + 2) / 3 * 4

theorem symbols_three (f n : Nat) : symbols f (n + 3) = symbols f n + 4 := by
  unfold symbols BASE64_LEN
  split <;> omega

theorem newline_of_not {f : Nat} (d : Nat) (h : ¬ f &&& BASE64_AUTO_NEWLINE ≠ 0) :
    newline f d = [] :=
  if_neg fun hline => h hline.1

/-- no line ends behind less than a group -/
theorem line_short {f d j : Nat} (hd : f &&& BASE64_AUTO_NEWLINE ≠ 0 → d % 77 = 4 * j ∧ j < 19) :
    (if f &&& BASE64_AUTO_NEWLINE ≠ 0 then (j + 0) / 19 else 0) = 0 := by
  by_cases hauto : f &&& BASE64_AUTO_NEWLINE ≠ 0
  · rw [if_pos hauto]
    exact Nat.div_eq_of_lt (hd hauto).2
  · exact if_neg hauto

/-- a newline for every 19 groups, on a line with `j` groups in it -/
theorem encode_length (b64 : base64_t) (f : Nat) : ∀ (xs : ByteArray) (d j : Nat),
    (f &&& BASE64_AUTO_NEWLINE ≠ 0 → d % 77 = 4 * j ∧ j < 19) →
    (base64_encode b64 f d xs).length = symbols f xs.length +
      if f &&& BASE64_AUTO_NEWLINE ≠ 0 then (j + xs.length / 3) / 19 else 0
  | b0 :: b1 :: b2 :: rest, d, j, hd => by
    have hlen : (b0 :: b1 :: b2 :: rest).length = rest.length + 3 := rfl
    rw [encode_three, hlen, symbols_three]
    simp only [List.length_cons, List.length_append]
    by_cases hauto : f &&& BASE64_AUTO_NEWLINE ≠ 0
    · obtain ⟨hmod, hj⟩ := hd hauto
      by_cases hline : (d + 4 + 1) % 77 = 0
      · have hnew : newline f d = [0x0a] := if_pos ⟨hauto, hline⟩
        have ih := encode_length b64 f rest (d + 4 + 1) 0 fun _ => ⟨by omega, by omega⟩
        rw [hnew, List.length_singleton, ih, if_pos hauto, if_pos hauto]
        omega
      · have hnew : newline f d = [] := if_neg fun h => hline h.2
        have ih := encode_length b64 f rest (d + 4 + 0) (j + 1) fun _ => ⟨by omega, by omega⟩
        rw [hnew, List.length_nil, ih, if_pos hauto, if_pos hauto]
        omega
    · have ih := encode_length b64 f rest (d + 4 + 0) j fun h => absurd h hauto
      rw [newline_of_not d hauto, List.length_nil, ih, if_neg hauto, if_neg hauto]
      omega
  | [b0, b1], d, j, hd => by
    rw [encode_two, show ([b0, b1] : ByteArray).length = 2 from rfl, line_short hd, padding,
      symbols]
    split <;> rfl
  | [b0], d, j, hd => by
    rw [encode_one, show ([b0] : ByteArray).length = 1 from rfl, line_short hd, padding, symbols]
    split <;> rfl
  | [], d, j, hd => by
    rw [base64_encode, show ([] : ByteArray).length = 0 from rfl, line_short hd, symbols]
    split <;> rfl

/-- **What was encoded is decoded again**, for every alphabet that `base64_init` accepts, and the
number of characters. -/
theorem base64_round_trip {alphabet : ByteArray} (h : (base64_init alphabet).1 = 0) {f g : Nat}
    (hf : SkipsNewlines (base64_init alphabet).2 f g) (xs : ByteArray) :
    base64_decode (base64_init alphabet).2 g (base64_encode (base64_init alphabet).2 f 0 xs)
        = ((xs.length : Int), xs) ∧
      (base64_encode (base64_init alphabet).2 f 0 xs).length =
        (if f &&& BASE64_NO_PADDING ≠ 0 then BASE64_LEN xs.length else (xs.length + 2) / 3 * 4) +
        if f &&& BASE64_AUTO_NEWLINE ≠ 0 then xs.length / 3 / 19 else 0 := by
  have hlen := encode_length (base64_init alphabet).2 f xs 0 0 fun _ => ⟨rfl, by decide⟩
  rw [Nat.zero_add] at hlen
  have hscan := scan_encoded (base64_init_paired h) hf xs 0 .loop (.inl rfl) 0 0 0 []
  exact ⟨decode_scanned hscan, hlen⟩

/-- lines for URLs, without padding -/
theorem base64_round_trip_lines : (base64_init url_base64_alphabet).1 = 0 ∧
    base64_decode urlTables BASE64_IGNORE_SPACE
      (base64_encode urlTables (BASE64_AUTO_NEWLINE ||| BASE64_NO_PADDING) 0
        (List.replicate 58 0x41)) = (58, List.replicate 58 0x41) := by
  have hf : SkipsNewlines urlTables (BASE64_AUTO_NEWLINE ||| BASE64_NO_PADDING)
      BASE64_IGNORE_SPACE := fun _ => ⟨.inr (by decide), by decide +kernel⟩
  exact ⟨urlTables_init, (base64_round_trip urlTables_init hf (List.replicate 58 0x41)).1⟩

/-! ## the tables for URLs -/

/-- **What was encoded is decoded again.** -/
theorem base64_decode_encode (xs : ByteArray) :
    base64_decode urlTables BASE64_IGNORE_SPACE (base64_encode urlTables BASE64_IGNORE_SPACE 0 xs)
      = ((xs.length : Int), xs) := by
  have hf : SkipsNewlines urlTables BASE64_IGNORE_SPACE BASE64_IGNORE_SPACE :=
    fun h => absurd rfl h
  exact decode_scanned (scan_encoded url_paired hf xs 0 .loop (.inl rfl) 0 0 0 [])

/-- four characters for every three bytes begun -/
theorem base64_encode_length (xs : ByteArray) (d : Nat) :
    (base64_encode urlTables BASE64_IGNORE_SPACE d xs).length = (xs.length + 2) / 3 * 4 :=
  encode_length urlTables BASE64_IGNORE_SPACE xs d 0 fun h => absurd rfl h

end Netwb
