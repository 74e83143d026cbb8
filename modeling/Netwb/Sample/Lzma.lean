import Netwb.Sample.Decode

/-!
# LZMA and the buffers around it

Both overloads of `LzmaDecomp` and of `LzmaComp` of `net/stream.cpp`, with the ranges that they
touch.  `LzmaUncompress` reports how much of its source it has consumed, and one of the overloads
copies as much when the status is not `SZ_OK`; the other copies the length of the whole source from
behind the reserved bytes.

* `LzmaDecomp_safe_iff`     when `LzmaDecomp` is safe on a content;
* `lzmaComp_told`           the room that `LzmaCompress` is told is never there;
* `lzma_wrappers_iff`       so the wrappers stay within their buffers only if `resize` throws;
* `lzma_round_trip`         what they do as long as `LzmaCompress` writes no more than is there.
-/

namespace Netwb
open Wire

/-- `LzmaUncompress` reports the length of the source that it has consumed -/
structure LzmaPlatform extends Platform where
  consumed : Nat → ByteArray → ByteArray → Nat
  consumed_le : ∀ room source props, consumed room source props ≤ source.length

/-- one call of `LzmaDecomp`: the source length that `LzmaUncompress` is handed and its status, if it
is called, the ranges that are touched, and the result, `none` when `resize` throws -/
structure Decompression where
  handed : Option Nat
  status : Option Int
  touched : List Vec.Span
  result : Option (Bool × ByteArray)

/-- the body of the overloads; of what was consumed `copied` is the length that is copied without
success, and `left` the size of the result -/
def decompress (p : LzmaPlatform) (srcData dstData : ByteArray) (reserved : Nat)
    (copied left : Nat → Nat) : Decompression :=
  let srcDatalen := srcData.length
  let srcLen := toSize (srcDatalen - LzmaLen - ssLen - reserved)
  if srcLen = 0 then ⟨none, none, [], some (false, dstData)⟩
  else
    let prop := Vec.peeks p.wild srcData reserved LzmaLen
    let dstLen := loadSize p.order (Vec.peeks p.wild srcData (LzmaLen + reserved) ssLen)
    let header : List Vec.Span :=
      [⟨reserved, LzmaLen, srcDatalen⟩, ⟨LzmaLen + reserved, ssLen, srcDatalen⟩]
    if p.alloc dstLen then
      let dstData := Vec.resize dstData dstLen 0
      let source := Vec.peeks p.wild srcData (LzmaLen + ssLen + reserved) srcLen
      let (ret, written) := p.lzma.uncompress dstLen source prop
      let dstData := Vec.memcpy dstData 0 written
      let call : List Vec.Span :=
        [⟨0, dstLen, dstData.length⟩, ⟨LzmaLen + ssLen + reserved, srcLen, srcDatalen⟩]
      if ret = SZ_OK then
        ⟨some srcLen, some ret, header ++ call, some (true, Vec.resize dstData written.length 0)⟩
      else
        let used := p.consumed dstLen source prop
        let raw := Vec.peeks p.wild srcData reserved (copied used)
        let copy : List Vec.Span :=
          [⟨reserved, copied used, srcDatalen⟩, ⟨0, copied used, dstData.length⟩]
        ⟨some srcLen, some ret, header ++ call ++ copy,
          some (false, Vec.resize (Vec.memcpy dstData 0 raw) (left used) 0)⟩
    else ⟨none, none, header, none⟩

/-- `LzmaDecomp(srcData, dstData)`: `srcLen` is what was consumed -/
def LzmaDecompVec (p : LzmaPlatform) (srcData dstData : ByteArray) : Decompression :=
  decompress p srcData dstData 0 id id

/-- `LzmaDecomp(srcData, srcDatalen, dstData, reservedBytes)` -/
def LzmaDecompPtr (p : LzmaPlatform) (srcData dstData : ByteArray) (reservedBytes : Int) :
    Decompression :=
  let reservedBytes := if reservedBytes < 0 then 0 else reservedBytes.toNat
  decompress p srcData dstData reservedBytes (fun _ => srcData.length)
    fun _ => toSize (srcData.length - reservedBytes)

/-- it is the function that the two programs call -/
theorem LzmaDecompPtr_result (p : LzmaPlatform) (srcData dstData : ByteArray)
    (reservedBytes : Int) : (LzmaDecompPtr p srcData dstData reservedBytes).result
      = LzmaDecomp p.toPlatform srcData dstData reservedBytes := by
  rw [LzmaDecompPtr, LzmaDecomp]
  dsimp only
  generalize (if reservedBytes < 0 then 0 else reservedBytes.toNat) = r
  rw [decompress]
  dsimp only
  split
  · rfl
  · split
    · split
      · rfl
      · rfl
    · rfl

/-- the length handed over is the source without the header, nothing outside is touched, and a
status that is not `SZ_OK` leaves the raw bytes -/
structure Decompression.Safe (d : Decompression) (srcData : ByteArray) (reserved : Nat) : Prop where
  handed : ∀ len ∈ d.handed, len + (LzmaLen + ssLen + reserved) = srcData.length
  inside : ∀ sp ∈ d.touched, sp.Inside
  raw : ∀ ret ∈ d.status, ret ≠ SZ_OK → d.result = some (false, srcData.drop reserved)

section
variable (p : LzmaPlatform) (srcData : ByteArray) (r : Nat)

/-- the size that the content declares -/
def declared : Nat := loadSize p.order ((srcData.drop (LzmaLen + r)).take ssLen)

/-- what `LzmaUncompress` makes of the rest -/
def answer : Int × ByteArray :=
  p.lzma.uncompress (declared p srcData r) (srcData.drop (LzmaLen + ssLen + r))
    ((srcData.drop r).take LzmaLen)

end

section
variable (p : LzmaPlatform) {srcData : ByteArray} (dstData : ByteArray) {r : Nat}
  (copied left : Nat → Nat)

/-- **A content that is shorter than the header is read outside.** -/
theorem decompress_short (hr : (r : Int) ≤ INT32_MAX)
    (hlen : srcData.length < LzmaLen + ssLen + r) :
    ¬ (decompress p srcData dstData r copied left).Safe srcData r := by
  intro h
  have hsize : toSize (srcData.length - LzmaLen - ssLen - r) ≠ 0 := by
    unfold INT32_MAX at hr
    unfold LzmaLen ssLen at hlen ⊢
    unfold toSize
    omega
  have hread : (⟨(LzmaLen + r : Nat), ssLen, srcData.length⟩ : Vec.Span)
      ∈ (decompress p srcData dstData r copied left).touched := by
    rw [decompress]
    dsimp only
    rw [if_neg hsize]
    split
    · split
      · exact List.mem_cons_of_mem _ (List.mem_cons_self ..)
      · exact List.mem_cons_of_mem _ (List.mem_cons_self ..)
    · exact List.mem_cons_of_mem _ (List.mem_cons_self ..)
  rcases h.inside _ hread with h0 | ⟨_, hle⟩
  · cases h0
  · dsimp only at hle
    omega

/-- nothing follows the header -/
theorem decompress_header (hlen : srcData.length = LzmaLen + ssLen + r) :
    (decompress p srcData dstData r copied left).Safe srcData r := by
  have hsize : toSize (srcData.length - LzmaLen - ssLen - r) = 0 := by
    rw [hlen]
    unfold LzmaLen ssLen toSize
    omega
  have he : decompress p srcData dstData r copied left
      = ⟨none, none, [], some (false, dstData)⟩ := by
    rw [decompress]
    dsimp only
    rw [if_pos hsize]
  rw [he]
  exact ⟨fun _ h => absurd h (Option.not_mem_none _), List.forall_mem_nil _,
    fun _ h => absurd h (Option.not_mem_none _)⟩

/-- **A content that is longer than the header is read inside.** -/
theorem decompress_long (hn : srcData.length < 18446744073709551616)
    (hlen : LzmaLen + ssLen + r < srcData.length) :
    decompress p srcData dstData r copied left =
      let body := srcData.length - (LzmaLen + ssLen + r)
      let header : List Vec.Span :=
        [⟨r, LzmaLen, srcData.length⟩, ⟨LzmaLen + r, ssLen, srcData.length⟩]
      let call : List Vec.Span :=
        [⟨0, declared p srcData r, declared p srcData r⟩, ⟨LzmaLen + ssLen + r, body, srcData.length⟩]
      let v := Vec.memcpy (Vec.resize dstData (declared p srcData r) 0) 0 (answer p srcData r).2
      let used := p.consumed (declared p srcData r) (srcData.drop (LzmaLen + ssLen + r))
        ((srcData.drop r).take LzmaLen)
      if p.alloc (declared p srcData r) then
        if (answer p srcData r).1 = SZ_OK then
          ⟨some body, some (answer p srcData r).1, header ++ call,
            some (true, Vec.resize v (answer p srcData r).2.length 0)⟩
        else
          ⟨some body, some (answer p srcData r).1, header ++ call ++
              [⟨r, copied used, srcData.length⟩, ⟨0, copied used, declared p srcData r⟩],
            some (false, Vec.resize (Vec.memcpy v 0
              (Vec.peeks p.wild srcData r (copied used))) (left used) 0)⟩
      else ⟨none, none, header, none⟩ := by
  have hl : LzmaLen = 5 := rfl
  have hs : ssLen = 8 := rfl
  have hsize : toSize (srcData.length - LzmaLen - ssLen - r)
      = srcData.length - (LzmaLen + ssLen + r) := by
    rw [toSize_eq (by omega) (by omega)]
    omega
  have hprop : Vec.peeks p.wild srcData r LzmaLen = (srcData.drop r).take LzmaLen :=
    Vec.peeks_inside p.wild srcData r LzmaLen (by omega)
  have hdeclared : loadSize p.order (Vec.peeks p.wild srcData (LzmaLen + r) ssLen)
      = declared p srcData r := by
    have hpeek := Vec.peeks_inside p.wild srcData (LzmaLen + r) ssLen (by omega)
    rw [Int.natCast_add] at hpeek
    rw [hpeek]
    rfl
  have hsource : Vec.peeks p.wild srcData (LzmaLen + ssLen + r)
      (srcData.length - (LzmaLen + ssLen + r)) = srcData.drop (LzmaLen + ssLen + r) := by
    have hpeek := Vec.peeks_inside p.wild srcData (LzmaLen + ssLen + r)
      (srcData.length - (LzmaLen + ssLen + r)) (by omega)
    rw [Int.natCast_add, Int.natCast_add] at hpeek
    rw [hpeek, List.take_of_length_le (by rw [List.length_drop])]
  have hv : (Vec.memcpy (Vec.resize dstData (declared p srcData r) 0) 0
      (answer p srcData r).2).length = declared p srcData r := by
    rw [Vec.memcpy_length, Vec.resize_length]
  rw [decompress]
  dsimp only
  rw [hsize, if_neg (by omega), hprop, hdeclared, hsource]
  unfold answer at hv ⊢
  rw [hv]

/-- what is consumed of a content -/
def usedOf (srcData : ByteArray) (r : Nat) : Nat :=
  p.consumed (declared p srcData r) (srcData.drop (LzmaLen + ssLen + r))
    ((srcData.drop r).take LzmaLen)

theorem usedOf_le : usedOf p srcData r ≤ srcData.length - (LzmaLen + ssLen + r) := by
  have h := p.consumed_le (declared p srcData r) (srcData.drop (LzmaLen + ssLen + r))
    ((srcData.drop r).take LzmaLen)
  rwa [List.length_drop] at h

/-- **It is safe if `LzmaUncompress` does not fail, or if the copy stays inside and is the source.** -/
theorem decompress_safe (hn : srcData.length < 18446744073709551616)
    (hlen : LzmaLen + ssLen + r < srcData.length) :
    ∃ v : ByteArray, v.length = declared p srcData r ∧
    ((decompress p srcData dstData r copied left).Safe srcData r ↔
      p.alloc (declared p srcData r) = false ∨ (answer p srcData r).1 = SZ_OK ∨
        (⟨r, copied (usedOf p srcData r), srcData.length⟩ : Vec.Span).Inside ∧
        (⟨0, copied (usedOf p srcData r), declared p srcData r⟩ : Vec.Span).Inside ∧
        Vec.resize (Vec.memcpy v 0 (Vec.peeks p.wild srcData r (copied (usedOf p srcData r))))
          (left (usedOf p srcData r)) 0 = srcData.drop r) := by
  have hl : LzmaLen = 5 := rfl
  have hs : ssLen = 8 := rfl
  have hheader : ∀ sp ∈ ([⟨r, LzmaLen, srcData.length⟩, ⟨LzmaLen + r, ssLen, srcData.length⟩] :
      List Vec.Span), sp.Inside := by
    refine List.forall_mem_cons.mpr ⟨.inr ?_, List.forall_mem_singleton.mpr (.inr ?_)⟩ <;>
    · dsimp only
      omega
  have hcall : ∀ sp ∈ ([⟨0, declared p srcData r, declared p srcData r⟩,
      ⟨LzmaLen + ssLen + r, srcData.length - (LzmaLen + ssLen + r), srcData.length⟩] :
      List Vec.Span), sp.Inside := by
    refine List.forall_mem_cons.mpr ⟨span_whole _, List.forall_mem_singleton.mpr (.inr ?_)⟩
    dsimp only
    omega
  have hbody : ∀ len ∈ some (srcData.length - (LzmaLen + ssLen + r)),
      len + (LzmaLen + ssLen + r) = srcData.length := by
    intro len hmem
    cases hmem
    omega
  refine ⟨Vec.memcpy (Vec.resize dstData (declared p srcData r) 0) 0 (answer p srcData r).2,
    by rw [Vec.memcpy_length, Vec.resize_length], ?_⟩
  rw [decompress_long p dstData copied left hn hlen]
  dsimp only
  cases halloc : p.alloc (declared p srcData r) with
  | false =>
    refine iff_of_true ⟨fun _ h => absurd h (Option.not_mem_none _), hheader,
      fun _ h => absurd h (Option.not_mem_none _)⟩ (.inl rfl)
  | true =>
    rw [if_pos rfl]
    by_cases hok : (answer p srcData r).1 = SZ_OK
    · rw [if_pos hok]
      refine iff_of_true ⟨hbody, fun sp hsp => ?_, fun ret hret hne => ?_⟩ (.inr (.inl hok))
      · exact (List.mem_append.mp hsp).elim (hheader sp) (hcall sp)
      · cases hret
        exact absurd hok hne
    · rw [if_neg hok]
      constructor
      · intro h
        have hraw := h.raw _ rfl hok
        refine .inr (.inr ⟨h.inside _ ?_, h.inside _ ?_, ?_⟩)
        · exact List.mem_append_right _ (List.mem_cons_self ..)
        · exact List.mem_append_right _ (List.mem_cons_of_mem _ (List.mem_singleton_self _))
        · exact (Prod.mk.inj (Option.some.inj hraw)).2
      · rintro (h | h | ⟨h1, h2, h3⟩)
        · cases h
        · exact absurd h hok
        · refine ⟨hbody, fun sp hsp => ?_, fun _ _ _ => ?_⟩
          · rcases List.mem_append.mp hsp with hsp | hsp
            · exact (List.mem_append.mp hsp).elim (hheader sp) (hcall sp)
            · exact (List.forall_mem_cons.mpr ⟨h1, List.forall_mem_singleton.mpr h2⟩) sp hsp
          · exact congrArg (fun v => some (false, v)) h3

end

/-- the vector overload: the copy would be as long as what was consumed -/
theorem decompress_vec_safe (p : LzmaPlatform) {srcData : ByteArray} (dstData : ByteArray)
    (hn : srcData.length < 18446744073709551616) :
    (decompress p srcData dstData 0 id id).Safe srcData 0 ↔
      LzmaLen + ssLen ≤ srcData.length ∧ (srcData.length = LzmaLen + ssLen ∨
        p.alloc (declared p srcData 0) = false ∨ (answer p srcData 0).1 = SZ_OK) := by
  rcases Nat.lt_trichotomy srcData.length (LzmaLen + ssLen + 0) with hlt | heq | hgt
  · refine iff_of_false (decompress_short p dstData id id (by decide) hlt) fun h => ?_
    omega
  · exact iff_of_true (decompress_header p dstData id id heq) ⟨by omega, .inl (by omega)⟩
  · obtain ⟨v, hv, hiff⟩ := decompress_safe p dstData id id hn hgt
    refine hiff.trans ⟨fun h => ⟨by omega, .inr ?_⟩, fun h => ?_⟩
    · rcases h with h | h | ⟨_, _, h⟩
      · exact .inl h
      · exact .inr h
      · -- the copy is as long as what was consumed, which is less than the source
        have hused : usedOf p srcData 0 ≤ _ := usedOf_le p
        have hl : LzmaLen = 5 := rfl
        have hcopy := congrArg List.length h
        rw [Vec.resize_length, List.length_drop] at hcopy
        dsimp only [id] at hcopy
        omega
    · rcases h.2 with h | h | h
      · omega
      · exact .inl h
      · exact .inr (.inl h)

/-- the pointer overload: the copy is as long as the source -/
theorem decompress_ptr_safe (p : LzmaPlatform) {srcData : ByteArray} (dstData : ByteArray)
    (hn : srcData.length < 18446744073709551616) {r : Nat} (hmax : (r : Int) ≤ INT32_MAX) :
    (decompress p srcData dstData r (fun _ => srcData.length)
        fun _ => toSize (srcData.length - r)).Safe srcData r ↔
      LzmaLen + ssLen + r ≤ srcData.length ∧ (srcData.length = LzmaLen + ssLen + r ∨
        p.alloc (declared p srcData r) = false ∨ (answer p srcData r).1 = SZ_OK ∨
        r = 0 ∧ srcData.length ≤ declared p srcData r) := by
  rcases Nat.lt_trichotomy srcData.length (LzmaLen + ssLen + r) with hlt | heq | hgt
  · refine iff_of_false (decompress_short p dstData _ _ hmax hlt) fun h => ?_
    omega
  · exact iff_of_true (decompress_header p dstData _ _ heq) ⟨by omega, .inl heq⟩
  · obtain ⟨v, hv, hiff⟩ := decompress_safe p dstData (fun _ => srcData.length)
      (fun _ => toSize (srcData.length - r)) hn hgt
    refine hiff.trans ⟨fun h => ⟨by omega, .inr ?_⟩, fun h => ?_⟩
    · rcases h with h | h | ⟨h1, h2, _⟩
      · exact .inl h
      · exact .inr (.inl h)
      · refine .inr (.inr ?_)
        rcases h1 with h1 | ⟨_, h1⟩
        · dsimp only at h1
          omega
        rcases h2 with h2 | ⟨_, h2⟩
        · dsimp only at h2
          omega
        dsimp only at h1 h2
        exact ⟨by omega, by omega⟩
    · rcases h.2 with h | h | h | ⟨h0, hdeclared⟩
      · omega
      · exact .inl h
      · exact .inr (.inl h)
      · refine .inr (.inr ⟨.inr ⟨Int.natCast_nonneg _, ?_⟩, .inr ⟨Int.le_refl _, ?_⟩, ?_⟩)
        · dsimp only
          omega
        · dsimp only
          omega
        · subst h0
          have hall := Vec.peeks_all p.wild srcData
          have hcut := Vec.resize_memcpy v 0 srcData (0 : BYTE) (by omega)
          rw [List.take_zero, List.nil_append] at hcut
          show Vec.resize (Vec.memcpy v 0 (Vec.peeks p.wild srcData 0 srcData.length)) _ 0 = _
          rw [hall, List.drop_zero, show toSize (srcData.length - (0 : Nat)) = srcData.length + 0 by
            rw [toSize_eq (by omega) (by omega)]; omega]
          exact hcut

/-- **When `LzmaDecomp` is safe on a content**, by the status and the size that it declares. -/
theorem LzmaDecomp_safe_iff (p : LzmaPlatform) {srcData : ByteArray} (dstData : ByteArray)
    (hn : srcData.length < 18446744073709551616) {reservedBytes : Int}
    (hr : reservedBytes ≤ INT32_MAX) :
    ((LzmaDecompVec p srcData dstData).Safe srcData 0 ↔
      LzmaLen + ssLen ≤ srcData.length ∧ (srcData.length = LzmaLen + ssLen ∨
        p.alloc (declared p srcData 0) = false ∨ (answer p srcData 0).1 = SZ_OK)) ∧
    ((LzmaDecompPtr p srcData dstData reservedBytes).Safe srcData reservedBytes.toNat ↔
      LzmaLen + ssLen + reservedBytes.toNat ≤ srcData.length ∧
        (srcData.length = LzmaLen + ssLen + reservedBytes.toNat ∨
          p.alloc (declared p srcData reservedBytes.toNat) = false ∨
          (answer p srcData reservedBytes.toNat).1 = SZ_OK ∨
          reservedBytes.toNat = 0 ∧ srcData.length ≤ declared p srcData reservedBytes.toNat)) := by
  have hptr : LzmaDecompPtr p srcData dstData reservedBytes
      = decompress p srcData dstData reservedBytes.toNat (fun _ => srcData.length)
        fun _ => toSize (srcData.length - reservedBytes.toNat) := by
    have hreserved : (if reservedBytes < 0 then 0 else reservedBytes.toNat)
        = reservedBytes.toNat := by
      split <;> omega
    rw [LzmaDecompPtr, hreserved]
  have hmax : ((reservedBytes.toNat : Nat) : Int) ≤ INT32_MAX := by
    unfold INT32_MAX at hr ⊢
    omega
  rw [hptr]
  exact ⟨decompress_vec_safe p dstData hn, decompress_ptr_safe p dstData hn hmax⟩

def SZ_ERROR_MEM : Int := 2
def SZ_ERROR_INPUT_EOF : Int := 6

/-- a host whose `LzmaUncompress` is given fewer bytes than the range decoder starts with -/
def eofPlatform : LzmaPlatform where
  toPlatform := { lettersPlatform with
    lzma := ⟨fun _ _ _ => (SZ_ERROR_INPUT_EOF, []), fun _ _ _ => Nat.zero_le _⟩ }
  consumed := fun _ _ _ => 0
  consumed_le := fun _ _ _ => Nat.zero_le _

/-- a content of one byte behind the header, which declares `n` bytes -/
def declaring (n : BYTE) : ByteArray := [0x5d, 0, 0, 1, 0, n, 0, 0, 0, 0, 0, 0, 0, 0x41]

/-- one that declares as much as it has is left as it is -/
theorem LzmaDecomp_safe_declared :
    (LzmaDecompPtr eofPlatform (declaring 14) [] 0).Safe (declaring 14) 0 :=
  (LzmaDecomp_safe_iff eofPlatform [] (by decide) (by decide)).2.mpr (by decide)

/-- a content of one byte is read behind its end; one that declares nothing is copied to an empty
vector -/
theorem LzmaDecomp_outside :
    ¬ (LzmaDecompVec eofPlatform [0x41] []).Safe [0x41] 0 ∧
    ¬ (LzmaDecompPtr eofPlatform [0x41] [] 0).Safe [0x41] 0 ∧
    ¬ (LzmaDecompVec eofPlatform (declaring 0) []).Safe (declaring 0) 0 ∧
    ¬ (LzmaDecompPtr eofPlatform (declaring 0) [] 0).Safe (declaring 0) 0 := by
  have hshort : ∀ copied left : Nat → Nat,
      ¬ (decompress eofPlatform [0x41] [] 0 copied left).Safe [0x41] 0 :=
    fun copied left => decompress_short eofPlatform [] copied left (by decide) (by decide)
  refine ⟨hshort id id, hshort (fun _ => 1) fun _ => toSize (1 - 0), fun h => ?_, fun h => ?_⟩
  · have hraw := h.raw SZ_ERROR_INPUT_EOF (by decide) (by decide)
    revert hraw
    decide
  · have hcopy := h.inside ⟨0, 14, 0⟩ (by decide)
    revert hcopy
    decide

/-! ## compressing -/

/-- `LzmaCompress(dest, &destLen, src, srcLen, outProps, ..)`: for the room that `destLen` tells of
and a source, the return code, the bytes written and the properties -/
structure LzmaCompress where
  compress : Nat → ByteArray → Int × ByteArray × ByteArray
  fits : ∀ room source, (compress room source).2.1.length ≤ room
  props : ∀ room source, (compress room source).2.2.length = LzmaLen

/-- what was compressed is uncompressed again, with as much room as the source has; a stream is not
empty -/
def LzmaUndoes (l : Lzma) (z : LzmaCompress) : Prop :=
  ∀ room source written props, z.compress room source = (SZ_OK, written, props) →
    l.uncompress source.length written props = (SZ_OK, source) ∧ written ≠ []

/-- the bytes of a number, the lowest first -/
def sizeBytes : Nat → Nat → ByteArray
  | 0, _ => []
  | k + 1, n => BitVec.ofNat 8 n :: sizeBytes k (n / 256)

/-- a `size_t` as the host stores it -/
def storeSize : ByteOrder → Nat → ByteArray
  | .little, n => sizeBytes ssLen n
  | .big, n => (sizeBytes ssLen n).reverse

/-- one call of `LzmaComp`: the room that `LzmaCompress` is told of, and the result, `none` when
`resize` throws -/
structure Compression where
  told : Option Vec.Span
  result : Option (Bool × ByteArray)

section
variable (order : ByteOrder) (alloc : Nat → Bool) (z : LzmaCompress)

/-- the body of the overloads -/
def lzmaComp (srcData dstData : ByteArray) (reserved : Nat) : Compression :=
  let srcLen := srcData.length
  let destLen := toSize (srcLen * 2 + LzmaLen + ssLen + reserved : Nat)
  if srcLen = 0 then ⟨none, some (false, dstData)⟩
  else if alloc destLen then
    let dstData := Vec.resize dstData destLen 0
    let told : Vec.Span := ⟨(LzmaLen + ssLen + reserved : Nat), destLen, dstData.length⟩
    let (ret, written, outProp) := z.compress destLen srcData
    let dstData := Vec.memcpy dstData (LzmaLen + ssLen + reserved : Nat) written
    if ret = SZ_OK then
      let dstData := Vec.memcpy dstData reserved outProp
      let dstData := Vec.memcpy dstData (reserved + LzmaLen : Nat) (storeSize order srcLen)
      ⟨some told, some (true, Vec.resize dstData
        (toSize (written.length + (LzmaLen + ssLen + reserved) : Nat)) 0)⟩
    else
      ⟨some told, some (false, Vec.resize (Vec.memcpy dstData reserved srcData)
        (toSize (srcLen + reserved : Nat)) 0)⟩
  else ⟨none, none⟩

/-- `LzmaComp(srcData, dstData)` -/
def LzmaCompVec (srcData dstData : ByteArray) : Compression :=
  lzmaComp order alloc z srcData dstData 0

/-- `LzmaComp(srcData, srcDatalen, dstData, reservedBytes)` -/
def LzmaCompPtr (srcData dstData : ByteArray) (reservedBytes : Int) : Compression :=
  lzmaComp order alloc z srcData dstData (if reservedBytes < 0 then 0 else reservedBytes.toNat)

end

/-- what is told of is there behind the offset -/
def Roomy (told : Vec.Span) : Prop := told.start + told.len ≤ told.size

section
variable (p : LzmaPlatform) (z : LzmaCompress) (x dstData dstData' : ByteArray)

/-- what the wrappers are for, with `r` reserved bytes -/
structure Wraps (r : Nat) : Prop where
  told_vec : ∀ t ∈ (LzmaCompVec p.order p.alloc z x dstData).told, Roomy t
  told_ptr : ∀ t ∈ (LzmaCompPtr p.order p.alloc z x dstData r).told, Roomy t
  back_vec : ∀ out, (LzmaCompVec p.order p.alloc z x dstData).result = some (true, out) →
    (LzmaDecompVec p out dstData').result = some (true, x)
  back_ptr : ∀ out, (LzmaCompPtr p.order p.alloc z x dstData r).result = some (true, out) →
    (LzmaDecompPtr p out dstData' r).result = some (true, x)
  vec_ptr : ∀ out, (LzmaCompVec p.order p.alloc z x dstData).result = some (true, out) →
    (LzmaDecompPtr p out dstData' 0).result = some (true, x)
  ptr_vec : ∀ out, (LzmaCompPtr p.order p.alloc z x dstData 0).result = some (true, out) →
    (LzmaDecompVec p out dstData').result = some (true, x)
  raw_vec : ∀ out, (LzmaCompVec p.order p.alloc z x dstData).result = some (false, out) → out = x
  raw_ptr : ∀ out, (LzmaCompPtr p.order p.alloc z x dstData r).result = some (false, out) →
    ∃ front, front.length = r ∧ out = front ++ x

end

section
variable {order : ByteOrder} {alloc : Nat → Bool} {z : LzmaCompress} {x : ByteArray}
  (dstData : ByteArray) (r : Nat)

/-- **`LzmaCompress` is told of more room than is there**, whenever it is called. -/
theorem lzmaComp_told (hx : x ≠ []) :
    (∀ t ∈ (lzmaComp order alloc z x dstData r).told, Roomy t) ↔
      alloc (toSize (x.length * 2 + LzmaLen + ssLen + r : Nat)) = false := by
  have hn : x.length ≠ 0 := fun h => hx (List.eq_nil_of_length_eq_zero h)
  rw [lzmaComp]
  dsimp only
  rw [if_neg hn]
  cases alloc (toSize (x.length * 2 + LzmaLen + ssLen + r : Nat)) with
  | false => exact iff_of_true (fun _ h => absurd h (Option.not_mem_none _)) rfl
  | true =>
    rw [if_pos rfl]
    refine iff_of_false (fun h => ?_) Bool.noConfusion
    have htold : Roomy ⟨(LzmaLen + ssLen + r : Nat),
        toSize (x.length * 2 + LzmaLen + ssLen + r : Nat),
        (Vec.resize dstData (toSize (x.length * 2 + LzmaLen + ssLen + r : Nat)) 0).length⟩ := by
      refine h _ ?_
      split <;> rfl
    unfold Roomy at htold
    dsimp only at htold
    rw [Vec.resize_length] at htold
    unfold LzmaLen at htold
    omega

theorem lzmaComp_throws (hx : x ≠ [])
    (h : alloc (toSize (x.length * 2 + LzmaLen + ssLen + r : Nat)) = false) :
    lzmaComp order alloc z x dstData r = ⟨none, none⟩ := by
  have hn : x.length ≠ 0 := fun h => hx (List.eq_nil_of_length_eq_zero h)
  rw [lzmaComp]
  dsimp only
  rw [if_neg hn, h, if_neg Bool.false_ne_true]

end

theorem LzmaCompPtr_eq (order : ByteOrder) (alloc : Nat → Bool) (z : LzmaCompress)
    (x dstData : ByteArray) (r : Nat) :
    LzmaCompPtr order alloc z x dstData r = lzmaComp order alloc z x dstData r := by
  have hr : (if (r : Int) < 0 then 0 else (r : Int).toNat) = r := by
    split <;> omega
  rw [LzmaCompPtr, hr]

/-- **The wrappers stay within their buffers only if both calls of `resize` throw.** -/
theorem lzma_wrappers_iff (p : LzmaPlatform) (z : LzmaCompress) {x : ByteArray} (hx : x ≠ [])
    (dstData dstData' : ByteArray) (r : Nat) :
    Wraps p z x dstData dstData' r ↔
      p.alloc (toSize (x.length * 2 + LzmaLen + ssLen : Nat)) = false ∧
        p.alloc (toSize (x.length * 2 + LzmaLen + ssLen + r : Nat)) = false := by
  constructor
  · intro h
    have hptr := h.told_ptr
    rw [LzmaCompPtr_eq] at hptr
    exact ⟨(lzmaComp_told dstData 0 hx).mp h.told_vec, (lzmaComp_told dstData r hx).mp hptr⟩
  · rintro ⟨h0, hr⟩
    have hnone : ∀ {c : Compression}, c = ⟨none, none⟩ →
        (∀ t ∈ c.told, Roomy t) ∧ ∀ ok out, c.result ≠ some (ok, out) := by
      rintro c rfl
      exact ⟨fun _ h => absurd h (Option.not_mem_none _), fun _ _ h => by cases h⟩
    obtain ⟨t1, n1⟩ := hnone (c := LzmaCompVec p.order p.alloc z x dstData)
      (lzmaComp_throws dstData 0 hx h0)
    obtain ⟨_, n2⟩ := hnone (c := LzmaCompPtr p.order p.alloc z x dstData 0)
      ((LzmaCompPtr_eq _ _ z x dstData 0).trans (lzmaComp_throws dstData 0 hx h0))
    obtain ⟨t3, n3⟩ := hnone (c := LzmaCompPtr p.order p.alloc z x dstData r)
      ((LzmaCompPtr_eq _ _ z x dstData r).trans (lzmaComp_throws dstData r hx hr))
    exact ⟨t1, t3, fun out h => absurd h (n1 true out), fun out h => absurd h (n3 true out),
      fun out h => absurd h (n1 true out), fun out h => absurd h (n2 true out),
      fun out h => absurd h (n1 false out), fun out h => absurd h (n3 false out)⟩

/-! ## what holds as long as `LzmaCompress` writes no more than is there -/

theorem sizeBytes_length : ∀ k n : Nat, (sizeBytes k n).length = k
  | 0, _ => rfl
  | k + 1, n => congrArg Nat.succ (sizeBytes_length k (n / 256))

theorem storeSize_length (order : ByteOrder) (n : Nat) : (storeSize order n).length = ssLen := by
  cases order with
  | little => exact sizeBytes_length ssLen n
  | big => exact List.length_reverse.trans (sizeBytes_length ssLen n)

theorem foldr_sizeBytes : ∀ k n : Nat,
    (sizeBytes k n).foldr (fun b m => b.toNat + 256 * m) 0 = n % 256 ^ k
  | 0, n => by rw [Nat.pow_zero, Nat.mod_one]; rfl
  | k + 1, n => by
    show (BitVec.ofNat 8 n).toNat + 256 * (sizeBytes k (n / 256)).foldr _ 0 = _
    rw [foldr_sizeBytes k (n / 256), BitVec.toNat_ofNat,
      show 256 ^ (k + 1) = 256 * 256 ^ k from Nat.pow_succ', Nat.mod_mul]

/-- a stored size is read again -/
theorem loadSize_storeSize (order : ByteOrder) {n : Nat} (h : n < 18446744073709551616) :
    loadSize order (storeSize order n) = n := by
  have hread := (foldr_sizeBytes ssLen n).trans (Nat.mod_eq_of_lt h)
  cases order with
  | little => exact hread
  | big =>
    show (sizeBytes ssLen n).reverse.foldl (fun m b => 256 * m + b.toNat) 0 = n
    rw [List.foldl_reverse]
    simpa only [Nat.add_comm] using hread

section
variable (order : ByteOrder) {alloc : Nat → Bool} {z : LzmaCompress} {x : ByteArray}
  (dstData : ByteArray) {r : Nat}

/-- the room and the call are those of a size that is not cut -/
theorem lzmaComp_called (hx : x ≠ []) (hsize : x.length * 2 + 13 + r < 9223372036854775808)
    (halloc : alloc (x.length * 2 + 13 + r) = true) :
    ∃ d, d.length = x.length * 2 + 13 + r ∧ (lzmaComp order alloc z x dstData r).result =
      let c := z.compress (x.length * 2 + 13 + r) x
      let d := Vec.memcpy d ((13 + r : Nat) : Int) c.2.1
      if c.1 = SZ_OK then
        some (true, Vec.resize (Vec.memcpy (Vec.memcpy d r c.2.2) (r + 5 : Nat)
          (storeSize order x.length)) (c.2.1.length + (13 + r)) 0)
      else some (false, Vec.resize (Vec.memcpy d r x) (x.length + r) 0) := by
  have hn : x.length ≠ 0 := fun h => hx (List.eq_nil_of_length_eq_zero h)
  have hcut : ∀ {n : Nat}, n < 18446744073709551616 → toSize (n : Int) = n := fun h =>
    toSize_eq (Int.natCast_nonneg _) (by omega)
  have hlen : toSize (x.length * 2 + LzmaLen + ssLen + r : Nat) = x.length * 2 + 13 + r :=
    hcut (by unfold LzmaLen ssLen; omega)
  have hfit := z.fits (x.length * 2 + 13 + r) x
  have hlast : toSize ((z.compress (x.length * 2 + 13 + r) x).2.1.length +
      (LzmaLen + ssLen + r) : Nat) = (z.compress (x.length * 2 + 13 + r) x).2.1.length + (13 + r) :=
    hcut (by unfold LzmaLen ssLen; omega)
  refine ⟨Vec.resize dstData (x.length * 2 + 13 + r) 0, Vec.resize_length _ _ _, ?_⟩
  rw [lzmaComp]
  dsimp only
  rw [if_neg hn, hlen, halloc, if_pos rfl, hlast, hcut (by omega : x.length + r < _)]
  split
  · rfl
  · rfl

/-- **Without success the reserved bytes and the source are left.** -/
theorem lzmaComp_raw (hx : x ≠ []) (hsize : x.length * 2 + 13 + r < 9223372036854775808)
    (halloc : alloc (x.length * 2 + 13 + r) = true)
    (hz : (z.compress (x.length * 2 + 13 + r) x).1 ≠ SZ_OK) :
    ∃ front, front.length = r ∧
      (lzmaComp order alloc z x dstData r).result = some (false, front ++ x) := by
  obtain ⟨d, hd, hres⟩ := lzmaComp_called order (z := z) dstData hx hsize halloc
  rw [hres]
  dsimp only
  rw [if_neg hz]
  generalize hv : Vec.memcpy d ((13 + r : Nat) : Int) _ = v
  have hlen : v.length = x.length * 2 + 13 + r := by
    rw [← hv, Vec.memcpy_length, hd]
  refine ⟨v.take r, by rw [List.length_take]; omega, ?_⟩
  rw [Vec.resize_memcpy v r x 0 (by omega)]

/-- **With success, as long as it writes no more than is there: the reserved bytes, the properties,
the size and the stream.** -/
theorem lzmaComp_stream (hx : x ≠ []) (hsize : x.length * 2 + 13 + r < 9223372036854775808)
    (halloc : alloc (x.length * 2 + 13 + r) = true) {written props : ByteArray}
    (hz : z.compress (x.length * 2 + 13 + r) x = (SZ_OK, written, props))
    (hfit : written.length ≤ x.length * 2) :
    ∃ front, front.length = r ∧ (lzmaComp order alloc z x dstData r).result
      = some (true, front ++ (props ++ storeSize order x.length) ++ written) := by
  obtain ⟨d, hd, hres⟩ := lzmaComp_called order (z := z) dstData hx hsize halloc
  have hprops : props.length = 5 := by
    have := z.props (x.length * 2 + 13 + r) x
    rwa [hz] at this
  have hstored : (props ++ storeSize order x.length).length = 13 := by
    rw [List.length_append, storeSize_length, hprops]
    rfl
  rw [hres, hz]
  dsimp only
  rw [if_pos rfl]
  have hv := Vec.memcpy_length d ((13 + r : Nat) : Int) written
  have hbehind : (Vec.memcpy d ((13 + r : Nat) : Int) written).take (written.length + (13 + r))
      = d.take (13 + r) ++ written := by
    rw [Nat.add_comm]
    exact Vec.memcpy_take_src d (13 + r) written (by omega)
  generalize Vec.memcpy d ((13 + r : Nat) : Int) written = v at hv hbehind
  have hheader := Vec.memcpy_memcpy v r props (storeSize order x.length)
    (by rw [storeSize_length, hprops, hv, hd]; unfold ssLen; omega)
  rw [hprops] at hheader
  rw [hheader]
  refine ⟨v.take r, by rw [List.length_take]; omega, ?_⟩
  -- the header is copied over what stands in front of the stream
  have hdrop : (v.take (written.length + (13 + r))).drop (r + 13) = written := by
    rw [hbehind, Nat.add_comm r 13]
    exact List.drop_left' (by rw [List.length_take]; omega)
  have hcut : Vec.resize (Vec.memcpy v r (props ++ storeSize order x.length))
      (written.length + (13 + r)) 0
      = v.take r ++ (props ++ storeSize order x.length) ++ written := by
    rw [Vec.resize_shrink _ _ _ (by rw [Vec.memcpy_length]; omega),
      Vec.memcpy_inside v r _ (by omega), hstored]
    have hl : (v.take r ++ (props ++ storeSize order x.length)).length = r + 13 := by
      rw [List.length_append, List.length_take, hstored]
      omega
    rw [List.take_append, List.take_of_length_le (by omega), hl]
    rw [List.drop_take] at hdrop
    rw [show written.length + (13 + r) - (r + 13) = written.length by omega] at hdrop ⊢
    rw [hdrop]
  rw [hcut]

end

/-- **`LzmaDecomp` behind the reserved bytes**: what the stream uncompresses to. -/
theorem decompress_stream (p : LzmaPlatform) (dstData : ByteArray) (copied left : Nat → Nat)
    {front props x written : ByteArray} (hprops : props.length = LzmaLen) (hne : written ≠ [])
    (hn : (front ++ (props ++ storeSize p.order x.length) ++ written).length
      < 18446744073709551616) (hx : x.length < 18446744073709551616)
    (halloc : p.alloc x.length = true)
    (hu : p.lzma.uncompress x.length written props = (SZ_OK, x)) :
    (decompress p (front ++ (props ++ storeSize p.order x.length) ++ written) dstData front.length
      copied left).result = some (true, x) := by
  have hpos := List.length_pos_of_ne_nil hne
  have hstored := storeSize_length p.order x.length
  have hlen : LzmaLen + ssLen + front.length
      < (front ++ (props ++ storeSize p.order x.length) ++ written).length := by
    simp only [List.length_append, hprops, hstored]
    omega
  have hdrop : ∀ m : ByteArray, (front ++ m).drop front.length = m := fun m => List.drop_left
  have hfive : ∀ m : ByteArray, (props ++ m).drop LzmaLen = m := fun m => List.drop_left' hprops
  have height : ∀ m : ByteArray, (storeSize p.order x.length ++ m).drop ssLen = m :=
    fun m => List.drop_left' hstored
  have hdeclared : declared p (front ++ (props ++ storeSize p.order x.length) ++ written)
      front.length = x.length := by
    rw [declared, Nat.add_comm, ← List.drop_drop, List.append_assoc, hdrop, List.append_assoc,
      hfive, List.take_left' hstored, loadSize_storeSize p.order hx]
  have hanswer : answer p (front ++ (props ++ storeSize p.order x.length) ++ written)
      front.length = (SZ_OK, x) := by
    rw [answer, hdeclared, Nat.add_comm, ← List.drop_drop, List.append_assoc, hdrop,
      ← List.drop_drop, List.append_assoc, hfive, height, List.take_left' hprops, hu]
  rw [decompress_long p dstData copied left hn hlen, hdeclared, hanswer]
  dsimp only
  rw [halloc, if_pos rfl, if_pos rfl]
  have hcopy := Vec.resize_memcpy (Vec.resize dstData x.length 0) 0 x 0
    (by rw [Vec.resize_length, Nat.zero_add])
  rw [List.take_zero, List.nil_append] at hcopy
  exact congrArg (fun v => some (true, v)) hcopy

/-- **As long as `LzmaCompress` writes no more than is there, `LzmaDecomp` gives back the source**,
from either overload by either overload. -/
theorem lzma_round_trip {p : LzmaPlatform} {z : LzmaCompress} (hu : LzmaUndoes p.lzma z)
    {x : ByteArray} (hx : x ≠ []) (dstData dstData' : ByteArray) {r : Nat}
    (hsize : x.length * 2 + 13 + r < 9223372036854775808)
    (halloc : p.alloc (x.length * 2 + 13 + r) = true) (halloc' : p.alloc x.length = true)
    {written props : ByteArray}
    (hz : z.compress (x.length * 2 + 13 + r) x = (SZ_OK, written, props))
    (hfit : written.length ≤ x.length * 2) :
    ∃ out, (LzmaCompPtr p.order p.alloc z x dstData r).result = some (true, out) ∧
      (LzmaDecompPtr p out dstData' r).result = some (true, x) ∧
      (r = 0 → (LzmaCompVec p.order p.alloc z x dstData).result = some (true, out) ∧
        (LzmaDecompVec p out dstData').result = some (true, x)) := by
  obtain ⟨hback, hne⟩ := hu _ x written props hz
  have hprops : props.length = LzmaLen := by
    have := z.props (x.length * 2 + 13 + r) x
    rwa [hz] at this
  obtain ⟨front, hfront, hout⟩ :=
    lzmaComp_stream p.order dstData hx hsize halloc hz hfit
  have hlen : (front ++ (props ++ storeSize p.order x.length) ++ written).length
      < 18446744073709551616 := by
    simp only [List.length_append, hprops, storeSize_length, hfront]
    unfold LzmaLen ssLen
    omega
  have hdecomp := fun copied left => decompress_stream p dstData' copied left hprops hne hlen
    (by omega) halloc' hback
  rw [hfront] at hdecomp
  have hr : (if (r : Int) < 0 then 0 else (r : Int).toNat) = r := by
    split <;> omega
  refine ⟨_, (congrArg Compression.result (LzmaCompPtr_eq _ _ z x dstData r)).trans hout, ?_, ?_⟩
  · rw [LzmaDecompPtr, hr]
    exact hdecomp _ _
  · rintro rfl
    exact ⟨hout, hdecomp id id⟩

/-! ## wrappers on fixed data -/

/-- an `LzmaCompress` for which there is no memory -/
def LzmaCompress.noMemory : LzmaCompress where
  compress := fun _ _ => (SZ_ERROR_MEM, [], List.replicate LzmaLen 0)
  fits := fun _ _ => Nat.zero_le _
  props := fun _ _ => rfl

/-- without memory for the vectors nothing is told -/
theorem lzma_wrappers_throw :
    Wraps { eofPlatform with alloc := fun _ => false } .noMemory [0x41] [] [] 0 :=
  (lzma_wrappers_iff _ .noMemory (by decide) [] [] 0).mpr ⟨rfl, rfl⟩

/-- one byte: 15 bytes are told of behind the 13th of 15 -/
theorem lzma_told_too_much :
    (LzmaCompVec .little eofPlatform.alloc .noMemory [0x41] []).told = some ⟨13, 15, 15⟩ ∧
      ¬ Wraps eofPlatform .noMemory [0x41] [] [] 0 := by
  refine ⟨by decide, fun h => ?_⟩
  have htold := h.told_vec ⟨13, 15, 15⟩ (by decide)
  unfold Roomy at htold
  dsimp only at htold
  omega

end Netwb
