import Netwb.Net.InflateWidth

/-!
# Round trips with reserved space

`zlibCompress2` and the pointer overload of `zlibCompress` of `net/stream.cpp`, with their sizes in
words of `w` bits, and what `zlibDecompress2` and `zlibDecompress` make of their output once the
caller has written a header into the reserved space.  `resize` grants every size.

The format does not say whether `compress` has succeeded: the receiver tries to decompress and takes
the bytes as they are when that fails.

* `reserved_round_trip_iff`  when both pairs give back the header and the source, and no copy leaves
                             its vector: the words have to suffice (`Suffices`), and `compress`
                             succeeds or the source is not taken for a stream of something else; the
                             pointer overload of `zlibCompress` moreover makes no room for reserved
                             bytes when it fails;
* `suffices_small`           sizes for which the words suffice.
-/

namespace Netwb
open Wire

namespace Width

section
variable (w : Nat) (z : Deflate)

/-- `zlibCompress2(dstData, srcData, reservedBytes)` -/
def zlibCompress2 (srcData dstData : ByteArray) (reservedBytes : Nat) : Filled :=
  let srcDataLen := srcData.length
  let dstDataLen := (srcDataLen + 16) % 2 ^ w
  if srcDataLen = 0 then ⟨false, dstData, []⟩
  else
    let dstData := Vec.resize dstData ((dstDataLen + reservedBytes) % 2 ^ w) 0
    let room : Vec.Span := ⟨reservedBytes, dstDataLen, dstData.length⟩
    let (ret, written) := z.compress dstDataLen srcData
    let dstData := Vec.memcpy dstData reservedBytes written
    if ret = Z_OK then
      ⟨true, Vec.resize dstData ((written.length + reservedBytes) % 2 ^ w) 0, [room]⟩
    else
      let dstData := Vec.resize dstData ((srcDataLen + reservedBytes) % 2 ^ w) 0
      ⟨false, Vec.memcpy dstData reservedBytes srcData,
        [room, ⟨reservedBytes, srcDataLen, dstData.length⟩]⟩

/-- `zlibCompress(srcData, srcDataLen, dstData, reservedLen)`: a negative `reservedLen` asks for the
mark in front.  The fallback makes no room for the reserved bytes. -/
def zlibCompressPtr (srcData dstData : ByteArray) (reservedLen : Int) : Filled :=
  let reservedBytes := if reservedLen ≥ 0 then reservedLen.toNat else zipString.length
  let srcDataLen := srcData.length
  let dstDataLen := (2 * srcDataLen + 16) % 2 ^ w
  if srcDataLen = 0 then ⟨false, dstData, []⟩
  else
    let dstData := Vec.resize dstData ((dstDataLen + reservedBytes) % 2 ^ w) 0
    let room : Vec.Span := ⟨reservedBytes, dstDataLen, dstData.length⟩
    let (ret, written) := z.compress dstDataLen srcData
    let dstData := Vec.memcpy dstData reservedBytes written
    if ret = Z_OK then
      let dstData := Vec.resize dstData ((written.length + reservedBytes) % 2 ^ w) 0
      if reservedLen < 0 then
        ⟨true, Vec.memcpy dstData 0 zipString, [room, ⟨0, zipString.length, dstData.length⟩]⟩
      else ⟨true, dstData, [room]⟩
    else
      let dstData := Vec.resize dstData srcDataLen 0
      if reservedLen < 0 then
        ⟨false, Vec.memcpy dstData 0 srcData, [room, ⟨0, srcDataLen, dstData.length⟩]⟩
      else
        ⟨false, Vec.memcpy dstData reservedLen srcData,
          [room, ⟨reservedLen, srcDataLen, dstData.length⟩]⟩

end

section
variable (w : Nat) (z : Deflate) (i : Inflate) (x h dstData dstData' : ByteArray)

/-- `zlibCompress2`, the header filled in, and `zlibDecompress2` -/
def Reserved : Prop :=
  (∀ sp ∈ (zlibCompress2 w z x dstData h.length).spans, sp.Inside) ∧
    ∃ f, Machine.Comes (fun fuel => zlibDecompress2 w (fun _ => true) i fuel
        (Vec.memcpy (zlibCompress2 w z x dstData h.length).dstData 0 h) dstData' h.length)
        (.returned f) ∧
      f.dstData = h ++ x ∧ ∀ sp ∈ f.spans, sp.Inside

/-- `zlibCompress`, the header filled in, and `zlibDecompress`, the pointer overloads -/
def ReservedPtr : Prop :=
  (∀ sp ∈ (zlibCompressPtr w z x dstData h.length).spans, sp.Inside) ∧
    ∃ f, Machine.Comes (fun fuel => zlibDecompressPtr w (fun _ => true) i fuel
        (Vec.memcpy (zlibCompressPtr w z x dstData h.length).dstData 0 h) dstData' h.length)
        (.returned f) ∧
      f.dstData = h ++ x ∧ ∀ sp ∈ f.spans, sp.Inside

end

/-- what is stored of a source: its stream, or the source when `compress` does not succeed in the
room -/
def stored (z : Deflate) (room : Nat) (x : ByteArray) : ByteArray :=
  if z.succeedsIn room x then (z.compress room x).2 else x

/-- words of `w` bits suffice behind `r` reserved bytes: to tell `compress` of a room, to store `s`,
and to decompress it again -/
structure Suffices (w : Nat) (i : Inflate) (room r : Nat) (s : ByteArray) : Prop where
  told : room + r < 2 ^ w
  stored : s.length + r < 2 ^ w
  lands : LandsAt w (fun _ => true) ((r + s.length) * 10) r (Answers i s)

/-! ## what the compressors leave -/

section
variable {w : Nat}

theorem told_iff {len kept : Nat} (hk : kept < 2 ^ w) :
    (⟨kept, len, (len + kept) % 2 ^ w⟩ : Vec.Span).Inside ↔ len + kept < 2 ^ w :=
  ⟨told_fits hk, fun h => fits_inside (Nat.mod_eq_of_lt h)⟩

/-- what `compress` has written fits where its room does -/
theorem stored_fits {z : Deflate} {room r : Nat} {x : ByteArray} (hs : z.succeedsIn room x = true)
    (h : room + r < 2 ^ w) : (stored z room x).length + r < 2 ^ w := by
  have := z.fits room x
  rw [stored, if_pos hs]
  omega

/-- a stream is written to its place, and the vector cut behind it -/
theorem stream_placed {z : Deflate} {room r : Nat} {x : ByteArray} (dstData : ByteArray)
    (hs : z.succeedsIn room x = true) (h : room + r < 2 ^ w) :
    ∃ front, front.length = r ∧
      Vec.resize (Vec.memcpy (Vec.resize dstData ((room + r) % 2 ^ w) 0) (r : Int)
        (z.compress room x).2) (((z.compress room x).2.length + r) % 2 ^ w) 0
      = front ++ stored z room x := by
  have hfit := z.fits room x
  have hlen := Vec.resize_length dstData (room + r) (0 : BYTE)
  rw [stored, if_pos hs, Nat.mod_eq_of_lt h, Nat.mod_eq_of_lt (by omega)]
  refine ⟨(Vec.resize dstData (room + r) 0).take r, ?_, Vec.resize_memcpy _ r _ 0 (by omega)⟩
  rw [List.length_take]
  omega

theorem zlibCompress2_spec (z : Deflate) {x : ByteArray} (dstData : ByteArray) {r : Nat}
    (hx : x ≠ []) (hr : r < 2 ^ w) :
    ((∀ sp ∈ (zlibCompress2 w z x dstData r).spans, sp.Inside) ↔
      (x.length + 16) % 2 ^ w + r < 2 ^ w ∧
        (stored z ((x.length + 16) % 2 ^ w) x).length + r < 2 ^ w) ∧
    ((∀ sp ∈ (zlibCompress2 w z x dstData r).spans, sp.Inside) → ∃ front, front.length = r ∧
      (zlibCompress2 w z x dstData r).dstData
        = front ++ stored z ((x.length + 16) % 2 ^ w) x) := by
  have hn : x.length ≠ 0 := fun h => hx (List.eq_nil_of_length_eq_zero h)
  rw [zlibCompress2, if_neg hn]
  dsimp only
  rw [Vec.resize_length]
  generalize (x.length + 16) % 2 ^ w = room
  cases hs : z.succeedsIn room x with
  | true =>
    rw [if_pos (congrArg Prod.fst (Deflate.compress_ok hs))]
    dsimp only
    rw [List.forall_mem_singleton, told_iff hr]
    exact ⟨⟨fun h => ⟨h, stored_fits hs h⟩, fun h => h.1⟩, stream_placed dstData hs⟩
  | false =>
    rw [if_neg (Deflate.compress_not_ok hs)]
    dsimp only
    have hstored : stored z room x = x := if_neg (by rw [hs]; exact Bool.false_ne_true)
    rw [Vec.resize_length, List.forall_mem_cons, List.forall_mem_singleton, told_iff hr,
      told_iff hr, hstored]
    refine ⟨Iff.rfl, fun ⟨_, h⟩ => ⟨_, ?_, Vec.memcpy_fill _ r x ?_⟩⟩
    · rw [List.length_take, Vec.resize_length, Nat.mod_eq_of_lt h]
      omega
    · rw [Vec.resize_length, Nat.mod_eq_of_lt h, Nat.add_comm]

theorem zlibCompressPtr_ok {z : Deflate} {x : ByteArray} (dstData : ByteArray) {r : Nat}
    (hx : x ≠ []) (hr : r < 2 ^ w) (hs : z.succeedsIn ((2 * x.length + 16) % 2 ^ w) x = true) :
    ((∀ sp ∈ (zlibCompressPtr w z x dstData r).spans, sp.Inside) ↔
      (2 * x.length + 16) % 2 ^ w + r < 2 ^ w) ∧
    ((∀ sp ∈ (zlibCompressPtr w z x dstData r).spans, sp.Inside) → ∃ front, front.length = r ∧
      (zlibCompressPtr w z x dstData r).dstData
        = front ++ stored z ((2 * x.length + 16) % 2 ^ w) x) := by
  have hn : x.length ≠ 0 := fun h => hx (List.eq_nil_of_length_eq_zero h)
  have hz : (if (r : Int) ≥ 0 then (r : Int).toNat else zipString.length) = r :=
    if_pos (Int.natCast_nonneg r)
  rw [zlibCompressPtr, hz, if_neg hn]
  dsimp only
  rw [Vec.resize_length]
  generalize (2 * x.length + 16) % 2 ^ w = room at hs
  rw [if_pos (congrArg Prod.fst (Deflate.compress_ok hs)), if_neg (by omega)]
  dsimp only
  rw [List.forall_mem_singleton, told_iff hr]
  exact ⟨Iff.rfl, stream_placed dstData hs⟩

/-- **Without success the copy starts behind the reserved bytes of a vector that has no room for
them.** -/
theorem zlibCompressPtr_failed {z : Deflate} {x : ByteArray} (dstData : ByteArray) {r : Nat}
    (hx : x ≠ []) (hr : r < 2 ^ w) (hs : z.succeedsIn ((2 * x.length + 16) % 2 ^ w) x = false) :
    ((∀ sp ∈ (zlibCompressPtr w z x dstData r).spans, sp.Inside) ↔
      (2 * x.length + 16) % 2 ^ w + r < 2 ^ w ∧ r = 0) ∧
    (r = 0 → (zlibCompressPtr w z x dstData r).dstData = x) := by
  have hn : x.length ≠ 0 := fun h => hx (List.eq_nil_of_length_eq_zero h)
  have hz : (if (r : Int) ≥ 0 then (r : Int).toNat else zipString.length) = r :=
    if_pos (Int.natCast_nonneg r)
  rw [zlibCompressPtr, hz, if_neg hn]
  dsimp only
  rw [Vec.resize_length]
  generalize (2 * x.length + 16) % 2 ^ w = room at hs
  rw [if_neg (Deflate.compress_not_ok hs), if_neg (by omega)]
  dsimp only
  rw [Vec.resize_length, List.forall_mem_cons, List.forall_mem_singleton, told_iff hr]
  refine ⟨and_congr_right fun _ => ⟨fun hcopy => ?_, fun h0 => ?_⟩, fun h0 => ?_⟩
  · rcases hcopy with h | ⟨_, hle⟩
    · exact absurd h hn
    · dsimp only at hle
      omega
  · subst h0
    exact span_whole _
  · subst h0
    have hfill := Vec.memcpy_fill (Vec.resize (Vec.memcpy (Vec.resize dstData
      ((room + 0) % 2 ^ w) 0) ((0 : Nat) : Int) (z.compress room x).2) x.length 0) 0 x
      (by rw [Vec.resize_length, Nat.zero_add])
    rwa [List.take_zero, List.nil_append] at hfill

/-! ## what the decompressors make of it -/

theorem inflateLoop_returned (i : Inflate) (kept : Nat) (source : ByteArray) (fuel : Nat) :
    ∀ {dstData : ByteArray} {len : Nat} {e : Ending},
      inflateLoop w (fun _ => true) i kept source fuel dstData len = some e →
      ∃ f, e = .returned f := by
  induction fuel with
  | zero => exact fun h => nomatch h
  | succ fuel ih =>
    intro dstData len e h
    rw [inflateLoop] at h
    dsimp only at h
    split at h
    · exact ⟨_, (Option.some.inj h).symm⟩
    · split at h
      · rw [if_pos rfl] at h
        obtain ⟨e', he', rfl⟩ := Option.map_eq_some_iff.mp h
        obtain ⟨f, rfl⟩ := ih he'
        exact ⟨_, rfl⟩
      · exact ⟨_, (Option.some.inj h).symm⟩

/-- while `resize` grants every size a decompressor that ends returns -/
theorem unpack_returned {i : Inflate} {fuel : Nat} {srcData dstData : ByteArray}
    {skipped kept : Nat} {e : Ending}
    (h : unpack w (fun _ => true) i fuel srcData dstData skipped kept = some e) :
    ∃ f, e = .returned f := by
  rw [unpack] at h
  split at h
  · exact ⟨_, (Option.some.inj h).symm⟩
  · rw [if_pos rfl] at h
    obtain ⟨e', he', rfl⟩ := Option.map_eq_some_iff.mp h
    obtain ⟨f, rfl⟩ := inflateLoop_returned i kept _ fuel he'
    rw [afterLoop]
    split
    · split
      · exact ⟨_, rfl⟩
      · exact ⟨_, rfl⟩
    · exact ⟨_, rfl⟩

/-- what a decompressor has left of a header and what was stored behind it -/
theorem Inflates.left {i : Inflate} {h s : ByteArray} {run : Nat → Option Ending}
    (hI : Inflates i (h ++ s) h.length h.length run) :
    ∃ e, Machine.Comes run e ∧ (∀ sp ∈ e.spans, sp.Inside) ∧
      ∀ f, e = .returned f → f.dstData = h ++ i.unpacked s := by
  obtain ⟨e, hcomes, hin, hun⟩ := hI
  refine ⟨e, hcomes, hin, fun f hf => ?_⟩
  have hleft := hun f hf
  rw [List.drop_left] at hleft
  unfold Inflate.unpacked
  cases hc : i.contents s with
  | some data =>
    rw [hc] at hleft
    rw [hleft.2, List.take_left]
    rfl
  | none =>
    rw [hc] at hleft
    rw [hleft.2, Nat.sub_self]
    rfl

/-- **A header and what was stored behind it**: the header and the source come back if and only if
the loop lands and what was stored unpacks to the source. -/
theorem unpack_stored_iff (i : Inflate) (h s x dstData : ByteArray) (hne : h ++ s ≠ [])
    (hw : s.length + h.length < 2 ^ w) :
    (∃ f, Machine.Comes (fun fuel =>
          unpack w (fun _ => true) i fuel (h ++ s) dstData h.length h.length) (.returned f) ∧
        f.dstData = h ++ x ∧ ∀ sp ∈ f.spans, sp.Inside) ↔
      LandsAt w (fun _ => true) ((h.length + s.length) * 10) h.length (Answers i s) ∧
        i.unpacked s = x := by
  have hlen : (h ++ s).length = h.length + s.length := List.length_append
  have hlands := unpack_lands (w := w) (fun _ => true) (i := i) hne (by omega) dstData
    (Nat.le_refl h.length) (by omega)
  rw [hlen, List.drop_left] at hlands
  constructor
  · rintro ⟨f, hcomes, hd, hin⟩
    have hl := lands_of_inside (fun _ => true) hne dstData (by omega) hcomes hin
    rw [hlen, List.drop_left] at hl
    obtain ⟨e, he, _, hun⟩ := (hlands.mpr hl).left
    refine ⟨hl, ?_⟩
    have hx := hun f (he.unique hcomes)
    rw [hd] at hx
    exact (List.append_cancel_left hx).symm
  · rintro ⟨hl, rfl⟩
    obtain ⟨e, ⟨n, hn⟩, hin, hun⟩ := (hlands.mpr hl).left
    obtain ⟨f, rfl⟩ := unpack_returned (hn n (Nat.le_refl n))
    exact ⟨f, ⟨n, hn⟩, hun f rfl, hin⟩

end

/-! ## the round trips -/

theorem stored_ne_nil {z : Deflate} {i : Inflate} (hu : Undoes i z) (room : Nat) {x : ByteArray}
    (hx : x ≠ []) (h : ByteArray) : h ++ stored z room x ≠ [] := by
  unfold stored
  cases hs : z.succeedsIn room x with
  | true => exact compressed_ne_nil hu hs h
  | false => exact fun e => hx (List.append_eq_nil_iff.mp e).2

/-- what was stored unpacks to the source if `compress` has succeeded, or if the source does -/
theorem unpacked_stored {z : Deflate} {i : Inflate} (hu : Undoes i z) (room : Nat) (x : ByteArray) :
    i.unpacked (stored z room x) = x ↔ z.succeedsIn room x = true ∨ i.unpacked x = x := by
  unfold stored
  cases hs : z.succeedsIn room x with
  | true => exact iff_of_true (unpacked_compressed hu hs) (.inl rfl)
  | false => exact ⟨.inr, fun e => e.resolve_left Bool.false_ne_true⟩

section
variable {w : Nat} {z : Deflate} {i : Inflate}

theorem reserved_iff (hu : Undoes i z) (x h dstData dstData' : ByteArray) (hx : x ≠ [])
    (hh : h.length < 2 ^ w) :
    Reserved w z i x h dstData dstData' ↔
      Suffices w i ((x.length + 16) % 2 ^ w) h.length (stored z ((x.length + 16) % 2 ^ w) x) ∧
        (z.succeedsIn ((x.length + 16) % 2 ^ w) x = true ∨ i.unpacked x = x) := by
  obtain ⟨hinside, hdata⟩ := zlibCompress2_spec z dstData hx hh
  rw [← unpacked_stored hu]
  constructor
  · rintro ⟨hin, hreturned⟩
    obtain ⟨front, hf, hd⟩ := hdata hin
    obtain ⟨htold, hstored⟩ := hinside.mp hin
    rw [hd, Vec.memcpy_over front _ h hf.symm] at hreturned
    obtain ⟨hlands, hunpacked⟩ :=
      (unpack_stored_iff i h _ x dstData' (stored_ne_nil hu _ hx h) hstored).mp hreturned
    exact ⟨⟨htold, hstored, hlands⟩, hunpacked⟩
  · rintro ⟨⟨htold, hstored, hlands⟩, hunpacked⟩
    have hin := hinside.mpr ⟨htold, hstored⟩
    obtain ⟨front, hf, hd⟩ := hdata hin
    refine ⟨hin, ?_⟩
    rw [hd, Vec.memcpy_over front _ h hf.symm]
    exact (unpack_stored_iff i h _ x dstData' (stored_ne_nil hu _ hx h) hstored).mpr
      ⟨hlands, hunpacked⟩

theorem reservedPtr_iff (hu : Undoes i z) (x h dstData dstData' : ByteArray) (hx : x ≠ [])
    (hw : x.length < 2 ^ w) (hh : h.length < 2 ^ w) :
    ReservedPtr w z i x h dstData dstData' ↔
      Suffices w i ((2 * x.length + 16) % 2 ^ w) h.length
          (stored z ((2 * x.length + 16) % 2 ^ w) x) ∧
        (z.succeedsIn ((2 * x.length + 16) % 2 ^ w) x = true ∨ h = [] ∧ i.unpacked x = x) := by
  have hptr : ∀ s, (fun fuel => zlibDecompressPtr w (fun _ => true) i fuel s dstData' h.length)
      = fun fuel => unpack w (fun _ => true) i fuel s dstData' h.length h.length := fun s =>
    funext fun _ => if_pos (Int.natCast_nonneg _)
  unfold ReservedPtr
  rw [hptr]
  cases hs : z.succeedsIn ((2 * x.length + 16) % 2 ^ w) x with
  | true =>
    obtain ⟨hinside, hdata⟩ := zlibCompressPtr_ok dstData hx hh hs
    constructor
    · rintro ⟨hin, hreturned⟩
      obtain ⟨front, hf, hd⟩ := hdata hin
      have htold := hinside.mp hin
      have hstored := stored_fits hs htold
      rw [hd, Vec.memcpy_over front _ h hf.symm] at hreturned
      obtain ⟨hlands, _⟩ :=
        (unpack_stored_iff i h _ x dstData' (stored_ne_nil hu _ hx h) hstored).mp hreturned
      exact ⟨⟨htold, hstored, hlands⟩, .inl rfl⟩
    · rintro ⟨⟨htold, hstored, hlands⟩, _⟩
      have hin := hinside.mpr htold
      obtain ⟨front, hf, hd⟩ := hdata hin
      refine ⟨hin, ?_⟩
      rw [hd, Vec.memcpy_over front _ h hf.symm]
      exact (unpack_stored_iff i h _ x dstData' (stored_ne_nil hu _ hx h) hstored).mpr
        ⟨hlands, (unpacked_stored hu _ x).mpr (.inl hs)⟩
  | false =>
    obtain ⟨hinside, hdata⟩ := zlibCompressPtr_failed dstData hx hh hs
    have hst : stored z ((2 * x.length + 16) % 2 ^ w) x = x :=
      if_neg (by rw [hs]; exact Bool.false_ne_true)
    rw [hinside, hst]
    by_cases h0 : h = []
    · subst h0
      have hcopy : Vec.memcpy x 0 [] = x := Vec.memcpy_over [] x [] rfl
      rw [hdata rfl, hcopy]
      have hback := unpack_stored_iff i [] x x dstData' hx (by rw [List.length_nil]; omega)
      constructor
      · rintro ⟨⟨htold, _⟩, hreturned⟩
        obtain ⟨hlands, hunpacked⟩ := hback.mp hreturned
        exact ⟨⟨htold, by rw [List.length_nil]; omega, hlands⟩, .inr ⟨rfl, hunpacked⟩⟩
      · rintro ⟨⟨htold, _, hlands⟩, hunpacked⟩
        exact ⟨⟨htold, rfl⟩, hback.mpr
          ⟨hlands, (hunpacked.resolve_left Bool.false_ne_true).2⟩⟩
    · refine iff_of_false ?_ ?_
      · rintro ⟨⟨_, hz⟩, _⟩
        exact h0 (List.eq_nil_of_length_eq_zero hz)
      · rintro ⟨_, hor⟩
        exact h0 (hor.resolve_left Bool.false_ne_true).1

/-- **When compression with reserved space gives back the header and the source**, in words of `w`
bits. -/
theorem reserved_round_trip_iff (hu : Undoes i z) (x h dstData dstData' : ByteArray) (hx : x ≠ [])
    (hw : x.length < 2 ^ w) (hh : h.length < 2 ^ w) :
    Reserved w z i x h dstData dstData' ∧ ReservedPtr w z i x h dstData dstData' ↔
      (Suffices w i ((x.length + 16) % 2 ^ w) h.length (stored z ((x.length + 16) % 2 ^ w) x) ∧
        (z.succeedsIn ((x.length + 16) % 2 ^ w) x = true ∨ i.unpacked x = x)) ∧
      (Suffices w i ((2 * x.length + 16) % 2 ^ w) h.length
          (stored z ((2 * x.length + 16) % 2 ^ w) x) ∧
        (z.succeedsIn ((2 * x.length + 16) % 2 ^ w) x = true ∨ h = [] ∧ i.unpacked x = x)) :=
  and_congr (reserved_iff hu x h dstData dstData' hx hh)
    (reservedPtr_iff hu x h dstData dstData' hx hw hh)

/-- **Where the words suffice**: nothing wraps around on the way to the room that `need` names. -/
theorem suffices_small {room r : Nat} {s : ByteArray} {need : Nat} (hs : 0 < r + s.length)
    (htold : room + r < 2 ^ w) (hten : (r + s.length) * 10 + r < 2 ^ w)
    (henough : ∀ room, need ≤ room → Answers i s room) (hneed : 2 * need + r < 2 ^ w) :
    Suffices w i room r s where
  told := htold
  stored := by omega
  lands := landsAt_small _ henough (by omega) hten hneed

/-- while the sizes are words the function in words is the one in numbers -/
theorem zlibCompressPtr_unbounded (x dstData : ByteArray) (reservedLen : Int)
    (hr : 2 * x.length + 16 + (if reservedLen ≥ 0 then reservedLen.toNat else zipString.length)
      < 2 ^ w) :
    zlibCompressPtr w z x dstData reservedLen = Netwb.zlibCompressPtr z x dstData reservedLen := by
  have hfit := z.fits (2 * x.length + 16) x
  have hroom : (2 * x.length + 16) % 2 ^ w = 2 * x.length + 16 := Nat.mod_eq_of_lt (by omega)
  unfold zlibCompressPtr Netwb.zlibCompressPtr
  dsimp only
  rw [hroom, Nat.mod_eq_of_lt hr,
    Nat.mod_eq_of_lt (Nat.lt_of_le_of_lt (Nat.add_le_add_right hfit _) hr)]

end

/-- `A`, behind a header of three bytes, in words of 32 bits -/
theorem reserved_round_trip_A :
    Reserved 32 (.one [0x41] streamA) (.one streamA [0x41] (by decide)) [0x41] [1, 2, 3] [] [] ∧
      ReservedPtr 32 (.one [0x41] streamA) (.one streamA [0x41] (by decide)) [0x41] [1, 2, 3] [] []
    := by
  have hc : (Inflate.one streamA [0x41] (by decide)).contents streamA = some [0x41] := by
    decide
  have hanswers : ∀ len, 1 ≤ len → Answers (.one streamA [0x41] (by decide)) streamA len :=
    fun len hlen => (answers_stream hc len).mpr hlen
  have hsuff : ∀ room ≤ 100,
      Suffices 32 (.one streamA [0x41] (by decide)) room [1, 2, 3].length streamA := by
    intro room hroom
    have hten : ([1, 2, 3].length + streamA.length) * 10 + [1, 2, 3].length < 2 ^ 32 := by decide
    have htold : room + 3 < 2 ^ 32 := by omega
    exact suffices_small (by decide) htold hten hanswers (by decide)
  exact (reserved_round_trip_iff (undoes_one streamA [0x41] (by decide)) [0x41] [1, 2, 3] [] []
    (by decide) (by decide) (by decide)).mpr
    ⟨⟨hsuff 17 (by decide), .inl (by decide)⟩, ⟨hsuff 18 (by decide), .inl (by decide)⟩⟩

/-- without memory, behind a header of twelve bytes: the copy starts at 12 in one byte -/
theorem reserved_copy_outside :
    Undoes (.one streamA [0x41] (by decide)) .noMemory ∧
    (⟨12, 1, 1⟩ : Vec.Span) ∈ (zlibCompressPtr 32 .noMemory [0x41] [] 12).spans ∧
    ¬ (Reserved 32 .noMemory (.one streamA [0x41] (by decide)) [0x41] (List.replicate 12 0) [] [] ∧
      ReservedPtr 32 .noMemory (.one streamA [0x41] (by decide)) [0x41] (List.replicate 12 0) [] [])
    := by
  have hmem : (⟨12, 1, 1⟩ : Vec.Span) ∈ (zlibCompressPtr 32 .noMemory [0x41] [] 12).spans := by
    decide
  refine ⟨undoes_noMemory _, hmem, ?_⟩
  rintro ⟨_, h, _⟩
  exact absurd (h ⟨12, 1, 1⟩ hmem) (by decide)

/-- a source that is a stream is taken for a compressed one -/
theorem reserved_stream_taken :
    ¬ Reserved 32 .noMemory (.one streamA [0x41] (by decide)) streamA [] [] [] := by
  intro h
  have hor := ((reserved_iff (undoes_noMemory _) streamA [] [] [] (by decide) (by decide)).mp h).2
  revert hor
  decide

/-- 429496723 bytes behind a header of six, stored as they are: `uncompress` is told of 4294967290
bytes behind the sixth of an empty vector -/
theorem reserved_told_too_much (i : Inflate) : ¬ Reserved 32 .noMemory i
    (List.replicate 429496723 0) (List.replicate 6 0) [] [] := by
  have hx : (List.replicate 429496723 (0 : BYTE)).length = 429496723 := List.length_replicate
  have hh : (List.replicate 6 (0 : BYTE)).length = 6 := List.length_replicate
  intro h
  have hlands := ((reserved_iff (undoes_noMemory i) (List.replicate 429496723 0)
    (List.replicate 6 0) [] [] (fun h0 => by rw [h0] at hx; cases hx) (by decide)).mp h).1.lands
  refine not_lands (fun _ => rfl) ?_ hlands
  rw [stored, if_neg (by exact Bool.false_ne_true), hx, hh]
  decide

end Width

end Netwb
