import Netwb.Net.Inflate

/-!
# The round trip of the marked format

The marked format does not say whether `compress` has succeeded.  The receiver looks for the mark,
which nothing escapes: a source that begins with the mark loses it when `compress` does not succeed.

`mark_round_trip_iff`: when the marked format gives back the source.
-/

namespace Netwb
open Wire

/-- what `compress` has written unpacks to the source -/
theorem unpacked_compressed {z : Deflate} {i : Inflate} (hu : Undoes i z) {room : Nat}
    {x : ByteArray} (hs : z.succeedsIn room x = true) :
    i.unpacked (z.compress room x).2 = x := by
  have hc := hu room x _ (Deflate.compress_ok hs)
  rw [Inflate.unpacked, hc]
  rfl

theorem compressed_ne_nil {z : Deflate} {i : Inflate} (hu : Undoes i z) {room : Nat} {x : ByteArray}
    (hs : z.succeedsIn room x = true) (h : ByteArray) : h ++ (z.compress room x).2 ≠ [] := by
  intro e
  have hc := hu room x _ (Deflate.compress_ok hs)
  rw [(List.append_eq_nil_iff.mp e).2, i.empty] at hc
  cases hc

/-! ### a codec with one stream -/

/-- `compress` when it knows the stream of one source -/
def Deflate.one (data stream : ByteArray) : Deflate where
  compress room source :=
    if source = data ∧ stream.length ≤ room then (Z_OK, stream) else (Z_BUF_ERROR, [])
  fits room source := by
    split
    · rename_i h
      exact h.2
    · exact Nat.zero_le _

/-- `compress` without memory -/
def Deflate.noMemory : Deflate := ⟨fun _ _ => (Z_MEM_ERROR, []), fun _ _ => Nat.zero_le _⟩

/-- the answer of `uncompress` when there is one stream -/
def uncompressOne (stream data : ByteArray) (room : Nat) (source : ByteArray) : Int × ByteArray :=
  if source = stream then
    (if data.length ≤ room then (Z_OK, data) else (Z_BUF_ERROR, data.take room))
  else (Z_DATA_ERROR, [])

theorem uncompressOne_other {stream data source : ByteArray}
    (h : (if source = stream then some data else none) = none) (room : Nat) :
    uncompressOne stream data room source = (Z_DATA_ERROR, []) := by
  split at h
  · cases h
  · rename_i hne
    exact if_neg hne

theorem uncompressOne_stream {stream data source data' : ByteArray}
    (h : (if source = stream then some data else none) = some data') (room : Nat) :
    uncompressOne stream data room source
      = if data'.length ≤ room then (Z_OK, data') else (Z_BUF_ERROR, data'.take room) := by
  split at h
  · rename_i heq
    cases h
    exact if_pos heq
  · cases h

theorem uncompressOne_fits (stream data : ByteArray) (room : Nat) (source : ByteArray) :
    (uncompressOne stream data room source).2.length ≤ room := by
  unfold uncompressOne
  split
  · split
    · assumption
    · rw [List.length_take]
      exact Nat.min_le_left _ _
  · exact Nat.zero_le _

def Inflate.one (stream data : ByteArray) (hne : [] ≠ stream) : Inflate where
  uncompress := uncompressOne stream data
  contents source := if source = stream then some data else none
  empty := if_neg hne
  fits := uncompressOne_fits stream data
  enough h room hr := (uncompressOne_stream h room).trans (if_pos hr)
  short h room hr := by rw [uncompressOne_stream h room, if_neg (Nat.not_le_of_lt hr)]
  no_stream h room := by
    rw [uncompressOne_other h room]
    show Z_DATA_ERROR ≠ Z_OK
    decide
  gives_up h := ⟨0, fun room _ => by
    rw [uncompressOne_other h room]
    show Z_DATA_ERROR ≠ Z_BUF_ERROR
    decide⟩

theorem undoes_one (stream data : ByteArray) (hne : [] ≠ stream) :
    Undoes (.one stream data hne) (.one data stream) := by
  intro room source written h
  unfold Deflate.one at h
  dsimp only at h
  split at h
  · rename_i hs
    cases h
    rw [hs.1]
    exact if_pos rfl
  · cases h

theorem undoes_noMemory (i : Inflate) : Undoes i .noMemory := fun _ _ _ h => nomatch h

/-- the zlib stream of `A` -/
def streamA : ByteArray := [0x78, 0x9c, 0x73, 0x04, 0x00, 0x00, 0x42, 0x00, 0x42]

/-! ## the marked format -/

/-- `zlibCompress` and `zlibDecompress`, the pointer overloads, with a negative `reservedLen` -/
def Marked (z : Deflate) (i : Inflate) (x dstData dstData' : ByteArray)
    (reservedLen reservedLen' : Int) : Prop :=
  ∃ f, Machine.Comes (fun fuel => zlibDecompressPtr i fuel
      (zlibCompressPtr z x dstData reservedLen).dstData dstData' reservedLen') f ∧ f.dstData = x

/-- **When the marked format gives back the source**: when `compress` succeeds, or the source does
not begin with the mark. -/
theorem mark_round_trip_iff {z : Deflate} {i : Inflate} (hu : Undoes i z)
    (x dstData dstData' : ByteArray) {r r' : Int} (hr : r < 0) (hr' : r' < 0) (hx : x ≠ []) :
    Marked z i x dstData dstData' r r' ↔ z.succeedsIn (2 * x.length + 16) x = true ∨
      x.take zipString.length ≠ zipString ∨ i.contents (x.drop zipString.length) = some x := by
  unfold Marked
  rw [zlibCompressPtr_marked z dstData hr hx]
  cases hs : z.succeedsIn (2 * x.length + 16) x with
  | true =>
    rw [if_pos rfl]
    refine iff_of_true ?_ (.inl rfl)
    obtain ⟨f, hf, hd⟩ :=
      zlibDecompressPtr_marked i (z.compress (2 * x.length + 16) x).2 dstData' hr'
    exact ⟨f, hf, hd.trans (unpacked_compressed hu hs)⟩
  | false =>
    rw [if_neg Bool.false_ne_true]
    by_cases hm : x.take zipString.length = zipString
    · have hsplit : zipString ++ x.drop zipString.length = x := by
        conv => rhs; rw [← List.take_append_drop zipString.length x, hm]
      obtain ⟨f, hf, hd⟩ := zlibDecompressPtr_marked i (x.drop zipString.length) dstData' hr'
      rw [hsplit] at hf
      have hiff : (∃ f, Machine.Comes (fun fuel => zlibDecompressPtr i fuel x dstData' r') f ∧
          f.dstData = x) ↔ i.unpacked (x.drop zipString.length) = x := by
        refine ⟨?_, fun e => ⟨f, hf, hd.trans e⟩⟩
        rintro ⟨g, hg, he⟩
        rw [hf.unique hg, he] at hd
        exact hd.symm
      rw [hiff]
      refine ⟨fun e => .inr (.inr ?_), fun e => ?_⟩
      · unfold Inflate.unpacked at e
        cases hc : i.contents (x.drop zipString.length) with
        | some y =>
          rw [hc] at e
          exact congrArg some e
        | none =>
          -- what follows the mark is shorter than the source
          rw [hc] at e
          have hl := congrArg List.length hsplit
          rw [show x.drop zipString.length = x from e, List.length_append] at hl
          exact absurd hl (by show ¬ 7 + x.length = x.length; omega)
      · rcases e with e | e | e
        · cases e
        · exact absurd hm e
        · rw [Inflate.unpacked, e]
          rfl
    · refine iff_of_true ?_ (.inr (.inl hm))
      exact zlibDecompressPtr_unmarked i dstData' hr' hx hm

theorem mark_round_trip_A :
    Marked (.one [0x41] streamA) (.one streamA [0x41] (by decide)) [0x41] [] [] (-1) (-1) :=
  (mark_round_trip_iff (undoes_one streamA [0x41] (by decide)) [0x41] [] [] (by decide) (by decide)
    (by decide)).mpr (.inl (by decide))

/-- the mark itself, without memory for `compress`: it is taken for the mark of nothing -/
theorem mark_lost : Undoes (.one streamA [0x41] (by decide)) .noMemory ∧
    ¬ Marked .noMemory (.one streamA [0x41] (by decide)) zipString [] [] (-1) (-1) := by
  refine ⟨undoes_noMemory _, ?_⟩
  rintro ⟨f, hf, hd⟩
  have hnow : Machine.Comes (fun fuel => zlibDecompressPtr (.one streamA [0x41] (by decide)) fuel
      (zlibCompressPtr .noMemory zipString [] (-1)).dstData [] (-1)) ⟨false, [], _⟩ :=
    ⟨1, fun fuel hfuel => by
      obtain ⟨m, rfl⟩ : ∃ m, fuel = m + 1 := ⟨fuel - 1, by omega⟩
      rfl⟩
  rw [hf.unique hnow] at hd
  cases hd

end Netwb
