import Netwb.Net.RoundTrip

/-!
# Decompression in words of a fixed width

`zlibDecompress` and `zlibDecompress2` of `net/stream.cpp` with their sizes in words of `w` bits, as
`unsigned long` and `size_t` hold them (32 bits in the Windows build).  Ten times the length of the
source, each doubling of it and the sum with the reserved length wrap around; `alloc` says for which
sizes `resize` does not throw.

The four loops are one (`unpack`): the source is read behind its first `skipped` bytes, and the
first `kept` of them stay in front of what is written.  The capacities that `uncompress` is told are
`capacity`; a capacity that has become zero stays zero, and one that is too large for the sum with
`kept` is told of a vector that is smaller.

* `loop_lands`, `loop_comes`   one loop: it ends, within its room, if and only if some capacity is
                               reached that is enough (`LandsAt`);
* `loop_never`                 it does not end if all capacities are too small;
* `inflate_width_iff`          the same for every overload, with what it returns;
* `lands_small`                sizes for which nothing wraps around.
-/

namespace Netwb
open Wire

/-- an `uncompress` that answers `Z_BUF_ERROR` for want of room only -/
structure ExactInflate extends Inflate where
  no_retry : ∀ {source}, contents source = none → ∀ room,
    (uncompress room source).1 ≠ Z_BUF_ERROR

/-- the room that a source needs -/
def Inflate.need (i : Inflate) (source : ByteArray) : Nat :=
  ((i.contents source).getD []).length

/-- how a decompressor ends, and the ranges that it has touched -/
inductive Ending where
  | threw (touched : List Vec.Span)
  | returned (f : Filled)

namespace Ending

def spans : Ending → List Vec.Span
  | threw touched => touched
  | returned f => f.spans

/-- with a range that was touched before -/
def after (room : Vec.Span) : Ending → Ending
  | threw touched => threw (room :: touched)
  | returned f => returned { f with spans := room :: f.spans }

@[simp] theorem spans_after (room : Vec.Span) (e : Ending) :
    (e.after room).spans = room :: e.spans := by
  cases e <;> rfl

end Ending

namespace Width

section
variable (w : Nat) (alloc : Nat → Bool) (i : Inflate)

/-- the `while(true)` around `uncompress` -/
def inflateLoop (kept : Nat) (source : ByteArray) : Nat → ByteArray → Nat → Option Ending
  | 0, _, _ => none
  | fuel + 1, dstData, dstDataLen =>
    let room : Vec.Span := ⟨kept, dstDataLen, dstData.length⟩
    let (ret, written) := i.uncompress dstDataLen source
    let dstData := Vec.memcpy dstData kept written
    if ret = Z_OK then
      let size := (written.length + kept) % 2 ^ w
      some (if alloc size then .returned ⟨true, Vec.resize dstData size 0, [room]⟩
        else .threw [room])
    else if ret = Z_BUF_ERROR then
      let dstDataLen := (dstDataLen + dstDataLen) % 2 ^ w
      let size := (dstDataLen + kept) % 2 ^ w
      if alloc size then
        (inflateLoop kept source fuel (Vec.resize dstData size 0) dstDataLen).map (·.after room)
      else some (.threw [room])
    else some (.returned ⟨false, dstData, [room]⟩)

/-- behind the loop: the reserved bytes that are kept go to the front, or the source is copied
without those that are not -/
def afterLoop (srcData : ByteArray) (skipped kept : Nat) : Ending → Ending
  | .threw touched => .threw touched
  | .returned f =>
    if f.ok then
      if kept > 0 then
        .returned ⟨true, Vec.memcpy f.dstData 0 (srcData.take kept),
          f.spans ++ [⟨0, kept, f.dstData.length⟩]⟩
      else .returned f
    else
      let raw := srcData.drop (skipped - kept)
      if alloc raw.length then
        let dstData := Vec.resize f.dstData raw.length 0
        .returned ⟨false, Vec.memcpy dstData 0 raw, f.spans ++ [⟨0, raw.length, dstData.length⟩]⟩
      else .threw f.spans

/-- the body of the decompressors -/
def unpack (fuel : Nat) (srcData dstData : ByteArray) (skipped kept : Nat) : Option Ending :=
  let srcDataLen := srcData.length
  let dstDataLen := srcDataLen * 10 % 2 ^ w
  let size := (dstDataLen + kept) % 2 ^ w
  if srcDataLen = 0 then some (.returned ⟨false, dstData, []⟩)
  else if alloc size then
    (inflateLoop w alloc i kept (srcData.drop skipped) fuel (Vec.resize dstData size 0)
      dstDataLen).map (afterLoop alloc srcData skipped kept)
  else some (.threw [])

/-- `zlibDecompress(srcData, dstData, reservedLen)` -/
def zlibDecompress (fuel : Nat) (srcData dstData : ByteArray) (reservedLen : Int) : Option Ending :=
  unpack w alloc i fuel srcData dstData (if reservedLen > 0 then reservedLen.toNat else 0) 0

/-- `zlibDecompress2(dstData, srcData, reservedBytes)` -/
def zlibDecompress2 (fuel : Nat) (srcData dstData : ByteArray) (reservedBytes : Nat) :
    Option Ending :=
  unpack w alloc i fuel srcData dstData reservedBytes reservedBytes

/-- `zlibDecompress2(srcData, srcDataLen, dstData, reservedBytes)` -/
def zlibDecompress2Ptr (fuel : Nat) (srcData dstData : ByteArray) (reservedBytes : Nat) :
    Option Ending :=
  unpack w alloc i fuel srcData dstData reservedBytes reservedBytes

/-- `zlibDecompress(srcData, srcDataLen, dstData, reservedLen)` -/
def zlibDecompressPtr (fuel : Nat) (srcData dstData : ByteArray) (reservedLen : Int) :
    Option Ending :=
  if reservedLen ≥ 0 then zlibDecompress2Ptr w alloc i fuel srcData dstData reservedLen.toNat
  else
    let reservedBytes := zipString.length
    let srcDataLen := srcData.length
    let size := srcDataLen * 10 % 2 ^ w
    if srcDataLen = 0 then some (.returned ⟨false, dstData, []⟩)
    else if srcDataLen < reservedBytes ∨ srcData.take reservedBytes ≠ zipString then
      if alloc size ∧ alloc srcDataLen then
        let dstData := Vec.resize (Vec.resize dstData size 0) srcDataLen 0
        some (.returned ⟨true, Vec.memcpy dstData 0 srcData, [⟨0, srcDataLen, dstData.length⟩]⟩)
      else some (.threw [])
    else unpack w alloc i fuel srcData dstData reservedBytes 0

end

/-! ## capacities -/

/-- what `uncompress` is told after `k` doublings of `start` -/
def capacity (w start k : Nat) : Nat := start * 2 ^ k % 2 ^ w

/-- after some doublings `resize` throws or the capacity is enough, and up to there the sum of the
capacity and of what is kept is a word -/
def Lands (w : Nat) (alloc : Nat → Bool) (start kept need : Nat) : Prop :=
  ∃ k, (∀ j < k, capacity w start j + kept < 2 ^ w) ∧
    (alloc ((capacity w start k + kept) % 2 ^ w) = false ∨
      capacity w start k + kept < 2 ^ w ∧ need ≤ capacity w start k)

/-- the same for any notion of what is enough -/
def LandsAt (w : Nat) (alloc : Nat → Bool) (start kept : Nat) (enough : Nat → Prop) : Prop :=
  ∃ k, (∀ j < k, capacity w start j + kept < 2 ^ w) ∧
    (alloc ((capacity w start k + kept) % 2 ^ w) = false ∨
      capacity w start k + kept < 2 ^ w ∧ enough (capacity w start k))

theorem lands_iff {w : Nat} {alloc : Nat → Bool} {start kept need : Nat} :
    Lands w alloc start kept need ↔ LandsAt w alloc start kept (need ≤ ·) :=
  Iff.rfl

theorem LandsAt.congr {w : Nat} {alloc : Nat → Bool} {start kept : Nat} {P Q : Nat → Prop}
    (h : ∀ room, P room ↔ Q room) :
    LandsAt w alloc start kept P ↔ LandsAt w alloc start kept Q := by
  unfold LandsAt
  simp only [h]

theorem capacity_lt (w start k : Nat) : capacity w start k < 2 ^ w :=
  Nat.mod_lt _ (Nat.two_pow_pos w)

theorem capacity_zero {w len : Nat} (h : len < 2 ^ w) : capacity w len 0 = len := by
  rw [capacity, Nat.pow_zero, Nat.mul_one, Nat.mod_eq_of_lt h]

theorem capacity_mod (w start k : Nat) : capacity w (start % 2 ^ w) k = capacity w start k := by
  rw [capacity, capacity, Nat.mod_mul_mod]

/-- one doubling more -/
theorem capacity_succ (w len k : Nat) :
    capacity w ((len + len) % 2 ^ w) k = capacity w len (k + 1) := by
  rw [capacity_mod, capacity, capacity, Nat.pow_succ', ← Nat.two_mul, Nat.mul_left_comm,
    Nat.mul_assoc]

theorem landsAt_mod (w : Nat) (alloc : Nat → Bool) (start kept : Nat) (enough : Nat → Prop) :
    LandsAt w alloc (start % 2 ^ w) kept enough ↔ LandsAt w alloc start kept enough := by
  unfold LandsAt
  simp only [capacity_mod]

section
variable {w : Nat} {alloc : Nat → Bool} {kept : Nat} {enough : Nat → Prop}

theorem lands_refused {len : Nat} (hlen : len < 2 ^ w)
    (h : alloc ((len + kept) % 2 ^ w) = false) : LandsAt w alloc len kept enough :=
  ⟨0, fun _ hj => absurd hj (Nat.not_lt_zero _), .inl (by rw [capacity_zero hlen]; exact h)⟩

theorem lands_enough {len : Nat} (hlen : len < 2 ^ w) (hfit : len + kept < 2 ^ w)
    (h : enough len) : LandsAt w alloc len kept enough :=
  ⟨0, fun _ hj => absurd hj (Nat.not_lt_zero _), .inr (by rw [capacity_zero hlen]; exact ⟨hfit, h⟩)⟩

theorem LandsAt.succ {len : Nat} (hlen : len < 2 ^ w) (hfit : len + kept < 2 ^ w)
    (h : LandsAt w alloc ((len + len) % 2 ^ w) kept enough) : LandsAt w alloc len kept enough := by
  obtain ⟨k, hbefore, hend⟩ := h
  refine ⟨k + 1, fun j hj => ?_, by rwa [capacity_succ] at hend⟩
  cases j with
  | zero => rwa [capacity_zero hlen]
  | succ j =>
    have := hbefore j (by omega)
    rwa [capacity_succ] at this

/-- a loop that has to tell of more than there is at once does not land -/
theorem not_lands {start : Nat} (halloc : ∀ n, alloc n = true)
    (h : 2 ^ w ≤ capacity w start 0 + kept) : ¬ LandsAt w alloc start kept enough := by
  rintro ⟨k, hbefore, hend⟩
  cases k with
  | zero =>
    rcases hend with hrefused | ⟨hfit, _⟩
    · rw [halloc] at hrefused
      cases hrefused
    · omega
  | succ k =>
    have := hbefore 0 (Nat.succ_pos k)
    omega

/-- what `uncompress` is told fits into the vector only if the sum with what is kept is a word -/
theorem told_fits {len : Nat} (hk : kept < 2 ^ w)
    (h : (⟨kept, len, (len + kept) % 2 ^ w⟩ : Vec.Span).Inside) : len + kept < 2 ^ w := by
  have hmod := Nat.mod_lt (len + kept) (Nat.two_pow_pos w)
  rcases h with h0 | ⟨_, hle⟩
  · dsimp only at h0
    omega
  · dsimp only at hle
    omega

theorem fits_inside {len size : Nat} (hsize : size = len + kept) :
    (⟨kept, len, size⟩ : Vec.Span).Inside := by
  refine .inr ⟨Int.natCast_nonneg _, ?_⟩
  dsimp only
  omega

end

/-! ## one loop -/

/-- told of this room, `uncompress` does not answer `Z_BUF_ERROR` -/
def Answers (i : Inflate) (source : ByteArray) (room : Nat) : Prop :=
  (i.uncompress room source).1 ≠ Z_BUF_ERROR

section
variable {w : Nat} {alloc : Nat → Bool} {i : Inflate} {kept : Nat} {source : ByteArray}

/-- a stream is answered when there is room for its contents -/
theorem answers_stream {data : ByteArray} (hc : i.contents source = some data) (len : Nat) :
    Answers i source len ↔ data.length ≤ len := by
  refine ⟨fun h => ?_, fun h => ?_⟩
  · by_contra hlt
    exact h (i.short hc len (Nat.lt_of_not_le hlt))
  · rw [Answers, i.enough hc len h]
    show Z_OK ≠ Z_BUF_ERROR
    decide

/-- where `Z_BUF_ERROR` stands for want of room only, an answer is a question of the room -/
theorem answers_iff (i : ExactInflate) (source : ByteArray) (len : Nat) :
    Answers i.toInflate source len ↔ i.need source ≤ len := by
  unfold Inflate.need
  cases hc : i.contents source with
  | none => exact iff_of_true (i.no_retry hc len) (Nat.zero_le _)
  | some data => exact answers_stream hc len

/-- what the loop leaves when it does not throw -/
def Unpacked (i : Inflate) (kept : Nat) (source : ByteArray) (f : Filled) : Prop :=
  match i.contents source with
  | some data => f.ok = true ∧ ∃ front, front.length = kept ∧ f.dstData = front ++ data
  | none => f.ok = false

/-- **A loop that ends within its room lands.** -/
theorem loop_lands (hk : kept < 2 ^ w) (fuel : Nat) :
    ∀ {dstData : ByteArray} {len : Nat} {e : Ending}, len < 2 ^ w →
      dstData.length = (len + kept) % 2 ^ w →
      inflateLoop w alloc i kept source fuel dstData len = some e →
      (∀ sp ∈ e.spans, sp.Inside) → LandsAt w alloc len kept (Answers i source) := by
  induction fuel with
  | zero => exact fun _ _ h => nomatch h
  | succ fuel ih =>
    intro dstData len e hlen hd h hin
    rw [inflateLoop, hd] at h
    dsimp only at h
    have hroom : ⟨kept, len, (len + kept) % 2 ^ w⟩ ∈ e.spans := by
      split at h
      · cases h
        split <;> exact List.mem_singleton_self _
      · split at h
        · split at h
          · obtain ⟨e', _, rfl⟩ := Option.map_eq_some_iff.mp h
            rw [Ending.spans_after]
            exact List.mem_cons_self ..
          · cases h
            exact List.mem_singleton_self _
        · cases h
          exact List.mem_singleton_self _
    have hfit := told_fits hk (hin _ hroom)
    by_cases hbuf : (i.uncompress len source).1 = Z_BUF_ERROR
    · rw [hbuf, if_neg (by decide), if_pos rfl] at h
      have hnext := Nat.mod_lt (len + len) (Nat.two_pow_pos w)
      refine LandsAt.succ hlen hfit ?_
      split at h
      · obtain ⟨e', he', rfl⟩ := Option.map_eq_some_iff.mp h
        refine ih hnext (Vec.resize_length _ _ _) he' fun sp hsp => hin sp ?_
        rw [Ending.spans_after]
        exact List.mem_cons_of_mem _ hsp
      · rename_i hrefused
        exact lands_refused hnext (Bool.eq_false_iff.mpr hrefused)
    · exact lands_enough hlen hfit hbuf

/-- the answer is not `Z_BUF_ERROR` -/
theorem loop_now {dstData : ByteArray} {len : Nat} (hfit : len + kept < 2 ^ w)
    (hd : dstData.length = len + kept) (hbuf : Answers i source len) :
    ∃ e, Machine.Comes (fun fuel => inflateLoop w alloc i kept source fuel dstData len) e ∧
      (∀ sp ∈ e.spans, sp.Inside) ∧ ∀ f, e = .returned f → Unpacked i kept source f := by
  have hin : (⟨kept, len, dstData.length⟩ : Vec.Span).Inside := fits_inside hd
  have hcomes : Machine.Comes (fun fuel => inflateLoop w alloc i kept source fuel dstData len)
      (if (i.uncompress len source).1 = Z_OK then
        if alloc (((i.uncompress len source).2.length + kept) % 2 ^ w) then
          .returned ⟨true, Vec.resize (Vec.memcpy dstData kept (i.uncompress len source).2)
            (((i.uncompress len source).2.length + kept) % 2 ^ w) 0, [⟨kept, len, dstData.length⟩]⟩
        else .threw [⟨kept, len, dstData.length⟩]
      else .returned ⟨false, Vec.memcpy dstData kept (i.uncompress len source).2,
        [⟨kept, len, dstData.length⟩]⟩) := by
    refine ⟨1, fun fuel hfuel => ?_⟩
    obtain ⟨m, rfl⟩ : ∃ m, fuel = m + 1 := ⟨fuel - 1, by omega⟩
    show inflateLoop w alloc i kept source (m + 1) dstData len = _
    rw [inflateLoop]
    dsimp only
    by_cases hok : (i.uncompress len source).1 = Z_OK
    · rw [if_pos hok, if_pos hok]
    · rw [if_neg hok, if_neg hok, if_neg hbuf]
  refine ⟨_, hcomes, ?_, ?_⟩
  · split
    · split <;> exact List.forall_mem_singleton.mpr hin
    · exact List.forall_mem_singleton.mpr hin
  · intro f hf
    unfold Unpacked
    cases hc : i.contents source with
    | some data =>
      have henough := (answers_stream hc len).mp hbuf
      rw [i.enough hc len henough, if_pos rfl] at hf
      split at hf
      · cases hf
        refine ⟨rfl, dstData.take kept, by rw [List.length_take]; omega, ?_⟩
        show Vec.resize (Vec.memcpy dstData kept data) ((data.length + kept) % 2 ^ w) 0 = _
        rw [Nat.mod_eq_of_lt (by omega), Vec.resize_memcpy _ _ _ _ (by omega)]
      · cases hf
    | none =>
      rw [if_neg (i.no_stream hc len)] at hf
      cases hf
      rfl

/-- **A loop that lands ends within its room, with what the source unpacks to.** -/
theorem loop_comes (k : Nat) :
    ∀ {dstData : ByteArray} {len : Nat}, len < 2 ^ w → dstData.length = (len + kept) % 2 ^ w →
      alloc ((len + kept) % 2 ^ w) = true →
      (∀ j < k, capacity w len j + kept < 2 ^ w) →
      (alloc ((capacity w len k + kept) % 2 ^ w) = false ∨
        capacity w len k + kept < 2 ^ w ∧ Answers i source (capacity w len k)) →
      ∃ e, Machine.Comes (fun fuel => inflateLoop w alloc i kept source fuel dstData len) e ∧
        (∀ sp ∈ e.spans, sp.Inside) ∧ ∀ f, e = .returned f → Unpacked i kept source f := by
  induction k with
  | zero =>
    intro dstData len hlen hd halloc _ hend
    rw [capacity_zero hlen] at hend
    rcases hend with hrefused | ⟨hfit, henough⟩
    · rw [halloc] at hrefused
      cases hrefused
    · rw [Nat.mod_eq_of_lt hfit] at hd
      exact loop_now hfit hd henough
  | succ k ih =>
    intro dstData len hlen hd _ hbefore hend
    have hfit : len + kept < 2 ^ w := by
      have := hbefore 0 (by omega)
      rwa [capacity_zero hlen] at this
    rw [Nat.mod_eq_of_lt hfit] at hd
    by_cases henough : Answers i source len
    · exact loop_now hfit hd henough
    · have hbuf : (i.uncompress len source).1 = Z_BUF_ERROR := not_not.mp henough
      have hin : (⟨kept, len, dstData.length⟩ : Vec.Span).Inside := fits_inside hd
      have hround : ∀ fuel, inflateLoop w alloc i kept source (fuel + 1) dstData len
          = if alloc (((len + len) % 2 ^ w + kept) % 2 ^ w) then
              (inflateLoop w alloc i kept source fuel (Vec.resize
                (Vec.memcpy dstData kept (i.uncompress len source).2)
                (((len + len) % 2 ^ w + kept) % 2 ^ w) 0) ((len + len) % 2 ^ w)).map
                  (·.after ⟨kept, len, dstData.length⟩)
            else some (.threw [⟨kept, len, dstData.length⟩]) := by
        intro fuel
        rw [inflateLoop]
        dsimp only
        rw [hbuf, if_neg (by decide), if_pos rfl]
      cases halloc : alloc (((len + len) % 2 ^ w + kept) % 2 ^ w) with
      | false =>
        refine ⟨.threw [⟨kept, len, dstData.length⟩], ⟨1, fun fuel hfuel => ?_⟩,
          List.forall_mem_singleton.mpr hin, fun f hf => Ending.noConfusion hf⟩
        obtain ⟨m, rfl⟩ : ∃ m, fuel = m + 1 := ⟨fuel - 1, by omega⟩
        show inflateLoop w alloc i kept source (m + 1) dstData len = _
        rw [hround, halloc]
        rfl
      | true =>
        rw [← capacity_succ] at hend
        obtain ⟨e, ⟨n, hn⟩, hspans, hun⟩ := ih (Nat.mod_lt _ (Nat.two_pow_pos w))
          (Vec.resize_length (Vec.memcpy dstData kept (i.uncompress len source).2) _ 0) halloc
          (fun j hj => by rw [capacity_succ]; exact hbefore (j + 1) (by omega)) hend
        refine ⟨e.after ⟨kept, len, dstData.length⟩, ⟨n + 1, fun fuel hfuel => ?_⟩, ?_,
          fun f hf => ?_⟩
        · obtain ⟨m, rfl⟩ : ∃ m, fuel = m + 1 := ⟨fuel - 1, by omega⟩
          show inflateLoop w alloc i kept source (m + 1) dstData len = _
          rw [hround, halloc, if_pos rfl]
          exact congrArg (Option.map _) (hn m (by omega))
        · rw [Ending.spans_after]
          exact List.forall_mem_cons.mpr ⟨hin, hspans⟩
        · cases e with
          | threw touched => cases hf
          | returned g =>
            cases hf
            exact hun g rfl

/-- **A loop whose capacities are all too small never ends** while `resize` does not throw. -/
theorem loop_never (halloc : ∀ n, alloc n = true) (fuel : Nat) :
    ∀ (dstData : ByteArray) {len : Nat}, len < 2 ^ w →
      (∀ k, ¬ Answers i source (capacity w len k)) →
      inflateLoop w alloc i kept source fuel dstData len = none := by
  induction fuel with
  | zero => exact fun _ _ _ _ => rfl
  | succ fuel ih =>
    intro dstData len hlen hshort
    have hbuf : (i.uncompress len source).1 = Z_BUF_ERROR := by
      have h0 := hshort 0
      rw [capacity_zero hlen] at h0
      exact not_not.mp h0
    rw [inflateLoop]
    dsimp only
    rw [hbuf, if_neg (by decide), if_pos rfl, if_pos (halloc _), ih _ (Nat.mod_lt _
      (Nat.two_pow_pos w)) fun k => by rw [capacity_succ]; exact hshort (k + 1)]
    rfl

end

/-! ## the decompressors -/

/-- what a decompressor is for: it ends, never tells `uncompress` of more room than there is, and
unless `resize` throws it returns true with the kept bytes and the contents of a stream, false with
the source as it is otherwise -/
def Inflates (i : Inflate) (srcData : ByteArray) (skipped kept : Nat)
    (run : Nat → Option Ending) : Prop :=
  ∃ e, Machine.Comes run e ∧ (∀ sp ∈ e.spans, sp.Inside) ∧ ∀ f, e = .returned f →
    match i.contents (srcData.drop skipped) with
    | some data => f.ok = true ∧ f.dstData = srcData.take kept ++ data
    | none => f.ok = false ∧ f.dstData = srcData.drop (skipped - kept)

section
variable {w : Nat} (alloc : Nat → Bool) {i : Inflate} {srcData : ByteArray}

theorem unpack_eq (hne : srcData ≠ []) (dstData : ByteArray) (skipped kept : Nat) :
    (fun fuel => unpack w alloc i fuel srcData dstData skipped kept) = fun fuel =>
      if alloc ((srcData.length * 10 % 2 ^ w + kept) % 2 ^ w) then
        (inflateLoop w alloc i kept (srcData.drop skipped) fuel
          (Vec.resize dstData ((srcData.length * 10 % 2 ^ w + kept) % 2 ^ w) 0)
          (srcData.length * 10 % 2 ^ w)).map (afterLoop alloc srcData skipped kept)
      else some (.threw []) := by
  have hn : srcData.length ≠ 0 := fun h => hne (List.eq_nil_of_length_eq_zero h)
  funext fuel
  rw [unpack, if_neg hn]

/-- what is touched behind the loop comes last -/
theorem afterLoop_spans (skipped kept : Nat) (e : Ending) :
    ∀ sp ∈ e.spans, sp ∈ (afterLoop alloc srcData skipped kept e).spans := by
  intro sp hsp
  cases e with
  | threw touched => exact hsp
  | returned f =>
    rw [afterLoop]
    split
    · split
      · exact List.mem_append_left _ hsp
      · exact hsp
    · dsimp only
      split
      · exact List.mem_append_left _ hsp
      · exact hsp

/-- **Behind the loop the kept bytes are put in front of the contents, or the source is copied.** -/
theorem afterLoop_spec {skipped kept : Nat} (hkept : kept ≤ skipped)
    (hskipped : skipped ≤ srcData.length) {e : Ending} (hin : ∀ sp ∈ e.spans, sp.Inside)
    (hun : ∀ f, e = .returned f → Unpacked i kept (srcData.drop skipped) f) :
    (∀ sp ∈ (afterLoop alloc srcData skipped kept e).spans, sp.Inside) ∧
      ∀ f, afterLoop alloc srcData skipped kept e = .returned f →
        match i.contents (srcData.drop skipped) with
        | some data => f.ok = true ∧ f.dstData = srcData.take kept ++ data
        | none => f.ok = false ∧ f.dstData = srcData.drop (skipped - kept) := by
  cases e with
  | threw touched => exact ⟨hin, fun f hf => Ending.noConfusion hf⟩
  | returned f =>
    have hf := hun f rfl
    unfold Unpacked at hf
    have hfront : (srcData.take kept).length = kept := by
      rw [List.length_take]
      omega
    rw [afterLoop]
    cases hc : i.contents (srcData.drop skipped) with
    | some data =>
      rw [hc] at hf
      obtain ⟨hok, front, hlen, hd⟩ := hf
      rw [if_pos hok]
      split
      · refine ⟨fun sp hsp => ?_, fun g hg => ?_⟩
        · rcases List.mem_append.mp hsp with hsp | hsp
          · exact hin sp hsp
          · rw [List.mem_singleton.mp hsp]
            refine .inr ⟨Int.le_refl _, ?_⟩
            dsimp only
            rw [hd, List.length_append]
            omega
        · cases hg
          refine ⟨rfl, ?_⟩
          show Vec.memcpy f.dstData 0 (srcData.take kept) = _
          rw [hd, Vec.memcpy_over front data _ (by omega)]
      · refine ⟨hin, fun g hg => ?_⟩
        cases hg
        obtain rfl : kept = 0 := by omega
        obtain rfl : front = [] := List.eq_nil_of_length_eq_zero hlen
        exact ⟨hok, hd⟩
    | none =>
      rw [hc] at hf
      rw [if_neg (by rw [hf]; exact Bool.false_ne_true)]
      dsimp only
      split
      · refine ⟨fun sp hsp => ?_, fun g hg => ?_⟩
        · rcases List.mem_append.mp hsp with hsp | hsp
          · exact hin sp hsp
          · rw [List.mem_singleton.mp hsp, Vec.resize_length]
            exact span_whole _
        · cases hg
          refine ⟨rfl, ?_⟩
          have hfill := Vec.memcpy_fill (Vec.resize f.dstData
            (srcData.drop (skipped - kept)).length 0) 0 (srcData.drop (skipped - kept))
            (by rw [Vec.resize_length, Nat.zero_add])
          rwa [List.take_zero, List.nil_append] at hfill
      · exact ⟨hin, fun g hg => Ending.noConfusion hg⟩

/-- a body that ends within its room lands -/
theorem lands_of_inside (hne : srcData ≠ []) (dstData : ByteArray) {skipped kept : Nat}
    (hk : kept < 2 ^ w) {e : Ending}
    (hcomes : Machine.Comes
      (fun fuel => unpack w alloc i fuel srcData dstData skipped kept) e)
    (hin : ∀ sp ∈ e.spans, sp.Inside) :
    LandsAt w alloc (srcData.length * 10) kept (Answers i (srcData.drop skipped)) := by
  have hlen := Nat.mod_lt (srcData.length * 10) (Nat.two_pow_pos w)
  rw [unpack_eq alloc hne] at hcomes
  rw [← landsAt_mod]
  generalize srcData.length * 10 % 2 ^ w = len at hlen hcomes
  cases halloc : alloc ((len + kept) % 2 ^ w) with
  | false => exact lands_refused hlen halloc
  | true =>
    rw [halloc] at hcomes
    obtain ⟨n, hn⟩ := hcomes
    obtain ⟨e', he', rfl⟩ := Option.map_eq_some_iff.mp (hn n (Nat.le_refl n))
    exact loop_lands hk n hlen (Vec.resize_length dstData _ 0) he' fun sp hsp =>
      hin sp (afterLoop_spans alloc _ _ _ sp hsp)

/-- **One body: it does what it is for if and only if it lands.** -/
theorem unpack_lands (hne : srcData ≠ []) (hw : srcData.length < 2 ^ w) (dstData : ByteArray)
    {skipped kept : Nat} (hkept : kept ≤ skipped) (hskipped : skipped ≤ srcData.length) :
    Inflates i srcData skipped kept
        (fun fuel => unpack w alloc i fuel srcData dstData skipped kept) ↔
      LandsAt w alloc (srcData.length * 10) kept (Answers i (srcData.drop skipped)) := by
  refine ⟨fun ⟨e, hcomes, hin, _⟩ => lands_of_inside alloc hne dstData (by omega) hcomes hin, ?_⟩
  have hlen := Nat.mod_lt (srcData.length * 10) (Nat.two_pow_pos w)
  rw [unpack_eq alloc hne, ← landsAt_mod]
  generalize srcData.length * 10 % 2 ^ w = len at hlen
  intro hlands
  cases halloc : alloc ((len + kept) % 2 ^ w) with
  | false =>
    exact ⟨.threw [], Machine.comes_now _, List.forall_mem_nil _, fun f hf => Ending.noConfusion hf⟩
  | true =>
    obtain ⟨k, hbefore, hend⟩ := hlands
    obtain ⟨e, hcomes, hin, hun⟩ := loop_comes k hlen
      (Vec.resize_length dstData ((len + kept) % 2 ^ w) 0) halloc hbefore hend
    obtain ⟨h1, h2⟩ := afterLoop_spec alloc hkept hskipped hin hun
    exact ⟨_, hcomes.map _, h1, h2⟩

end

section
variable {w : Nat} (alloc : Nat → Bool) {i : ExactInflate} {srcData : ByteArray}

theorem unpack_iff (hne : srcData ≠ []) (hw : srcData.length < 2 ^ w) (dstData : ByteArray)
    {skipped kept : Nat} (hkept : kept ≤ skipped) (hskipped : skipped ≤ srcData.length) :
    Inflates i.toInflate srcData skipped kept
        (fun fuel => unpack w alloc i.toInflate fuel srcData dstData skipped kept) ↔
      Lands w alloc (srcData.length * 10) kept (i.need (srcData.drop skipped)) :=
  (unpack_lands alloc hne hw dstData hkept hskipped).trans (LandsAt.congr (answers_iff i _))

/-- **Every overload inflates if and only if it lands.** -/
theorem inflate_width_iff (hne : srcData ≠ []) (hw : srcData.length < 2 ^ w)
    (dstData : ByteArray) {r : Nat} (hr : r ≤ srcData.length) :
    (Inflates i.toInflate srcData r 0
        (fun fuel => zlibDecompress w alloc i.toInflate fuel srcData dstData r) ↔
      Lands w alloc (srcData.length * 10) 0 (i.need (srcData.drop r))) ∧
    (Inflates i.toInflate srcData r r
        (fun fuel => zlibDecompress2 w alloc i.toInflate fuel srcData dstData r) ↔
      Lands w alloc (srcData.length * 10) r (i.need (srcData.drop r))) ∧
    (Inflates i.toInflate srcData r r
        (fun fuel => zlibDecompress2Ptr w alloc i.toInflate fuel srcData dstData r) ↔
      Lands w alloc (srcData.length * 10) r (i.need (srcData.drop r))) ∧
    (Inflates i.toInflate srcData r r
        (fun fuel => zlibDecompressPtr w alloc i.toInflate fuel srcData dstData r) ↔
      Lands w alloc (srcData.length * 10) r (i.need (srcData.drop r))) ∧
    ∀ reservedLen < 0, srcData.take zipString.length = zipString →
      (Inflates i.toInflate srcData zipString.length 0
          (fun fuel => zlibDecompressPtr w alloc i.toInflate fuel srcData dstData reservedLen) ↔
        Lands w alloc (srcData.length * 10) 0 (i.need (srcData.drop zipString.length))) := by
  have hreserved : (if (r : Int) > 0 then (r : Int).toNat else 0) = r := by
    split <;> omega
  have hkeeps := unpack_iff alloc (i := i) hne hw dstData (Nat.le_refl r) hr
  refine ⟨?_, hkeeps, hkeeps, ?_, fun reservedLen hneg hmark => ?_⟩
  · unfold zlibDecompress
    rw [hreserved]
    exact unpack_iff alloc hne hw dstData (Nat.zero_le r) hr
  · have hptr : ∀ fuel, zlibDecompressPtr w alloc i.toInflate fuel srcData dstData r
        = unpack w alloc i.toInflate fuel srcData dstData r r :=
      fun fuel => if_pos (Int.natCast_nonneg r)
    rw [funext hptr]
    exact hkeeps
  · have hlong : zipString.length ≤ srcData.length := by
      have hlen := congrArg List.length hmark
      rw [List.length_take] at hlen
      omega
    have hptr : ∀ fuel, zlibDecompressPtr w alloc i.toInflate fuel srcData dstData reservedLen
        = unpack w alloc i.toInflate fuel srcData dstData zipString.length 0 := by
      intro fuel
      rw [zlibDecompressPtr, if_neg (by omega)]
      dsimp only
      rw [if_neg fun h => hne (List.eq_nil_of_length_eq_zero h), if_neg]
      rintro (hshort | hother)
      · omega
      · exact hother hmark
    rw [funext hptr]
    exact unpack_iff alloc hne hw dstData (Nat.zero_le _) hlong

end

/-! ## sizes at which nothing wraps around -/

/-- doubling what is below twice the need reaches the need without leaving the words -/
theorem landsAt_small {w : Nat} (alloc : Nat → Bool) {enough : Nat → Prop} {need : Nat}
    (henough : ∀ room, need ≤ room → enough room) {start kept : Nat} (h0 : 0 < start)
    (hstart : start + kept < 2 ^ w) (hneed : 2 * need + kept < 2 ^ w) :
    LandsAt w alloc start kept enough := by
  -- induction on what is missing
  induction hm : need - start using Nat.strong_induction_on generalizing start with
  | _ m ih =>
    have hlen : start < 2 ^ w := by omega
    by_cases hge : need ≤ start
    · exact lands_enough hlen hstart (henough start hge)
    · have hdouble : (start + start) % 2 ^ w = start + start := Nat.mod_eq_of_lt (by omega)
      refine LandsAt.succ hlen hstart ?_
      rw [hdouble]
      exact ih (need - (start + start)) (by omega) (by omega) (by omega) rfl

theorem lands_small {w : Nat} (alloc : Nat → Bool) {start kept need : Nat} (h0 : 0 < start)
    (hstart : start + kept < 2 ^ w) (hneed : 2 * need + kept < 2 ^ w) :
    Lands w alloc start kept need :=
  landsAt_small alloc (fun _ h => h) h0 hstart hneed

/-- without a reserved length in front a capacity that is not zero reaches half of the words -/
theorem lands_half {w : Nat} (alloc : Nat → Bool) {start need : Nat} (h0 : start % 2 ^ w ≠ 0)
    (hneed : 2 * need ≤ 2 ^ w) : Lands w alloc start 0 need := by
  rw [lands_iff, ← landsAt_mod]
  have hlen := Nat.mod_lt start (Nat.two_pow_pos w)
  generalize start % 2 ^ w = len at h0 hlen
  induction hm : 2 ^ w - len using Nat.strong_induction_on generalizing len with
  | _ m ih =>
    by_cases henough : need ≤ len
    · exact lands_enough hlen hlen henough
    · have hdouble : (len + len) % 2 ^ w = len + len := Nat.mod_eq_of_lt (by omega)
      refine LandsAt.succ hlen hlen ?_
      rw [hdouble]
      exact ih (2 ^ w - (len + len)) (by omega) (len + len) (by omega) (by omega) rfl

/-- **Where the words are large enough they do not matter**: with memory for every size the result
is the one of `Netwb.zlibDecompressPtr`. -/
theorem zlibDecompressPtr_unbounded {w : Nat} {i : Inflate} {srcData : ByteArray}
    (hne : srcData ≠ []) {r need : Nat} (hr : r ≤ srcData.length)
    (henough : ∀ room, need ≤ room → Answers i (srcData.drop r) room)
    (hw : srcData.length * 10 + r < 2 ^ w) (hneed : 2 * need + r < 2 ^ w)
    (dstData dstData' : ByteArray) :
    ∃ e f, Machine.Comes
        (fun fuel => zlibDecompressPtr w (fun _ => true) i fuel srcData dstData r) e ∧
      Machine.Comes (fun fuel => Netwb.zlibDecompressPtr i fuel srcData dstData' r) f ∧
      ∀ g, e = .returned g → g.dstData = f.dstData := by
  have hn := List.length_pos_of_ne_nil hne
  have hsplit : srcData.take r ++ srcData.drop r = srcData := List.take_append_drop r srcData
  have hlen : (srcData.take r).length = r := by
    rw [List.length_take]
    omega
  have hptr : ∀ fuel, zlibDecompressPtr w (fun _ => true) i fuel srcData dstData r
      = unpack w (fun _ => true) i fuel srcData dstData r r := fun _ => if_pos (Int.natCast_nonneg r)
  have hptr' : ∀ fuel, Netwb.zlibDecompressPtr i fuel srcData dstData' r
      = unpackReserved i fuel srcData dstData' r := fun _ => if_pos (Int.natCast_nonneg r)
  obtain ⟨e, hcomes, _, he⟩ := (unpack_lands (fun _ => true) hne (by omega) dstData
    (Nat.le_refl r) hr).mpr (landsAt_small _ henough (by omega) hw hneed)
  obtain ⟨f, hf, hd, _⟩ := unpackReserved_spec i (srcData.take r) (srcData.drop r) dstData'
    (by rw [hsplit]; exact hne)
  rw [hsplit, hlen] at hf
  rw [funext hptr, funext hptr']
  refine ⟨e, f, hcomes, hf, fun g hg => ?_⟩
  have hres := he g hg
  unfold Inflate.unpacked at hd
  cases hc : i.contents (srcData.drop r) with
  | some data =>
    rw [hc] at hres hd
    exact hres.2.trans hd.symm
  | none =>
    rw [hc] at hres hd
    rw [hres.2, hd, Nat.sub_self]
    exact hsplit.symm

/-! ## runs on fixed data -/

/-- zlib on one stream and on bytes that are none -/
def exactOne (stream data : ByteArray) (hne : [] ≠ stream) : ExactInflate where
  toInflate := .one stream data hne
  no_retry h room := by
    show (uncompressOne stream data room _).1 ≠ Z_BUF_ERROR
    rw [uncompressOne_other h room]
    show Z_DATA_ERROR ≠ Z_BUF_ERROR
    decide

/-- the stream of `A` behind the mark, in words of 32 bits -/
theorem inflate_width_A : Inflates (exactOne streamA [0x41] (by decide)).toInflate
    (zipString ++ streamA) zipString.length 0 (fun fuel => zlibDecompressPtr 32 (fun _ => true)
      (exactOne streamA [0x41] (by decide)).toInflate fuel (zipString ++ streamA) [] (-1)) :=
  ((inflate_width_iff (fun _ => true) (r := 0) (by decide) (by decide) [] (Nat.zero_le _)).2.2.2.2 (-1) (by decide)
    (by decide)).mpr (lands_half _ (by decide) (by decide))

/-- 429496729 bytes that are no stream, six of them reserved: `uncompress` is told of 4294967290
bytes behind the sixth of an empty vector -/
theorem inflate_told_too_much : ¬ Inflates (exactOne streamA [0x41] (by decide)).toInflate
    (List.replicate 429496729 0) 6 6 (fun fuel => zlibDecompress2 32 (fun _ => true)
      (exactOne streamA [0x41] (by decide)).toInflate fuel (List.replicate 429496729 0) [] 6) := by
  have hlen : (List.replicate 429496729 (0 : BYTE)).length = 429496729 := List.length_replicate
  intro h
  have hlands := (unpack_iff (fun _ => true) (i := exactOne streamA [0x41] (by decide))
    (fun h0 => by rw [h0] at hlen; cases hlen) (by rw [hlen]; decide) [] (Nat.le_refl 6)
    (by rw [hlen]; decide)).mp h
  exact not_lands (fun _ => rfl) (by rw [hlen]; decide) hlands

end Width

end Netwb
