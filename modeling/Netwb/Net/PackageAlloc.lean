import Netwb.Net.Package
import Netwb.Lib.Run

/-!
# The allocator of a package

`NetPackageAlloc` of `net/NetPackageAlloc.cpp`: a vector that belongs to somebody else, `m_bytes`,
holds room for a header and behind it the one block that was asked for last.  `size_t` has `w` bits,
so that the sum of the header's length and of the size asked for may wrap around.

`Realloc` copies ALL the old bytes back to the front of the resized vector, which is shorter when
the block shrinks.

* `Realloc_eq`       what the vector holds afterwards is what `resize` leaves in it;
* `realloc_iff`      one call of `Realloc`: it keeps what it has to keep and stays inside the vector
                     if and only if the block does not shrink and the sum does not wrap around;
* `alloc_lawful_iff` the same for all calls of a run;
* `reallocs_grown`   as a block grows, call after call, what stands in it stays where it is.
-/

namespace Netwb
namespace NetPackageAlloc

/-! ## the code -/

section
variable (w : Nat)

/-- `NET_PACKAGE_HEADER_LENGTH + sz` -/
def total (sz : Nat) : Nat := (NET_PACKAGE_HEADER_LENGTH + sz) % 2 ^ w

/-- the vector, and where in it the returned block starts -/
def Malloc (m_bytes : ByteArray) (sz : Nat) : ByteArray × Nat :=
  (Vec.resize m_bytes (total w sz) 0, NET_PACKAGE_HEADER_LENGTH)

def Realloc (m_bytes : ByteArray) (sz : Nat) : ByteArray × Nat :=
  let raw := m_bytes
  let m_bytes := Vec.resize m_bytes (total w sz) 0
  (Vec.memcpy m_bytes 0 raw, NET_PACKAGE_HEADER_LENGTH)

/-- the cells that the `memcpy` of `Realloc` writes -/
def copied (m_bytes : ByteArray) (sz : Nat) : Vec.Span := ⟨0, m_bytes.length, total w sz⟩

def Free (_ : ByteArray) : ByteArray := []

/-! ## runs -/

/-- a call, with the memory that the vector needs for it there or not, or a write of the owner to
the returned block -/
inductive Event
  | Malloc (sz : Nat) (memory : Bool)
  | Realloc (sz : Nat) (memory : Bool)
  | Free
  | write (offset : Nat) (data : ByteArray)
deriving DecidableEq, Repr

/-- a vector that gets no memory throws and is as it was -/
def step (m_bytes : ByteArray) : Event → Option ByteArray
  | .Malloc sz memory => some (if memory then (Malloc w m_bytes sz).1 else m_bytes)
  | .Realloc sz memory => some (if memory then (Realloc w m_bytes sz).1 else m_bytes)
  | .Free => some (Free m_bytes)
  | .write offset data =>
    if NET_PACKAGE_HEADER_LENGTH + offset + data.length ≤ m_bytes.length then
      some (Vec.memcpy m_bytes ((NET_PACKAGE_HEADER_LENGTH + offset : Nat) : Int) data)
    else none

/-- what the calls write, apart from `resize` -/
def spans (m_bytes : ByteArray) : Event → List Vec.Span
  | .Realloc sz true => [copied w m_bytes sz]
  | _ => []

end

/-! ## what a reallocation has to keep -/

/-- from a vector with a block to one with a block of `sz` bytes -/
structure Kept (m m' : ByteArray) (sz : Nat) : Prop where
  header : NET_PACKAGE_HEADER_LENGTH ≤ m.length →
    m'.take NET_PACKAGE_HEADER_LENGTH = m.take NET_PACKAGE_HEADER_LENGTH
  content : (m'.drop NET_PACKAGE_HEADER_LENGTH).take
      (min (m.length - NET_PACKAGE_HEADER_LENGTH) sz)
    = (m.drop NET_PACKAGE_HEADER_LENGTH).take (min (m.length - NET_PACKAGE_HEADER_LENGTH) sz)
  size : m'.length = NET_PACKAGE_HEADER_LENGTH + sz

/-- no call writes outside the vector as resized, and `Realloc` keeps what it has to keep -/
structure Lawful (w : Nat) (m : ByteArray) (e : Event) : Prop where
  inside : ∀ sp ∈ spans w m e, sp.Inside
  kept : ∀ sz, e = .Realloc sz true → Kept m (Realloc w m sz).1 sz

/-- a reallocation does not shrink the vector, and its size is a `size_t` -/
def Grows (w : Nat) (m : ByteArray) : Event → Prop
  | .Realloc sz true =>
    NET_PACKAGE_HEADER_LENGTH + sz < 2 ^ w ∧ m.length ≤ NET_PACKAGE_HEADER_LENGTH + sz
  | _ => True

/-- the copy puts back what is there already -/
theorem Realloc_eq (w : Nat) (m : ByteArray) (sz : Nat) :
    (Realloc w m sz).1 = Vec.resize m (total w sz) 0 :=
  Vec.memcpy_resize m (total w sz) 0

theorem total_eq_iff (w sz : Nat) :
    total w sz = NET_PACKAGE_HEADER_LENGTH + sz ↔ NET_PACKAGE_HEADER_LENGTH + sz < 2 ^ w := by
  rw [total, Nat.mod_eq_iff_lt (Nat.ne_of_gt (Nat.two_pow_pos w))]

/-- whatever the old size -/
theorem resize_kept (m : ByteArray) (sz : Nat) :
    Kept m (Vec.resize m (NET_PACKAGE_HEADER_LENGTH + sz) 0) sz where
  header h := Vec.resize_keeps m _ 0 h (Nat.le_add_right _ _)
  content := by
    rcases Nat.lt_or_ge m.length NET_PACKAGE_HEADER_LENGTH with hlt | hge
    · rw [Nat.sub_eq_zero_of_le (Nat.le_of_lt hlt), Nat.zero_min, List.take_zero, List.take_zero]
    · rw [List.take_drop, List.take_drop, Vec.resize_keeps m _ 0 (by omega) (by omega)]
  size := Vec.resize_length _ _ _

/-- **One call of `Realloc`.** -/
theorem realloc_iff (w : Nat) (m : ByteArray) (sz : Nat) :
    (copied w m sz).Inside ∧ Kept m (Realloc w m sz).1 sz ↔
      NET_PACKAGE_HEADER_LENGTH + sz < 2 ^ w ∧ m.length ≤ NET_PACKAGE_HEADER_LENGTH + sz := by
  constructor
  · rintro ⟨hin, hk⟩
    have ht : total w sz = NET_PACKAGE_HEADER_LENGTH + sz := by
      rw [← hk.size, Realloc_eq, Vec.resize_length]
    refine ⟨(total_eq_iff w sz).mp ht, ?_⟩
    rcases hin with h0 | ⟨-, hle⟩
    · have : m.length = 0 := h0
      omega
    · have : (0 : Int) + (m.length : Int) ≤ (total w sz : Int) := hle
      omega
  · rintro ⟨hlt, hle⟩
    have ht := (total_eq_iff w sz).mpr hlt
    refine ⟨Or.inr ⟨Int.le_refl 0, ?_⟩, ?_⟩
    · show (0 : Int) + (m.length : Int) ≤ (total w sz : Int)
      omega
    · rw [Realloc_eq, ht]
      exact resize_kept m sz

theorem lawful_iff (w : Nat) (m : ByteArray) (e : Event) : Lawful w m e ↔ Grows w m e := by
  cases e with
  | Realloc sz memory =>
    cases memory with
    | true =>
      refine Iff.trans ⟨fun h => ?_, fun h => ?_⟩ (realloc_iff w m sz)
      · exact ⟨h.inside _ (List.mem_singleton_self _), h.kept sz rfl⟩
      · refine ⟨fun sp hsp => List.mem_singleton.mp hsp ▸ h.1, fun sz' he => ?_⟩
        cases he
        exact h.2
    | false => exact ⟨fun _ => trivial, fun _ => ⟨nofun, nofun⟩⟩
  | Malloc | Free | write => exact ⟨fun _ => trivial, fun _ => ⟨nofun, nofun⟩⟩

/-- **Every call of a run is lawful if and only if no `Realloc` of it shrinks the vector or wraps
around.** -/
theorem alloc_lawful_iff (w : Nat) (m_bytes : ByteArray) (es : List Event) :
    Machine.Along (step w) (Lawful w) m_bytes es ↔ Machine.Along (step w) (Grows w) m_bytes es :=
  Machine.along_congr (lawful_iff w) m_bytes es

/-- a reallocation that does not shrink leaves the old bytes in front -/
theorem realloc_grown {w : Nat} {m : ByteArray} {sz : Nat} (h : Grows w m (.Realloc sz true)) :
    m <+: (Realloc w m sz).1 := by
  rw [Realloc_eq, (total_eq_iff w sz).mpr h.1, Vec.resize, List.take_of_length_le h.2]
  exact List.prefix_append _ _

/-- **As a block grows, call after call, what stands in it stays where it is.** -/
theorem reallocs_grown {w : Nat} {m m' : ByteArray} {es : List Event}
    (hes : ∀ e ∈ es, ∃ sz memory, e = .Realloc sz memory)
    (hg : Machine.Along (step w) (Grows w) m es) (h : Machine.run (step w) m es = some m') :
    m <+: m' := by
  refine Machine.run_inv (fun n => m <+: n) ?_ (List.prefix_refl m)
    (Machine.along_and hg (Machine.along_events m hes)) h
  rintro n e n' hn ⟨hgrows, sz, memory, rfl⟩ hs
  injection hs with hs
  cases memory with
  | false => exact hs ▸ hn
  | true => exact hs ▸ hn.trans (realloc_grown hgrows)

/-- `Malloc(8)` and then `Realloc(p, 4)`: 20 bytes are copied into 16 -/
theorem alloc_shrinks :
    ¬ Machine.Along (step 64) (Lawful 64) [] [.Malloc 8 true, .Realloc 4 true] := by
  intro h
  have hl := (Machine.along_tail h rfl).1.inside _ (List.mem_singleton_self _)
  revert hl
  decide

end NetPackageAlloc
end Netwb
