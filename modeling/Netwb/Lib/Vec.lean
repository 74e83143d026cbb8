import Mathlib.Data.List.Basic
import Mathlib.Tactic.NormNum

/-!
# Vectors and raw memory copies

A growable array is a list.  `resize` cuts it or fills it up; `memcpy dst pos src` writes the cells
of `src` from position `pos` of `dst` on and never changes the size of `dst` (cells that would land
outside are not kept).  A read is a `peek`: inside the array it is the cell, outside it is whatever
the memory there holds, a function `wild` of the position about which nothing is assumed.

A `Span` is a range of cells that a program touches, and the size of the array that it is meant to
lie in.  A `Copy` is a range of cells that is copied to another place of the same array.
-/

namespace Vec
variable {α : Type}

def resize (v : List α) (n : Nat) (fill : α) : List α :=
  v.take n ++ List.replicate (n - v.length) fill

def memcpy (dst : List α) (pos : Int) (src : List α) : List α :=
  (dst.take pos.toNat ++ src.drop (-pos).toNat ++
    dst.drop (pos.toNat + (src.drop (-pos).toNat).length)).take dst.length

/-- the cell at a position, or what the memory outside holds there -/
def peek (wild : Int → α) (v : List α) (pos : Int) : α :=
  if 0 ≤ pos then v.getD pos.toNat (wild pos) else wild pos

/-- `n` cells from a position on -/
def peeks (wild : Int → α) (v : List α) : Int → Nat → List α
  | _, 0 => []
  | pos, n + 1 => peek wild v pos :: peeks wild v (pos + 1) n

/-- cells from `start` on, in an array of `size` cells -/
structure Span where
  start : Int
  len : Nat
  size : Nat
deriving DecidableEq, Repr

/-- no cell of it is outside the array -/
def Span.Inside (s : Span) : Prop := s.len = 0 ∨ 0 ≤ s.start ∧ s.start + s.len ≤ s.size

instance (s : Span) : Decidable s.Inside := inferInstanceAs (Decidable (_ ∨ _))

/-- `len` cells copied within one array -/
structure Copy where
  dst : Nat
  src : Nat
  len : Nat
deriving DecidableEq, Repr

/-- the copy, with the source read before anything is written -/
def Copy.apply (wild : Int → α) (v : List α) (c : Copy) : List α :=
  memcpy v c.dst (peeks wild v c.src c.len)

/-- no cell is both read and written -/
def Copy.Disjoint (c : Copy) : Prop :=
  ∀ i, ¬ ((c.src ≤ i ∧ i < c.src + c.len) ∧ (c.dst ≤ i ∧ i < c.dst + c.len))

/-! ## sizes -/

@[simp] theorem resize_length (v : List α) (n : Nat) (fill : α) :
    (resize v n fill).length = n := by
  simp only [resize, List.length_append, List.length_take, List.length_replicate]
  omega

@[simp] theorem memcpy_length (dst : List α) (pos : Int) (src : List α) :
    (memcpy dst pos src).length = dst.length := by
  simp only [memcpy, List.length_take, List.length_append, List.length_drop]
  omega

@[simp] theorem peeks_length (wild : Int → α) (v : List α) (pos : Int) (n : Nat) :
    (peeks wild v pos n).length = n := by
  induction n generalizing pos with
  | zero => rfl
  | succ n ih => rw [peeks, List.length_cons, ih]

/-! ## copies inside the array -/

/-- what is within both sizes is kept -/
theorem resize_keeps (v : List α) (n : Nat) (fill : α) {k : Nat} (hk : k ≤ v.length)
    (hn : k ≤ n) : (resize v n fill).take k = v.take k := by
  rw [resize, List.take_append_of_le_length (by rw [List.length_take]; omega), List.take_take,
    Nat.min_eq_left hn]

theorem resize_take (v : List α) (n : Nat) (fill : α) (h : v.length ≤ n) (k : Nat)
    (hk : k ≤ v.length) : (resize v n fill).take k = v.take k :=
  resize_keeps v n fill hk (Nat.le_trans hk h)

theorem resize_getElem? (v : List α) (n : Nat) (fill : α) (h : v.length ≤ n) {i : Nat}
    (hi : i < v.length) : (resize v n fill)[i]? = v[i]? := by
  rw [resize, List.take_of_length_le h, List.getElem?_append_left hi]

theorem resize_shrink (v : List α) (n : Nat) (fill : α) (h : n ≤ v.length) :
    resize v n fill = v.take n := by
  rw [resize, Nat.sub_eq_zero_of_le h, List.replicate_zero, List.append_nil]

theorem memcpy_inside (dst : List α) (k : Nat) (src : List α) (h : k + src.length ≤ dst.length) :
    memcpy dst (k : Int) src = dst.take k ++ src ++ dst.drop (k + src.length) := by
  have h0 : (-(k : Int)).toNat = 0 := by omega
  rw [memcpy, h0, List.drop_zero, Int.toNat_natCast]
  apply List.take_of_length_le
  simp only [List.length_append, List.length_take, List.length_drop]
  omega

/-- the cells before the copy and the copied ones -/
theorem memcpy_take_src (dst : List α) (k : Nat) (src : List α)
    (h : k + src.length ≤ dst.length) :
    (memcpy dst (k : Int) src).take (k + src.length) = dst.take k ++ src := by
  rw [memcpy_inside dst k src h]
  exact List.take_left' (by simp; omega)

/-- a copy into an array that is cut behind it -/
theorem resize_memcpy (dst : List α) (k : Nat) (src : List α) (fill : α)
    (h : k + src.length ≤ dst.length) :
    resize (memcpy dst (k : Int) src) (src.length + k) fill = dst.take k ++ src := by
  rw [resize_shrink _ _ _ (by rw [memcpy_length]; omega), Nat.add_comm, memcpy_take_src dst k src h]

/-- a copy into an array that ends with it -/
theorem memcpy_fill (dst : List α) (k : Nat) (src : List α) (h : dst.length = k + src.length) :
    memcpy dst (k : Int) src = dst.take k ++ src := by
  rw [memcpy_inside dst k src (by omega), List.drop_of_length_le (by omega), List.append_nil]

/-- a copy over the front -/
theorem memcpy_over (front rest src : List α) (h : src.length = front.length) :
    memcpy (front ++ rest) 0 src = src ++ rest := by
  have hin := memcpy_inside (front ++ rest) 0 src (by rw [List.length_append]; omega)
  rw [List.take_zero, List.nil_append, Nat.zero_add, List.drop_left' h.symm] at hin
  exact hin

/-- a copy to the front, of which only the first cells are looked at -/
theorem memcpy_front (dst src : List α) (k : Nat) (hd : k ≤ dst.length) (hs : k ≤ src.length) :
    (memcpy dst 0 src).take k = src.take k := by
  show (List.take k ((dst.take 0 ++ src.drop 0 ++ dst.drop _).take dst.length)) = _
  rw [List.take_take, Nat.min_eq_left hd, List.take_zero, List.nil_append, List.drop_zero,
    List.take_append_of_le_length hs]

/-- after a change of the size, the old cells over the front change nothing -/
theorem memcpy_resize (v : List α) (n : Nat) (fill : α) :
    memcpy (resize v n fill) 0 v = resize v n fill := by
  rcases Nat.le_total v.length n with hle | hge
  · rw [resize, List.take_of_length_le hle]
    exact memcpy_over v _ v rfl
  · have hl := resize_length v n fill
    have hf := memcpy_front (resize v n fill) v n (Nat.le_of_eq hl.symm) hge
    rw [List.take_of_length_le (by rw [memcpy_length, hl])] at hf
    rw [hf, resize_shrink v n fill hge]

theorem memcpy_drop (dst : List α) (k : Nat) (src : List α) (h : k + src.length ≤ dst.length) :
    (memcpy dst (k : Int) src).drop (k + src.length) = dst.drop (k + src.length) := by
  rw [memcpy_inside dst k src h]
  exact List.drop_left' (by simp; omega)

theorem memcpy_read (dst : List α) (k : Nat) (src : List α) (h : k + src.length ≤ dst.length) :
    ((memcpy dst (k : Int) src).drop k).take src.length = src := by
  rw [List.take_drop, memcpy_take_src dst k src h]
  exact List.drop_left' (by rw [List.length_take]; omega)

theorem memcpy_frame (dst : List α) (k : Nat) (src : List α) (h : k + src.length ≤ dst.length)
    (i : Nat) (hi : i < k ∨ k + src.length ≤ i) :
    (memcpy dst (k : Int) src)[i]? = dst[i]? := by
  rcases hi with hlt | hge
  · have ht := congrArg (fun l => l[i]?) (memcpy_take_src dst k src h)
    rw [List.getElem?_take_of_lt (by omega), List.getElem?_append_left (by
      rw [List.length_take]; omega), List.getElem?_take_of_lt hlt] at ht
    exact ht
  · have hd := congrArg (fun l => l[i - (k + src.length)]?) (memcpy_drop dst k src h)
    rwa [List.getElem?_drop, List.getElem?_drop, Nat.add_sub_cancel' hge] at hd

theorem memcpy_memcpy (dst : List α) (k : Nat) (a b : List α)
    (h : k + (a.length + b.length) ≤ dst.length) :
    memcpy (memcpy dst (k : Int) a) ((k + a.length : Nat) : Int) b
      = memcpy dst (k : Int) (a ++ b) := by
  have ha : k + a.length ≤ dst.length := by omega
  have hl : (a ++ b).length = a.length + b.length := List.length_append
  rw [memcpy_inside (memcpy dst (k : Int) a) _ b (by rw [memcpy_length]; omega),
    memcpy_inside dst k (a ++ b) (by omega), memcpy_take_src dst k a ha, hl,
    ← List.drop_drop, memcpy_drop dst k a ha, List.drop_drop, List.append_assoc _ a b,
    Nat.add_assoc]

/-! ## reads inside the array -/

theorem peek_inside (wild : Int → α) (v : List α) (k : Nat) (h : k < v.length) :
    peek wild v (k : Int) = v[k] := by
  simp [peek, h]

theorem peek_neg (wild : Int → α) (v : List α) (pos : Int) (h : pos < 0) :
    peek wild v pos = wild pos := by
  have : ¬ 0 ≤ pos := by omega
  simp [peek, this]

theorem peeks_inside (wild : Int → α) (v : List α) (k n : Nat) (h : k + n ≤ v.length) :
    peeks wild v (k : Int) n = (v.drop k).take n := by
  induction n generalizing k with
  | zero => simp [peeks]
  | succ n ih =>
    have hk : k < v.length := by omega
    have e : ((k : Int) + 1) = ((k + 1 : Nat) : Int) := by omega
    rw [peeks, peek_inside wild v k hk, e, ih (k + 1) (by omega),
      List.drop_eq_getElem_cons hk, List.take_succ_cons]

theorem peeks_front (wild : Int → α) (v : List α) (n : Nat) (h : n ≤ v.length) :
    peeks wild v 0 n = v.take n := by
  have hin := peeks_inside wild v 0 n (by omega)
  rwa [List.drop_zero] at hin

/-- the first cells of what was copied to the front -/
theorem peeks_copied (wild : Int → α) (dst src : List α) (k : Nat) (hd : k ≤ dst.length)
    (hs : k ≤ src.length) : peeks wild (memcpy dst 0 src) 0 k = src.take k := by
  rw [peeks_front _ _ _ (by rw [memcpy_length]; exact hd), memcpy_front dst src k hd hs]

/-- what was copied to the front is read there -/
theorem peeks_memcpy (wild : Int → α) (dst src : List α) (h : src.length ≤ dst.length) :
    peeks wild (memcpy dst 0 src) 0 src.length = src := by
  rw [peeks_copied wild dst src _ h (Nat.le_refl _), List.take_length]

theorem peeks_all (wild : Int → α) (v : List α) : peeks wild v 0 v.length = v := by
  rw [peeks_front _ _ _ (Nat.le_refl _), List.take_length]

theorem peeks_append (wild : Int → α) (v : List α) (pos : Int) (n m : Nat) :
    peeks wild v pos (n + m) = peeks wild v pos n ++ peeks wild v (pos + (n : Int)) m := by
  induction n generalizing pos with
  | zero => simp [peeks]
  | succ n ih =>
    have e : n + 1 + m = (n + m) + 1 := by omega
    have e' : pos + 1 + (n : Int) = pos + ((n + 1 : Nat) : Int) := by omega
    rw [e, peeks, peeks, ih (pos + 1), List.cons_append, e']

/-- cells moved to the front are read from behind all that are written -/
theorem disjoint_front (src len : Nat) : (Copy.mk 0 src len).Disjoint ↔ len ≤ src := by
  constructor
  · intro hd
    by_contra hlong
    exact hd src ⟨⟨Nat.le_refl _, by dsimp only; omega⟩, ⟨Nat.zero_le _, by dsimp only; omega⟩⟩
  · rintro hle i ⟨⟨hsrc, -⟩, -, hdst⟩
    dsimp only at hsrc hdst
    omega

/-! ## tables filled in a loop -/

section
variable (key : Nat → Nat) (value : Nat → α) (t : List α)

/-- `t[key i] = value i` for `i < n` -/
def fill (n : Nat) : List α := (List.range n).foldl (fun t i => t.set (key i) (value i)) t

theorem fill_succ (n : Nat) :
    fill key value t (n + 1) = (fill key value t n).set (key n) (value n) := by
  rw [fill, List.range_succ, List.foldl_append]
  rfl

@[simp] theorem fill_length (n : Nat) : (fill key value t n).length = t.length := by
  induction n with
  | zero => rfl
  | succ n ih => rw [fill_succ, List.length_set, ih]

/-- a cell that is no key keeps what it held -/
theorem fill_other (d : α) {m : Nat} (n : Nat) (h : ∀ i < n, key i ≠ m) :
    (fill key value t n).getD m d = t.getD m d := by
  induction n with
  | zero => rfl
  | succ n ih =>
    rw [fill_succ, List.getD_eq_getElem?_getD, List.getElem?_set_ne (h n (Nat.lt_succ_self n)),
      ← List.getD_eq_getElem?_getD]
    exact ih fun i hi => h i (Nat.lt_succ_of_lt hi)

/-- with different keys each cell holds its value -/
theorem fill_get (d : α) (n : Nat) (hkey : ∀ i < n, key i < t.length)
    (hinj : ∀ i < n, ∀ j < i, key j ≠ key i) :
    ∀ i < n, (fill key value t n).getD (key i) d = value i := by
  induction n with
  | zero => exact fun i hi => absurd hi (Nat.not_lt_zero i)
  | succ n ih =>
    intro i hi
    rw [fill_succ, List.getD_eq_getElem?_getD]
    rcases Nat.lt_succ_iff_lt_or_eq.mp hi with hlt | rfl
    · rw [List.getElem?_set_ne (Ne.symm (hinj n (Nat.lt_succ_self n) i hlt)),
        ← List.getD_eq_getElem?_getD]
      exact ih (fun j hj => hkey j (Nat.lt_succ_of_lt hj))
        (fun j hj => hinj j (Nat.lt_succ_of_lt hj)) i hlt
    · rw [List.getElem?_set_self (by rw [fill_length]; exact hkey i hi)]
      rfl

end

end Vec
