import Mathlib.Data.List.GetD

/-!
# A heap of separate blocks

Addresses are numbers; `0` is never the address of a block.  A new block gets an address that was
never used before, so what is known about other blocks is kept by every operation on one of them.

* `malloc` and `realloc` give a block of a size; `realloc` keeps the cells that fit, in place or at
  a new address as the allocator pleases (`moves`), and `junk` is what fresh memory holds;
* `store` writes cells from a position on (those that would land outside the block are not kept),
  `load` reads the first cells of a block.

`Resized` is what making, growing and shrinking a block have in common (`malloc_resized`,
`realloc_resized`): the size, the cells that are kept, and the frame.  `load_store` and
`blocks_store_other` say the same of a write.
-/

namespace Memory
variable {α : Type}

structure Block (α : Type) where
  size : Nat
  cells : Nat → α

/-- a block cut or filled up -/
def Block.resize (b : Block α) (n : Nat) (junk : Nat → α) : Block α :=
  ⟨n, fun i => if i < b.size then b.cells i else junk i⟩

/-- a block with cells written over from a position on -/
def Block.write (b : Block α) (pos : Int) (src : List α) : Block α :=
  { b with
    cells := fun i =>
      if pos ≤ i ∧ (i : Int) < pos + src.length ∧ i < b.size then
        src.getD ((i : Int) - pos).toNat (b.cells i)
      else b.cells i }

structure Heap (α : Type) where
  blocks : Nat → Option (Block α)
  next : Nat
  unused : ∀ a, next ≤ a → blocks a = none

namespace Heap

def empty : Heap α := ⟨fun _ => none, 1, fun _ _ => rfl⟩

/-- the size of the block at an address, `0` if there is none -/
def size (h : Heap α) (a : Nat) : Nat :=
  match h.blocks a with
  | some b => b.size
  | none => 0

/-- the cell at a place; outside a block it is `junk` -/
def cell (h : Heap α) (junk : Nat → α) (a i : Nat) : α :=
  match h.blocks a with
  | some b => if i < b.size then b.cells i else junk i
  | none => junk i

def load (h : Heap α) (junk : Nat → α) (a n : Nat) : List α := (List.range n).map (h.cell junk a)

def modify (h : Heap α) (a : Nat) (f : Block α → Option (Block α)) : Heap α where
  blocks x := if x = a then (h.blocks a).bind f else h.blocks x
  next := h.next
  unused x hx := by
    by_cases e : x = a
    · rw [if_pos e, ← e, h.unused x hx]
      rfl
    · rw [if_neg e, h.unused x hx]

def free (h : Heap α) (a : Nat) : Heap α := h.modify a fun _ => none

def store (h : Heap α) (a : Nat) (pos : Int) (src : List α) : Heap α :=
  h.modify a fun b => some (b.write pos src)

def malloc (h : Heap α) (n : Nat) (junk : Nat → α) : Heap α × Nat :=
  (⟨fun x => if x = h.next then some ⟨n, junk⟩ else h.blocks x, h.next + 1, fun x hx => by
    rw [if_neg (by omega), h.unused x (by omega)]⟩, h.next)

def realloc (h : Heap α) (a n : Nat) (moves : Bool) (junk : Nat → α) : Heap α × Nat :=
  match h.blocks a with
  | none => h.malloc n junk
  | some b =>
    if moves then (h.free a).malloc n (b.resize n junk).cells
    else (h.modify a fun _ => some (b.resize n junk), a)

/-! ## blocks -/

theorem size_congr {h h' : Heap α} {a : Nat} (e : h'.blocks a = h.blocks a) :
    h'.size a = h.size a := by
  rw [size, size, e]

theorem load_congr {h h' : Heap α} {a : Nat} (e : h'.blocks a = h.blocks a) (junk : Nat → α)
    (n : Nat) : h'.load junk a n = h.load junk a n := by
  refine List.map_congr_left fun i _ => ?_
  rw [cell, cell, e]

theorem load_length (h : Heap α) (junk : Nat → α) (a n : Nat) : (h.load junk a n).length = n := by
  rw [load, List.length_map, List.length_range]

/-- inside the block it does not matter what is outside -/
theorem load_inside (h : Heap α) (junk junk' : Nat → α) (a n : Nat) (hn : n ≤ h.size a) :
    h.load junk a n = h.load junk' a n := by
  refine List.map_congr_left fun i hi => ?_
  have hi' := List.mem_range.mp hi
  rw [size] at hn
  rw [cell, cell]
  cases hb : h.blocks a with
  | none =>
    rw [hb] at hn
    exact absurd hn (by show ¬ n ≤ 0; omega)
  | some b =>
    rw [hb] at hn
    have hs : i < b.size := Nat.lt_of_lt_of_le hi' hn
    show (if i < b.size then _ else _) = if i < b.size then _ else _
    rw [if_pos hs, if_pos hs]

/-! ## writing -/

theorem blocks_store_other (h : Heap α) {a x : Nat} (hx : x ≠ a) (pos : Int) (src : List α) :
    (h.store a pos src).blocks x = h.blocks x := if_neg hx

theorem blocks_store_none (h : Heap α) {x : Nat} (hx : h.blocks x = none) (a : Nat) (pos : Int)
    (src : List α) : (h.store a pos src).blocks x = none := by
  by_cases e : x = a
  · subst e
    show (if x = x then (h.blocks x).bind _ else _) = none
    rw [if_pos rfl, hx]
    rfl
  · exact (blocks_store_other h e pos src).trans hx

theorem size_store (h : Heap α) (a : Nat) (pos : Int) (src : List α) (x : Nat) :
    (h.store a pos src).size x = h.size x := by
  by_cases hx : x = a
  · subst hx
    rw [size, size, store, modify]
    dsimp only
    rw [if_pos rfl]
    cases h.blocks x <;> rfl
  · exact size_congr (blocks_store_other h hx pos src)

theorem cell_store (h : Heap α) (junk : Nat → α) (a k : Nat) (src : List α) (i : Nat)
    (hi : i < h.size a) : (h.store a k src).cell junk a i
      = if k ≤ i ∧ i < k + src.length then src.getD (i - k) (h.cell junk a i)
        else h.cell junk a i := by
  rw [size] at hi
  cases hb : h.blocks a with
  | none =>
    rw [hb] at hi
    exact absurd hi (Nat.not_lt_zero i)
  | some b =>
    rw [hb] at hi
    have hc : h.cell junk a i = b.cells i := by
      rw [cell, hb]
      exact if_pos hi
    have hs : (h.store a k src).cell junk a i = (b.write k src).cells i := by
      rw [cell, store, modify]
      dsimp only
      rw [if_pos rfl, hb]
      exact if_pos hi
    have hpos : ((i : Int) - (k : Int)).toNat = i - k := by omega
    rw [hs, hc, Block.write]
    dsimp only
    rw [hpos]
    by_cases hk : k ≤ i ∧ i < k + src.length
    · rw [if_pos hk, if_pos ⟨by omega, by omega, hi⟩]
    · rw [if_neg hk, if_neg fun hn => hk ⟨by omega, by omega⟩]

theorem load_add (h : Heap α) (junk : Nat → α) (a k n : Nat) :
    h.load junk a (k + n)
      = h.load junk a k ++ (List.range n).map fun j => h.cell junk a (k + j) := by
  rw [load, List.range_add, List.map_append, List.map_map]
  rfl

/-- a write inside what is loaded -/
theorem load_store_inside (h : Heap α) (junk : Nat → α) (a k r : Nat) (src : List α)
    (hn : k + src.length + r ≤ h.size a) :
    (h.store a k src).load junk a (k + src.length + r)
      = h.load junk a k ++ src ++
        (h.load junk a (k + src.length + r)).drop (k + src.length) := by
  have hl := load_length h junk a (k + src.length)
  have hbefore : (h.store a k src).load junk a k = h.load junk a k := by
    refine List.map_congr_left fun i hi => ?_
    have := List.mem_range.mp hi
    rw [cell_store h junk a k src i (by omega), if_neg (by omega)]
  have hsrc : (List.range src.length).map (fun j => (h.store a k src).cell junk a (k + j))
      = src := by
    refine List.ext_getElem (by simp) fun j hj hj' => ?_
    rw [List.getElem_map, List.getElem_range, cell_store h junk a k src (k + j) (by omega),
      if_pos (by omega), Nat.add_sub_cancel_left, List.getD_eq_getElem _ _ hj']
  have hafter : (List.range r).map (fun j => (h.store a k src).cell junk a (k + src.length + j))
      = (List.range r).map fun j => h.cell junk a (k + src.length + j) := by
    refine List.map_congr_left fun i hi => ?_
    have := List.mem_range.mp hi
    rw [cell_store h junk a k src _ (by omega), if_neg (by omega)]
  rw [load_add, load_add, hbefore, hsrc, hafter, load_add, List.drop_left' hl]

theorem load_take (h : Heap α) (junk : Nat → α) (a : Nat) {k n : Nat} (hk : k ≤ n) :
    (h.load junk a n).take k = h.load junk a k := by
  rw [load, ← List.map_take, List.take_range, Nat.min_eq_left hk, load]

/-- **A write behind what is loaded appends to it.** -/
theorem load_store (h : Heap α) (junk : Nat → α) (a k : Nat) (src : List α)
    (hin : k + src.length ≤ h.size a) :
    (h.store a k src).load junk a (k + src.length) = h.load junk a k ++ src := by
  have hl := load_length h junk a (k + src.length)
  have hi := load_store_inside h junk a k 0 src hin
  rwa [Nat.add_zero, List.drop_of_length_le (Nat.le_of_eq hl), List.append_nil] at hi

/-! ## making, growing and shrinking -/

/-- the block at `a`, or none, has become the one at `a'` -/
structure Resized (h : Heap α) (a : Nat) (h' : Heap α) (a' n : Nat) : Prop where
  size : h'.size a' = n
  kept : ∀ junk k, k ≤ h.size a → k ≤ n → h'.load junk a' k = h.load junk a k
  frame : ∀ x, x < h.next → x ≠ a ∨ h.blocks a = none → h'.blocks x = h.blocks x ∧ x ≠ a'
  next_le : h.next ≤ h'.next
  lt : a' < h'.next

theorem load_zero (h : Heap α) (junk : Nat → α) (a : Nat) : h.load junk a 0 = [] := rfl

theorem blocks_malloc (h : Heap α) (n : Nat) (junk : Nat → α) :
    (h.malloc n junk).1.blocks h.next = some ⟨n, junk⟩ := if_pos rfl

theorem malloc_resized (h : Heap α) (n : Nat) (junk : Nat → α) {a : Nat} (ha : h.size a = 0) :
    Resized h a (h.malloc n junk).1 (h.malloc n junk).2 n := by
  refine ⟨?_, ?_, ?_, Nat.le_succ _, Nat.lt_succ_self _⟩
  · show (h.malloc n junk).1.size h.next = n
    rw [size, blocks_malloc]
  · intro junk' k hk _
    obtain rfl : k = 0 := by omega
    rw [load_zero, load_zero]
  · intro x hx _
    have hne : x ≠ h.next := by omega
    exact ⟨if_neg hne, hne⟩

/-- a cell that a resized block keeps -/
theorem cell_resize {h h' : Heap α} {a a' : Nat} {b : Block α} (hb : h.blocks a = some b) {n : Nat}
    {junk : Nat → α} (hb' : h'.blocks a' = some (b.resize n junk)) (junk' : Nat → α) {i : Nat}
    (hi : i < h.size a) (hn : i < n) : h'.cell junk' a' i = h.cell junk' a i := by
  rw [size, hb] at hi
  have hold : h.cell junk' a i = b.cells i := by
    rw [cell, hb]
    exact if_pos hi
  have hnew : h'.cell junk' a' i = (b.resize n junk).cells i := by
    rw [cell, hb']
    exact if_pos hn
  rw [hold, hnew]
  exact if_pos hi

theorem realloc_resized (h : Heap α) (a n : Nat) (moves : Bool) (junk : Nat → α)
    (ha : a < h.next) :
    Resized h a (h.realloc a n moves junk).1 (h.realloc a n moves junk).2 n := by
  cases hb : h.blocks a with
  | none =>
    have e : h.realloc a n moves junk = h.malloc n junk := by rw [realloc, hb]
    rw [e]
    exact malloc_resized h n junk (by rw [size, hb])
  | some b =>
    have hkept : ∀ {h' : Heap α} {a' : Nat}, h'.blocks a' = some (b.resize n junk) →
        ∀ junk' k, k ≤ h.size a → k ≤ n → h'.load junk' a' k = h.load junk' a k := by
      intro h' a' hb' junk' k hk hkn
      refine List.map_congr_left fun i hi => ?_
      have := List.mem_range.mp hi
      exact cell_resize hb hb' junk' (by omega) (by omega)
    cases moves with
    | true =>
      have e : h.realloc a n true junk = (h.free a).malloc n (b.resize n junk).cells := by
        rw [realloc, hb]
        rfl
      have hnew := blocks_malloc (h.free a) n (b.resize n junk).cells
      rw [e]
      refine ⟨?_, hkept hnew, ?_, Nat.le_succ _, Nat.lt_succ_self _⟩
      · show ((h.free a).malloc n _).1.size (h.free a).next = n
        rw [size, hnew]
      · intro x hx hxa
        have hne : x ≠ h.next := by omega
        have hxa' : x ≠ a := hxa.resolve_right (by rw [hb]; exact fun h => nomatch h)
        refine ⟨?_, hne⟩
        show (if x = h.next then _ else if x = a then _ else h.blocks x) = _
        rw [if_neg hne, if_neg hxa']
    | false =>
      have e : h.realloc a n false junk = (h.modify a fun _ => some (b.resize n junk), a) := by
        rw [realloc, hb]
        rfl
      have hself : (h.modify a fun _ => some (b.resize n junk)).blocks a
          = some (b.resize n junk) := by
        show (if a = a then (h.blocks a).bind _ else _) = _
        rw [if_pos rfl, hb]
        rfl
      rw [e]
      refine ⟨?_, hkept hself, ?_, Nat.le_refl _, ha⟩
      · show (h.modify a _).size a = n
        rw [size, hself]
        rfl
      · intro x _ hxa
        have hxa' : x ≠ a := hxa.resolve_right (by rw [hb]; exact fun h => nomatch h)
        exact ⟨if_neg hxa', hxa'⟩

end Heap

end Memory
