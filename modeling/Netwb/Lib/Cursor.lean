import Mathlib.Data.List.Basic
import Mathlib.Logic.Function.Basic

/-!
# Reading and writing through a cursor

A memory is a function of the address.  `store` writes the cells of a list from an address on,
`fetch` reads a number of them.

A `Format` has a writer and a reader that move a cursor: the writer of a field stores its cells and
goes behind them; the reader of its kind, put in front of these cells, finds the field and goes
behind them as well.  `Format.round_trip` is this for any list of fields.
-/

namespace Cursor
variable {α : Type}

abbrev Memory (α : Type) := Nat → α

def store (m : Memory α) (p : Nat) : List α → Memory α
  | [] => m
  | x :: xs => store (Function.update m p x) (p + 1) xs

def fetch (m : Memory α) : Nat → Nat → List α
  | _, 0 => []
  | p, n + 1 => m p :: fetch m (p + 1) n

@[simp] theorem fetch_length (m : Memory α) (p n : Nat) : (fetch m p n).length = n := by
  induction n generalizing p with
  | zero => rfl
  | succ n ih => rw [fetch, List.length_cons, ih]

theorem store_out (m : Memory α) (p : Nat) (xs : List α) (i : Nat)
    (hi : i < p ∨ p + xs.length ≤ i) : store m p xs i = m i := by
  induction xs generalizing m p with
  | nil => rfl
  | cons x xs ih =>
    rw [List.length_cons] at hi
    rw [store, ih _ _ (by omega), Function.update_of_ne (by omega)]

theorem store_append (m : Memory α) (p : Nat) (xs ys : List α) :
    store m p (xs ++ ys) = store (store m p xs) (p + xs.length) ys := by
  induction xs generalizing m p with
  | nil => rfl
  | cons x xs ih =>
    rw [List.cons_append, store, ih, store, List.length_cons, Nat.add_assoc, Nat.add_comm 1]

theorem fetch_store (m : Memory α) (p : Nat) (xs : List α) :
    fetch (store m p xs) p xs.length = xs := by
  induction xs generalizing m p with
  | nil => rfl
  | cons x xs ih =>
    rw [List.length_cons, fetch, store, store_out _ _ _ _ (.inl (Nat.lt_succ_self p)),
      Function.update_self, ih]

theorem fetch_add (m : Memory α) (p n k : Nat) :
    fetch m p (n + k) = fetch m p n ++ fetch m (p + n) k := by
  induction n generalizing p with
  | zero => rw [Nat.zero_add]; rfl
  | succ n ih =>
    rw [Nat.succ_add, fetch, fetch, ih, List.cons_append, Nat.add_assoc, Nat.add_comm 1]

theorem fetch_append {m : Memory α} {p : Nat} {xs ys : List α}
    (h : fetch m p (xs ++ ys).length = xs ++ ys) :
    fetch m p xs.length = xs ∧ fetch m (p + xs.length) ys.length = ys := by
  rw [List.length_append, fetch_add] at h
  exact List.append_inj h (fetch_length m p _)

/-- a writer and a reader of fields of type `F`, the reader told their kinds -/
structure Format (α F K : Type) where
  kind : F → K
  cells : F → List α
  write : F → Memory α → Nat → Memory α × Nat
  read : K → Memory α → Nat → Option (F × Nat)
  write_cells : ∀ f m p, write f m p = (store m p (cells f), p + (cells f).length)
  read_cells : ∀ f m p, fetch m p (cells f).length = cells f →
    read (kind f) m p = some (f, p + (cells f).length)

namespace Format
variable {F K : Type} (x : Format α F K)

/-- one field after the other -/
def writeAll : List F → Memory α → Nat → Memory α × Nat
  | [], m, p => (m, p)
  | f :: fs, m, p => writeAll fs (x.write f m p).1 (x.write f m p).2

def readAll : List K → Memory α → Nat → Option (List F × Nat)
  | [], _, p => some ([], p)
  | k :: ks, m, p => (x.read k m p).bind fun r => (readAll ks m r.2).map fun t => (r.1 :: t.1, t.2)

theorem writeAll_cells (fs : List F) (m : Memory α) (p : Nat) :
    x.writeAll fs m p = (store m p (fs.flatMap x.cells), p + (fs.flatMap x.cells).length) := by
  induction fs generalizing m p with
  | nil => rfl
  | cons f fs ih =>
    rw [writeAll, x.write_cells, ih, List.flatMap_cons, store_append, List.length_append,
      Nat.add_assoc]

theorem readAll_cells (fs : List F) (m : Memory α) (p : Nat)
    (h : fetch m p (fs.flatMap x.cells).length = fs.flatMap x.cells) :
    x.readAll (fs.map x.kind) m p = some (fs, p + (fs.flatMap x.cells).length) := by
  induction fs generalizing p with
  | nil => rfl
  | cons f fs ih =>
    rw [List.flatMap_cons] at h ⊢
    obtain ⟨hf, hfs⟩ := fetch_append h
    rw [List.map_cons, readAll, x.read_cells f m p hf, Option.bind_some, ih _ hfs,
      List.length_append, ← Nat.add_assoc]
    rfl

/-- **What was written field by field is read back field by field**, both cursors end behind the
cells of all of them, and the memory around these is kept. -/
theorem round_trip (fs : List F) (m : Memory α) (p : Nat) :
    (x.writeAll fs m p).2 = p + (fs.flatMap x.cells).length ∧
      x.readAll (fs.map x.kind) (x.writeAll fs m p).1 p = some (fs, (x.writeAll fs m p).2) ∧
      ∀ i, i < p ∨ (x.writeAll fs m p).2 ≤ i → (x.writeAll fs m p).1 i = m i := by
  rw [x.writeAll_cells]
  exact ⟨rfl, x.readAll_cells fs _ p (fetch_store m p _), fun i hi => store_out m p _ i hi⟩

end Format
end Cursor
