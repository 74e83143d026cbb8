import Netwb.Lib.Run
import Mathlib.Data.List.Perm.Basic

/-!
# Tokens

A program that repeats itself through a queue of handlers (each one, when it runs, starts the
operation whose end queues the next) has one token for each such loop: the operation that is
pending, or the handler that is queued.  The handlers may be taken from the queue in any order.

`countP_dequeue` counts the handlers of a kind when one is taken; `run_le` and `run_adds` bound the
tokens over a run from what one step adds.
-/

namespace Machine
variable {σ ε α : Type}

theorem perm_dequeue {xs : List α} {i : Nat} {a : α} (h : xs[i]? = some a) :
    (a :: xs.eraseIdx i).Perm xs := by
  obtain ⟨hlt, rfl⟩ := List.getElem?_eq_some_iff.mp h
  exact List.getElem_cons_eraseIdx_perm hlt

/-- **Taking one of a queue takes one of its kind.** -/
theorem countP_dequeue (p : α → Bool) {xs : List α} {i : Nat} {a : α} (h : xs[i]? = some a) :
    (xs.eraseIdx i).countP p + (if p a then 1 else 0) = xs.countP p := by
  rw [← List.countP_cons]
  exact (perm_dequeue h).countP_eq p

theorem countP_enqueue (p : α → Bool) (xs : List α) (a : α) :
    (xs ++ [a]).countP p = xs.countP p + (if p a then 1 else 0) := by
  rw [List.countP_append, List.countP_singleton]

theorem length_dequeue {xs : List α} {i : Nat} {a : α} (h : xs[i]? = some a) :
    (xs.eraseIdx i).length + 1 = xs.length := (perm_dequeue h).length_eq

theorem split_dequeue {xs : List α} {i : Nat} {a : α} (h : xs[i]? = some a) :
    xs = xs.take i ++ a :: xs.drop (i + 1) ∧ xs.eraseIdx i = xs.take i ++ xs.drop (i + 1) := by
  obtain ⟨hlt, rfl⟩ := List.getElem?_eq_some_iff.mp h
  refine ⟨?_, List.eraseIdx_eq_take_drop_succ xs i⟩
  rw [← List.drop_eq_getElem_cons hlt, List.take_append_drop]

/-- taking one that carries nothing leaves what the others carry, in their order -/
theorem flatMap_dequeue {β : Type} (f : α → List β) {xs : List α} {i : Nat} {a : α}
    (h : xs[i]? = some a) (ha : f a = []) : (xs.eraseIdx i).flatMap f = xs.flatMap f := by
  obtain ⟨h1, h2⟩ := split_dequeue h
  rw [h2]
  conv_rhs => rw [h1]
  rw [List.flatMap_append, List.flatMap_append, List.flatMap_cons, ha, List.nil_append]

/-- taking one that is not looked for leaves those that are -/
theorem filter_dequeue (p : α → Bool) {xs : List α} {i : Nat} {a : α} (h : xs[i]? = some a)
    (ha : p a = false) : (xs.eraseIdx i).filter p = xs.filter p := by
  obtain ⟨h1, h2⟩ := split_dequeue h
  rw [h2]
  conv_rhs => rw [h1]
  rw [List.filter_append, List.filter_append,
    List.filter_cons_of_neg (ne_true_of_eq_false ha)]

/-- when no other carries anything -/
theorem flatMap_alone {β : Type} (f : α → List β) {xs : List α} {i : Nat} {a : α}
    (h : xs[i]? = some a) (hn : (xs.eraseIdx i).flatMap f = []) : xs.flatMap f = f a := by
  obtain ⟨h1, h2⟩ := split_dequeue h
  rw [h2, List.flatMap_append, List.append_eq_nil_iff] at hn
  conv_lhs => rw [h1]
  rw [List.flatMap_append, List.flatMap_cons, hn.1, hn.2, List.nil_append, List.append_nil]

variable {step : σ → ε → Option σ}

/-- **A measure that no step raises bounds a run.** -/
theorem run_le (f : σ → Nat) (hstep : ∀ s e s', step s e = some s' → f s' ≤ f s) {s t : σ}
    {es : List ε} (h : run step s es = some t) : f t ≤ f s :=
  run_keeps (fun x => f x ≤ f s) (fun x e x' hx hs => Nat.le_trans (hstep x e x' hs) hx)
    (Nat.le_refl _) h

/-- **A measure that a step raises by one at most, and only for some events.** -/
theorem run_adds (f : σ → Nat) (p : ε → Bool) (hstep : ∀ s e s', step s e = some s' →
    f s' ≤ f s + if p e then 1 else 0) {s t : σ} {es : List ε} (h : run step s es = some t) :
    f t ≤ f s + es.countP p := by
  induction es generalizing s with
  | nil =>
    injection h with h
    rw [h]
    exact Nat.le_add_right _ _
  | cons e es ih =>
    obtain ⟨s', hs, hr⟩ := run_cons h
    have h1 := hstep s e s' hs
    have h2 := ih hr
    rw [List.countP_cons]
    omega

end Machine
