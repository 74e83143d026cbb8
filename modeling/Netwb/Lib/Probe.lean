import Netwb.Lib.Run
import Mathlib.Dynamics.PeriodicPts.Defs
import Mathlib.Data.Nat.Find

/-!
# Trying one candidate after the other

`probe next ok fuel a` tries the candidates `a`, `next a`, `next (next a)`, .. until one of them is
`ok`, for at most `fuel` of them; it gives the list of the tried ones and the one that is found.

`Round next S`: from every member of `S` the candidates come by every other one.  Then no member is
tried twice before all others have been (`probe_fair`), and a good member is found (`probe_finds`).
-/

namespace Probe
variable {α : Type} (next : α → α) (ok : α → Bool)

def probe : Nat → α → List α × Option α
  | 0, _ => ([], none)
  | fuel + 1, a =>
    if ok a then ([a], some a) else (a :: (probe fuel (next a)).1, (probe fuel (next a)).2)

def Round (S : Set α) : Prop := ∀ p ∈ S, ∀ q ∈ S, ∃ m, next^[m] p = q

variable {next ok}

theorem probe_yes {fuel : Nat} {a : α} (h : ok a = true) :
    probe next ok (fuel + 1) a = ([a], some a) := by
  rw [probe, if_pos h]

theorem probe_no {fuel : Nat} {a : α} (h : ok a = false) : probe next ok (fuel + 1) a =
    (a :: (probe next ok fuel (next a)).1, (probe next ok fuel (next a)).2) := by
  rw [probe, if_neg (by rw [h]; exact Bool.false_ne_true)]

/-! ## what is found -/

theorem probe_ok {fuel : Nat} {a b : α} (h : (probe next ok fuel a).2 = some b) :
    ok b = true ∧ ∃ n, next^[n] a = b := by
  induction fuel generalizing a with
  | zero => cases h
  | succ fuel ih =>
    cases ha : ok a with
    | true =>
      rw [probe_yes ha] at h
      cases h
      exact ⟨ha, 0, rfl⟩
    | false =>
      rw [probe_no ha] at h
      obtain ⟨hb, n, hn⟩ := ih h
      exact ⟨hb, n + 1, hn⟩

/-- the first good one, with enough rounds -/
theorem probe_first {n fuel : Nat} {a : α} (hn : ok (next^[n] a) = true)
    (hlt : ∀ m < n, ok (next^[m] a) = false) (hf : n < fuel) :
    (probe next ok fuel a).2 = some (next^[n] a) := by
  induction n generalizing a fuel with
  | zero =>
    obtain ⟨fuel, rfl⟩ := Nat.exists_eq_add_one_of_ne_zero (Nat.ne_of_gt hf)
    have h0 : ok a = true := hn
    rw [probe_yes h0]
    rfl
  | succ n ih =>
    obtain ⟨fuel, rfl⟩ := Nat.exists_eq_add_one_of_ne_zero (Nat.ne_of_gt (Nat.zero_lt_of_lt hf))
    have h0 : ok a = false := hlt 0 (Nat.succ_pos n)
    rw [probe_no h0]
    exact ih hn (fun m hm => hlt (m + 1) (Nat.succ_lt_succ hm)) (Nat.lt_of_succ_lt_succ hf)

/-- **The search comes back if and only if one of the candidates is good.** -/
theorem probe_comes_iff {a : α} : (∃ b, Machine.Comes (fun fuel => (probe next ok fuel a).2) b) ↔
    ∃ n, ok (next^[n] a) = true := by
  constructor
  · rintro ⟨b, m, hm⟩
    obtain ⟨hb, n, hn⟩ := probe_ok (hm m (Nat.le_refl m))
    exact ⟨n, hn ▸ hb⟩
  · intro h
    refine ⟨_, Nat.find h + 1, fun fuel hf => probe_first (Nat.find_spec h) ?_ hf⟩
    exact fun m hm => Bool.eq_false_of_not_eq_true (Nat.find_min h hm)

/-! ## what is tried -/

theorem probe_tried {fuel i : Nat} {a p : α} (h : (probe next ok fuel a).1[i]? = some p) :
    next^[i] a = p := by
  induction fuel generalizing a i with
  | zero => cases h
  | succ fuel ih =>
    cases ha : ok a with
    | true =>
      rw [probe_yes ha] at h
      cases i with
      | zero => exact Option.some.inj h
      | succ i => cases h
    | false =>
      rw [probe_no ha] at h
      cases i with
      | zero => exact Option.some.inj h
      | succ i =>
        have ht : next^[i] (next a) = p := ih h
        exact ht

/-- before the `j`-th one all candidates up to it are tried -/
theorem probe_tried_before {fuel j k : Nat} {a p : α} (h : (probe next ok fuel a).1[j]? = some p)
    (hk : k < j) : (probe next ok fuel a).1[k]? = some (next^[k] a) := by
  obtain ⟨hj, -⟩ := List.getElem?_eq_some_iff.mp h
  have hlt : k < (probe next ok fuel a).1.length := Nat.lt_trans hk hj
  have hget := List.getElem?_eq_getElem hlt
  rw [hget, probe_tried hget]

/-! ## rounds -/

variable {S : Set α}

/-- a member that comes again has come by all the others in between -/
theorem Round.between (hS : Round next S) {a p q : α} {i j : Nat} (hij : i < j)
    (hi : next^[i] a = p) (hj : next^[j] a = p) (hp : p ∈ S) (hq : q ∈ S) :
    ∃ k < j, next^[k] a = q := by
  obtain ⟨m, hm⟩ := hS p hp q hq
  have hper : Function.IsPeriodicPt next (j - i) p := by
    show next^[j - i] p = p
    rw [← hi, ← Function.iterate_add_apply, Nat.sub_add_cancel (Nat.le_of_lt hij), hj, hi]
  have hmod : m % (j - i) < j - i := Nat.mod_lt _ (by omega)
  refine ⟨m % (j - i) + i, by omega, ?_⟩
  rw [Function.iterate_add_apply, hi, hper.iterate_mod_apply, hm]

/-- **No member is tried twice before all others have been tried.** -/
theorem probe_fair (hS : Round next S) {a p q : α} {fuel i j : Nat} (hij : i < j)
    (hi : (probe next ok fuel a).1[i]? = some p) (hj : (probe next ok fuel a).1[j]? = some p)
    (hp : p ∈ S) (hq : q ∈ S) : ∃ k < j, (probe next ok fuel a).1[k]? = some q := by
  obtain ⟨k, hk, hkq⟩ := hS.between hij (probe_tried hi) (probe_tried hj) hp hq
  exact ⟨k, hk, hkq ▸ probe_tried_before hj hk⟩

/-- what comes after the first candidate are members -/
theorem iterate_mem (hnext : ∀ a, next a ∈ S) (n : Nat) (a : α) :
    next^[n] a ∈ S ∨ next^[n] a = a := by
  cases n with
  | zero => exact Or.inr rfl
  | succ n =>
    rw [Function.iterate_succ_apply']
    exact Or.inl (hnext _)

/-- the good candidates that are ever tried -/
theorem reaches_iff (hS : Round next S) (hnext : ∀ a, next a ∈ S) (a : α) :
    (∃ n, ok (next^[n] a) = true) ↔ ok a = true ∨ ∃ q ∈ S, ok q = true := by
  constructor
  · rintro ⟨n, hn⟩
    rcases iterate_mem hnext n a with hmem | he
    · exact Or.inr ⟨_, hmem, hn⟩
    · exact Or.inl (he ▸ hn)
  · rintro (ha | ⟨q, hq, hok⟩)
    · exact ⟨0, ha⟩
    · obtain ⟨m, hm⟩ := hS _ (hnext a) q hq
      exact ⟨m + 1, by rw [Function.iterate_succ_apply, hm, hok]⟩

/-- **With a good member a good one is found.** -/
theorem probe_finds (hS : Round next S) (hnext : ∀ a, next a ∈ S) (a : α)
    (h : ∃ q ∈ S, ok q = true) : ∃ b, (b ∈ S ∨ b = a) ∧ ok b = true ∧
      Machine.Comes (fun fuel => (probe next ok fuel a).2) b := by
  obtain ⟨b, hb⟩ := probe_comes_iff.mpr ((reaches_iff hS hnext a).mpr (Or.inr h))
  obtain ⟨n, hn⟩ := hb
  obtain ⟨hok, m, rfl⟩ := probe_ok (hn n (Nat.le_refl n))
  exact ⟨_, iterate_mem hnext m a, hok, n, hn⟩

end Probe
