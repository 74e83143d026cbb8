import Mathlib.Data.List.Basic
import Mathlib.Data.Nat.Find

/-!
# Searching a text for a pattern, and inserting into it

`find pat s pos` is the first position from `pos` on at which `pat` stands in `s`, the end of `s`
included (an empty pattern stands everywhere).

`Pieces pat s ps`: `ps` are the pieces of `s` between the leftmost occurrences of `pat` that do not
overlap.  Joined by the pattern they are `s` again (`Pieces.join`); they are determined by `s`
(`Pieces.unique`), and there are some exactly if the pattern is not empty (`pieces_iff`).

`Inserted P x k s r`: `r` is `s` with an `x` in front of every element whose position, counted from
`k`, has the property `P`.
-/

namespace Search
variable {α : Type}

/-- the element behind the front of a text -/
theorem at_front (front s : List α) (c : α) : (front ++ c :: s)[front.length]? = some c := by
  rw [List.getElem?_append_right (Nat.le_refl _), Nat.sub_self, List.getElem?_cons_zero]

/-- a pattern of one element stands where that element stands -/
theorem single_stands {c : α} {s : List α} {i : Nat} : [c] <+: s.drop i ↔ s[i]? = some c := by
  rw [← List.head?_drop]
  cases s.drop i with
  | nil => simp
  | cons x xs => simp [eq_comm]

section
variable [DecidableEq α]

def find (pat s : List α) (pos : Nat) : Option Nat :=
  (List.range' pos (s.length + 1 - pos)).find? fun i => decide (pat <+: s.drop i)

theorem find_eq_some {pat s : List α} {pos i : Nat} :
    find pat s pos = some i ↔
      pos ≤ i ∧ i ≤ s.length ∧ pat <+: s.drop i ∧ ∀ j, pos ≤ j → j < i → ¬ pat <+: s.drop j := by
  rw [find, List.find?_range'_eq_some, List.mem_range'_1]
  simp only [decide_eq_true_eq, Bool.not_eq_true', decide_eq_false_iff_not]
  constructor
  · rintro ⟨hp, ⟨hge, hlt⟩, hno⟩
    exact ⟨hge, by omega, hp, hno⟩
  · rintro ⟨hge, hle, hp, hno⟩
    exact ⟨hp, ⟨hge, by omega⟩, hno⟩

theorem find_eq_none {pat s : List α} {pos : Nat} :
    find pat s pos = none ↔ ∀ i, pos ≤ i → i ≤ s.length → ¬ pat <+: s.drop i := by
  rw [find, List.find?_range'_eq_none]
  simp only [Bool.not_eq_true', decide_eq_false_iff_not]
  constructor
  · exact fun h i hge hle => h i hge (by omega)
  · exact fun h i hge hlt => h i hge (by omega)

/-- what is found of a single element -/
theorem find_single {c : α} {s : List α} {pos i : Nat} :
    find [c] s pos = some i ↔ pos ≤ i ∧ s[i]? = some c ∧ ∀ j, pos ≤ j → j < i → s[j]? ≠ some c := by
  rw [find_eq_some]
  simp only [single_stands]
  constructor
  · rintro ⟨hge, -, hi, hno⟩
    exact ⟨hge, hi, hno⟩
  · rintro ⟨hge, hi, hno⟩
    obtain ⟨hlt, -⟩ := List.getElem?_eq_some_iff.mp hi
    exact ⟨hge, Nat.le_of_lt hlt, hi, hno⟩

theorem find_single_none {c : α} {s : List α} {pos : Nat} :
    find [c] s pos = none ↔ ∀ i, pos ≤ i → s[i]? ≠ some c := by
  rw [find_eq_none]
  simp only [single_stands]
  constructor
  · intro h i hge hi
    obtain ⟨hlt, -⟩ := List.getElem?_eq_some_iff.mp hi
    exact h i hge (Nat.le_of_lt hlt) hi
  · exact fun h i hge _ => h i hge

/-- the first one comes behind `n` if there is none up to it -/
theorem find_single_behind {c : α} {s : List α} {pos n : Nat} :
    ((find [c] s pos).all fun i => decide (n < i)) = true ↔
      ∀ j, pos ≤ j → j ≤ n → s[j]? ≠ some c := by
  cases hf : find [c] s pos with
  | none => exact iff_of_true rfl fun j hge _ => find_single_none.mp hf j hge
  | some i =>
    obtain ⟨hge, hi, hmin⟩ := find_single.mp hf
    rw [Option.all_some, decide_eq_true_eq]
    constructor
    · exact fun hlt j hj hle => hmin j hj (Nat.lt_of_le_of_lt hle hlt)
    · exact fun h => Nat.lt_of_not_le fun hle => h i hge hle hi

/-- an element that is not looked for is passed by -/
theorem find_single_skip {c : α} {s : List α} {pos : Nat} (h : s[pos]? ≠ some c) :
    find [c] s pos = find [c] s (pos + 1) := by
  cases hf : find [c] s (pos + 1) with
  | none =>
    refine find_single_none.mpr fun i hge => ?_
    rcases Nat.eq_or_lt_of_le hge with rfl | hgt
    · exact h
    · exact find_single_none.mp hf i hgt
  | some i =>
    obtain ⟨hge, hi, hno⟩ := find_single.mp hf
    refine find_single.mpr ⟨by omega, hi, fun j hgej hlt => ?_⟩
    rcases Nat.eq_or_lt_of_le hgej with rfl | hgt
    · exact h
    · exact hno j hgt hlt

theorem find_nil {s : List α} {pos : Nat} (h : pos ≤ s.length) : find [] s pos = some pos :=
  find_eq_some.mpr ⟨Nat.le_refl pos, h, List.nil_prefix, fun j hge hlt => by omega⟩

end

/-! ## pieces -/

section
variable {pat : List α}

inductive Pieces (pat : List α) : List α → List (List α) → Prop
  | last {s : List α} (hno : ∀ i ≤ s.length, ¬ pat <+: s.drop i) : Pieces pat s [s]
  | next {p rest : List α} {ps : List (List α)}
      (hno : ∀ i < p.length, ¬ pat <+: (p ++ (pat ++ rest)).drop i) (h : Pieces pat rest ps) :
      Pieces pat (p ++ (pat ++ rest)) (p :: ps)

theorem Pieces.ne_nil {s : List α} {ps : List (List α)} (h : Pieces pat s ps) : ps ≠ [] := by
  cases h with
  | last => exact List.cons_ne_nil _ _
  | next => exact List.cons_ne_nil _ _

/-- **Joined by the pattern the pieces are the text.** -/
theorem Pieces.join {s : List α} {ps : List (List α)} (h : Pieces pat s ps) :
    pat.intercalate ps = s := by
  induction h with
  | last => exact List.intercalate_singleton
  | next hno h ih => rw [List.intercalate_cons_of_ne_nil h.ne_nil, ih, List.append_assoc]

/-- what stands in front of the first occurrence is determined -/
theorem first_unique {p p' rest rest' : List α} (he : p ++ (pat ++ rest) = p' ++ (pat ++ rest'))
    (hno : ∀ i < p.length, ¬ pat <+: (p ++ (pat ++ rest)).drop i)
    (hno' : ∀ i < p'.length, ¬ pat <+: (p' ++ (pat ++ rest')).drop i) : p = p' ∧ rest = rest' := by
  have hlen : p.length = p'.length := by
    rcases Nat.lt_trichotomy p.length p'.length with h | h | h
    · refine absurd ?_ (hno' _ h)
      rw [← he, List.drop_left]
      exact List.prefix_append _ _
    · exact h
    · refine absurd ?_ (hno _ h)
      rw [he, List.drop_left]
      exact List.prefix_append _ _
  obtain ⟨hp, hr⟩ := List.append_inj he hlen
  exact ⟨hp, List.append_cancel_left hr⟩

/-- **The pieces are determined by the text.** -/
theorem Pieces.unique {s : List α} {ps qs : List (List α)} (h : Pieces pat s ps)
    (h' : Pieces pat s qs) : ps = qs := by
  induction h generalizing qs with
  | last hno =>
    cases h' with
    | last => rfl
    | @next p rest qs hno' h' =>
      refine absurd ?_ (hno p.length (by rw [List.length_append]; omega))
      rw [List.drop_left]
      exact List.prefix_append _ _
  | @next p rest ps hno h ih =>
    generalize hs : p ++ (pat ++ rest) = s at h' hno
    cases h' with
    | last hno' =>
      refine absurd ?_ (hno' p.length (by rw [← hs, List.length_append]; omega))
      rw [← hs, List.drop_left]
      exact List.prefix_append _ _
    | @next p' rest' qs hno' h' =>
      rw [← hs] at hno
      obtain ⟨hp, hr⟩ := first_unique hs hno (hs ▸ hno')
      rw [hp, ih (hr ▸ h')]

/-- a text in which the pattern stands somewhere, cut at the first place -/
theorem cut_first {s : List α} {i : Nat} (hi : i ≤ s.length) (hp : pat <+: s.drop i)
    (hno : ∀ j < i, ¬ pat <+: s.drop j) :
    ∃ p rest, s = p ++ (pat ++ rest) ∧ p.length = i ∧
      ∀ j < p.length, ¬ pat <+: (p ++ (pat ++ rest)).drop j := by
  obtain ⟨rest, hrest⟩ := hp
  have hlen : (s.take i).length = i := by
    rw [List.length_take]
    omega
  have hs : s.take i ++ (pat ++ rest) = s := by rw [hrest, List.take_append_drop]
  refine ⟨s.take i, rest, hs.symm, hlen, fun j hj => ?_⟩
  rw [hs]
  exact hno j (by omega)

/-- every text has pieces, unless the pattern is empty -/
theorem pieces_exist (hpat : pat ≠ []) (n : Nat) : ∀ s : List α, s.length ≤ n →
    ∃ ps, Pieces pat s ps := by
  induction n with
  | zero =>
    intro s hs
    have hnil : s = [] := List.eq_nil_of_length_eq_zero (by omega)
    refine ⟨[s], .last fun i hi hp => hpat ?_⟩
    rw [hnil, List.drop_nil] at hp
    exact List.prefix_nil.mp hp
  | succ n ih =>
    intro s hs
    by_cases hany : ∃ i, i ≤ s.length ∧ pat <+: s.drop i
    · classical
      obtain ⟨hi, hp⟩ := Nat.find_spec hany
      have hno : ∀ j < Nat.find hany, ¬ pat <+: s.drop j := fun j hj h =>
        Nat.find_min hany hj ⟨by omega, h⟩
      obtain ⟨p, rest, rfl, -, hfirst⟩ := cut_first hi hp hno
      have hpos := List.length_pos_of_ne_nil hpat
      rw [List.length_append, List.length_append] at hs
      obtain ⟨ps, hps⟩ := ih rest (by omega)
      exact ⟨p :: ps, .next hfirst hps⟩
    · exact ⟨[s], .last fun i hi hp => hany ⟨i, hi, hp⟩⟩

/-- an empty pattern leaves no pieces -/
theorem not_pieces_nil {s : List α} {ps : List (List α)} : ¬ Pieces [] s ps := by
  intro h
  induction h with
  | last hno => exact hno 0 (Nat.zero_le _) List.nil_prefix
  | next hno h ih => exact ih

/-- **A text has pieces exactly if the pattern is not empty.** -/
theorem pieces_iff {s : List α} : (∃ ps, Pieces pat s ps) ↔ pat ≠ [] := by
  constructor
  · rintro ⟨ps, h⟩ rfl
    exact not_pieces_nil h
  · exact fun hpat => pieces_exist hpat s.length s (Nat.le_refl _)

end

/-! ## insertions -/

section
variable {P : Nat → Prop} {x : α}

inductive Inserted (P : Nat → Prop) (x : α) : Nat → List α → List α → Prop
  | nil (k : Nat) : Inserted P x k [] []
  | keep {k : Nat} {c : α} {s r : List α} (hc : ¬ P k) (h : Inserted P x (k + 1) s r) :
      Inserted P x k (c :: s) (c :: r)
  | mark {k : Nat} {c : α} {s r : List α} (hc : P k) (h : Inserted P x (k + 1) s r) :
      Inserted P x k (c :: s) (x :: c :: r)

/-- in front of elements without the property nothing is inserted -/
theorem Inserted.keeps {s r : List α} (a : List α) : ∀ {k : Nat},
    (∀ i, k ≤ i → i < k + a.length → ¬ P i) → Inserted P x (k + a.length) s r →
    Inserted P x k (a ++ s) (a ++ r) := by
  induction a with
  | nil => exact fun _ h => h
  | cons c a ih =>
    intro k hno h
    rw [List.length_cons] at hno h
    refine .keep (hno k (Nat.le_refl k) (by omega)) (ih (fun i hge hlt => hno i (by omega) (by omega)) ?_)
    rwa [Nat.add_right_comm, Nat.add_assoc]

/-- **The text is unchanged exactly if no element has the property.** -/
theorem Inserted.same_iff {k : Nat} {s r : List α} (h : Inserted P x k s r) :
    s.length ≤ r.length ∧ (r = s ↔ ∀ i, k ≤ i → i < k + s.length → ¬ P i) := by
  induction h with
  | nil k => exact ⟨Nat.le_refl _, fun _ i hge hlt => absurd hlt (by rw [List.length_nil]; omega), fun _ => rfl⟩
  | @keep k c s r hc h ih =>
    obtain ⟨hle, hiff⟩ := ih
    rw [List.length_cons, List.length_cons, List.cons_inj_right, hiff]
    refine ⟨by omega, fun hno i hge hlt => ?_, fun hno i hge hlt => hno i (by omega) (by omega)⟩
    rcases Nat.eq_or_lt_of_le hge with rfl | hgt
    · exact hc
    · exact hno i hgt (by omega)
  | @mark k c s r hc h ih =>
    rw [List.length_cons, List.length_cons, List.length_cons]
    refine ⟨by omega, fun he => ?_, fun hno => absurd hc (hno k (Nat.le_refl k) (by omega))⟩
    have hlen := congrArg List.length he
    rw [List.length_cons, List.length_cons, List.length_cons] at hlen
    omega

end
end Search
