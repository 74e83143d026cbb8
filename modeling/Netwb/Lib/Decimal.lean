import Mathlib.Data.Nat.Digits.Lemmas

/-!
# Decimal text

The digits of a number as characters, the most significant first, and the number that a row of
digits stands for.  `value_text`: the text of a number stands for it.

Among rows of one length the first digits decide: `value_cons` and `value_lt`.
-/

namespace Decimal

/-- `0` to `9` -/
def isDigit (c : BitVec 8) : Bool := 0x30 ≤ c.toNat ∧ c.toNat ≤ 0x39

def digit (d : Nat) : BitVec 8 := BitVec.ofNat 8 (0x30 + d)

def text (n : Nat) : List (BitVec 8) :=
  if n = 0 then [digit 0] else (Nat.digits 10 n).reverse.map digit

def value (cs : List (BitVec 8)) : Nat := cs.foldl (fun n c => 10 * n + (c.toNat - 0x30)) 0

theorem digit_toNat {d : Nat} (h : d < 10) : (digit d).toNat = 0x30 + d := by
  rw [digit, BitVec.toNat_ofNat]
  omega

theorem isDigit_digit {d : Nat} (h : d < 10) : isDigit (digit d) = true := by
  rw [isDigit, digit_toNat h, decide_eq_true_iff]
  omega

theorem text_ne_nil (n : Nat) : text n ≠ [] := by
  unfold text
  split
  · exact List.cons_ne_nil _ _
  · rename_i h
    simp [Nat.digits_ne_nil_iff_ne_zero.mpr h, h]

/-- **A number is written with digits.** -/
theorem isDigit_text (n : Nat) : ∀ c ∈ text n, isDigit c = true := by
  intro c hc
  unfold text at hc
  split at hc
  · rw [List.mem_singleton.mp hc]
    exact isDigit_digit (by norm_num)
  · obtain ⟨d, hd, rfl⟩ := List.mem_map.mp hc
    exact isDigit_digit (Nat.digits_lt_base (by norm_num) (List.mem_reverse.mp hd))

/-- digits, the least significant first, have the value of the number -/
theorem value_reverse {ds : List Nat} (h : ∀ d ∈ ds, d < 10) :
    value (ds.reverse.map digit) = Nat.ofDigits 10 ds := by
  induction ds with
  | nil => rfl
  | cons d ds ih =>
    have hd := h d (List.mem_cons_self ..)
    have hrest := ih fun x hx => h x (List.mem_cons_of_mem _ hx)
    rw [value] at hrest
    rw [List.reverse_cons, List.map_append, value, List.foldl_append, hrest, Nat.ofDigits_cons,
      List.map_singleton, List.foldl_cons, List.foldl_nil, digit_toNat hd]
    omega

/-- **The text of a number stands for it.** -/
theorem value_text (n : Nat) : value (text n) = n := by
  unfold text
  split
  · rename_i h
    rw [h]
    rfl
  · rw [value_reverse fun d hd => Nat.digits_lt_base (by norm_num) hd, Nat.ofDigits_digits]

/-! ## rows of one length -/

theorem value_from (cs : List (BitVec 8)) : ∀ n : Nat,
    cs.foldl (fun n c => 10 * n + (c.toNat - 0x30)) n = n * 10 ^ cs.length + value cs := by
  induction cs with
  | nil => exact fun n => by rw [value, List.foldl_nil, List.foldl_nil, List.length_nil]; omega
  | cons c cs ih =>
    intro n
    rw [value, List.foldl_cons, List.foldl_cons, ih, ih (10 * 0 + _), List.length_cons, pow_succ,
      Nat.mul_zero, Nat.zero_add, ← Nat.add_assoc, Nat.add_mul, Nat.mul_comm 10 n, Nat.mul_assoc n,
      Nat.mul_comm 10]

/-- the weight of the first digit -/
theorem value_cons (c : BitVec 8) (cs : List (BitVec 8)) :
    value (c :: cs) = (c.toNat - 0x30) * 10 ^ cs.length + value cs := by
  rw [value, List.foldl_cons, value_from, Nat.mul_zero, Nat.zero_add]

/-- **A row of digits stands for less than the power of its length.** -/
theorem value_lt {cs : List (BitVec 8)} (h : ∀ c ∈ cs, isDigit c = true) :
    value cs < 10 ^ cs.length := by
  induction cs with
  | nil => exact Nat.one_pos
  | cons c cs ih =>
    have hc := h c (List.mem_cons_self ..)
    rw [isDigit, decide_eq_true_iff] at hc
    have hrest := ih fun d hd => h d (List.mem_cons_of_mem _ hd)
    have hle : (c.toNat - 0x30) * 10 ^ cs.length ≤ 9 * 10 ^ cs.length :=
      Nat.mul_le_mul_right _ (by omega)
    rw [value_cons, List.length_cons, pow_succ]
    omega

end Decimal
