import Netwb.Lib.Decimal
import Netwb.Net.Package

/-!
# The string before a string

`getStringDefOne` of `net/strings.cpp` takes one off the number that the digits of a string spell,
whatever stands between them; `compareStr` of `net/strings.h` orders strings by their lengths first.

The loop goes over the string from its end, and stops at the first digit that does not pass a borrow
on.  `Before` says what it makes of the part behind it (`before_cons`); among strings that differ in
digits only, `compareStr` compares the numbers (`compareStr_spells`).
-/

namespace Netwb
open Wire Decimal

/-! ## the two functions -/

/-- the loop of `getStringDefOne`, with the indices below a number left to see: the string and
`fix` -/
def defOneLoop : Nat → ByteArray → Int → ByteArray × Int
  | 0, inStr, fix => (inStr, fix)
  | i + 1, inStr, fix =>
    let tmpK := (inStr.getD i 0).toInt
    if tmpK < 48 ∨ tmpK > 57 then defOneLoop i inStr fix
    else if tmpK = 48 then defOneLoop i (inStr.set i 57) 1
    else if fix ≠ 0 ∧ tmpK = 48 then defOneLoop i (inStr.set i 57) 1
    else (inStr.set i (BitVec.ofInt 8 (tmpK - 1)), 0)

/-- `getStringDefOne(inStr)`; the index starts from the size as an `int` -/
def getStringDefOne (inStr : ByteArray) : ByteArray :=
  let (inStr, fix) := defOneLoop (toInt32 ((inStr.length : Int) - 1) + 1).toNat inStr 0
  if fix ≠ 0 then [] else inStr

/-- `strA.compare(strB)`, by unsigned characters -/
def string_compare : ByteArray → ByteArray → Ordering
  | [], [] => .eq
  | [], _ :: _ => .lt
  | _ :: _, [] => .gt
  | a :: as, b :: bs =>
    if a.toNat < b.toNat then .lt else if b.toNat < a.toNat then .gt else string_compare as bs

def compareStr (strA strB : ByteArray) : Int :=
  let la := strA.length
  let lb := strB.length
  if la < lb ∨ (la = lb ∧ string_compare strA strB = .lt) then -1
  else if la = lb ∧ string_compare strA strB = .eq then 0
  else 1

/-! ## what a string spells -/

/-- the digits of a string -/
def digitsOf (s : ByteArray) : ByteArray := s.filter isDigit

/-- the number that they spell -/
def spells (s : ByteArray) : Nat := value (digitsOf s)

/-- a digit for a digit, and every other character as it is -/
def SameKind (a b : BYTE) : Prop := if isDigit a then isDigit b = true else b = a

/-- the same characters that are no digits at the same places, and digits elsewhere -/
def SameShape (s t : ByteArray) : Prop := List.Forall₂ SameKind s t

theorem SameKind.refl (a : BYTE) : SameKind a a := by
  unfold SameKind
  split
  · assumption
  · rfl

theorem SameKind.isDigit_eq {a b : BYTE} (h : SameKind a b) : isDigit b = isDigit a := by
  unfold SameKind at h
  split at h
  · rename_i ha
    rw [h, ha]
  · rw [h]

theorem SameKind.euclid {a b c : BYTE} (hb : SameKind a b) (hc : SameKind a c) : SameKind b c := by
  have hd := hb.isDigit_eq
  unfold SameKind at *
  rw [hd]
  split
  · rename_i ha
    rwa [if_pos ha] at hc
  · rename_i ha
    rw [if_neg ha] at hb hc
    rw [hb, hc]

theorem SameShape.refl (s : ByteArray) : SameShape s s :=
  List.forall₂_same.mpr fun a _ => SameKind.refl a

theorem SameShape.euclid {s t u : ByteArray} (ht : SameShape s t) (hu : SameShape s u) :
    SameShape t u := by
  induction ht generalizing u with
  | nil =>
    cases hu
    exact .nil
  | cons hb _ ih =>
    cases hu with
    | cons hc hrest => exact .cons (hb.euclid hc) (ih hrest)

theorem digitsOf_digit {c : BYTE} (h : isDigit c = true) (s : ByteArray) :
    digitsOf (c :: s) = c :: digitsOf s := List.filter_cons_of_pos h

theorem digitsOf_other {c : BYTE} (h : ¬ isDigit c = true) (s : ByteArray) :
    digitsOf (c :: s) = digitsOf s := List.filter_cons_of_neg h

theorem spells_digit {c : BYTE} (h : isDigit c = true) (s : ByteArray) :
    spells (c :: s) = (c.toNat - 0x30) * 10 ^ (digitsOf s).length + spells s := by
  rw [spells, digitsOf_digit h, value_cons, spells]

theorem spells_other {c : BYTE} (h : ¬ isDigit c = true) (s : ByteArray) :
    spells (c :: s) = spells s := by
  rw [spells, digitsOf_other h, spells]

theorem spells_lt (s : ByteArray) : spells s < 10 ^ (digitsOf s).length :=
  value_lt fun _ hc => (List.mem_filter.mp hc).2

theorem SameShape.digits {s t : ByteArray} (h : SameShape s t) :
    (digitsOf t).length = (digitsOf s).length := by
  induction h with
  | nil => rfl
  | @cons a b s t hab _ ih =>
    by_cases ha : isDigit a = true
    · rw [digitsOf_digit ha, digitsOf_digit (hab.isDigit_eq.trans ha), List.length_cons,
        List.length_cons, ih]
    · rw [digitsOf_other ha, digitsOf_other (by rw [hab.isDigit_eq]; exact ha), ih]

/-! ## the order of strings of one shape -/

/-- **Among strings of one shape the numbers decide.** -/
theorem string_compare_spells {s t : ByteArray} (h : SameShape s t) :
    string_compare s t = .lt ↔ spells s < spells t := by
  induction h with
  | nil => decide
  | @cons a b s t hab h ih =>
    have hcount := SameShape.digits h
    rw [string_compare]
    by_cases ha : isDigit a = true
    · have hb := hab.isDigit_eq.trans ha
      have hs := spells_lt s
      have ht := spells_lt t
      rw [hcount] at ht
      rw [spells_digit ha, spells_digit hb, hcount]
      rw [isDigit, decide_eq_true_iff] at ha hb
      have hstep : ∀ m n : Nat, m < n →
          m * 10 ^ (digitsOf s).length + 10 ^ (digitsOf s).length ≤ n * 10 ^ (digitsOf s).length := by
        intro m n hmn
        rw [← Nat.succ_mul]
        exact Nat.mul_le_mul_right _ hmn
      split
      · rename_i hlt
        have := hstep (a.toNat - 0x30) (b.toNat - 0x30) (by omega)
        exact iff_of_true rfl (by omega)
      · split
        · rename_i hgt
          have := hstep (b.toNat - 0x30) (a.toNat - 0x30) (by omega)
          exact iff_of_false (by decide) (by omega)
        · have hab' : a.toNat = b.toNat := by omega
          rw [ih, hab']
          omega
    · have hb : ¬ isDigit b = true := by
        rw [hab.isDigit_eq]
        exact ha
      unfold SameKind at hab
      rw [if_neg ha] at hab
      rw [spells_other ha, spells_other hb, hab, if_neg (Nat.lt_irrefl _), if_neg (Nat.lt_irrefl _), ih]

theorem compareStr_spells {s t : ByteArray} (h : SameShape s t) :
    compareStr s t = -1 ↔ spells s < spells t := by
  have hlen := List.Forall₂.length_eq h
  rw [← string_compare_spells h, compareStr]
  constructor
  · intro hc
    split at hc
    · rename_i hlt
      rcases hlt with hlt | hlt
      · omega
      · exact hlt.2
    · split at hc <;> cases hc
  · intro hc
    rw [if_pos (.inr ⟨hlen, hc⟩)]

/-! ## what the loop makes of the end of a string -/

/-- whether the loop has seen no digit yet, has a borrow to pass on, or has stopped -/
inductive Progress where
  | untouched
  | borrow
  | stopped
deriving DecidableEq, Repr

/-- `fix` -/
def Progress.fix : Progress → Int
  | .borrow => 1
  | _ => 0

/-- what the loop makes of a part of the string, seen from its end -/
def before : ByteArray → ByteArray × Progress
  | [] => ([], .untouched)
  | c :: s =>
    let r := before s
    if r.2 = .stopped ∨ ¬ isDigit c = true then (c :: r.1, r.2)
    else if c = 0x30 then (0x39 :: r.1, .borrow)
    else (BitVec.ofInt 8 (c.toInt - 1) :: r.1, .stopped)

theorem before_skip {c : BYTE} {s : ByteArray} (h : (before s).2 = .stopped ∨ ¬ isDigit c = true) :
    before (c :: s) = (c :: (before s).1, (before s).2) := by
  rw [before, if_pos h]

theorem before_zero {c : BYTE} {s : ByteArray} (h : (before s).2 ≠ .stopped) (hc : c = 0x30) :
    before (c :: s) = (0x39 :: (before s).1, .borrow) := by
  have hn : ¬ ((before s).2 = .stopped ∨ ¬ isDigit c = true) := by
    rw [not_or, not_not, hc]
    exact ⟨h, by decide⟩
  rw [before, if_neg hn, if_pos hc]

theorem before_digit {c : BYTE} {s : ByteArray} (h : (before s).2 ≠ .stopped) (hd : isDigit c = true)
    (hc : c ≠ 0x30) :
    before (c :: s) = (BitVec.ofInt 8 (c.toInt - 1) :: (before s).1, .stopped) := by
  have hn : ¬ ((before s).2 = .stopped ∨ ¬ isDigit c = true) := by
    rw [not_or, not_not]
    exact ⟨h, hd⟩
  rw [before, if_neg hn, if_neg hc]

theorem before_stopped (front : ByteArray) {s : ByteArray} (h : (before s).2 = .stopped) :
    before (front ++ s) = (front ++ (before s).1, .stopped) := by
  induction front with
  | nil => exact Prod.ext rfl h
  | cons c front ih =>
    rw [List.cons_append, before_skip (.inl (by rw [ih])), ih]
    rfl

/-- a digit, as a signed character -/
theorem isDigit_toInt (c : BYTE) : isDigit c = true ↔ ¬ (c.toInt < 48 ∨ c.toInt > 57) := by
  have h := c.isLt
  rw [isDigit, decide_eq_true_iff, BitVec.toInt_eq_toNat_cond]
  split <;> omega

theorem toInt_zero (c : BYTE) : c.toInt = 48 ↔ c = 0x30 := by
  constructor
  · exact fun h => BitVec.eq_of_toInt_eq h
  · rintro rfl
    decide

/-- **The loop makes of the whole string what it makes of its parts.** -/
theorem defOneLoop_before (front : ByteArray) : ∀ back : ByteArray, (before back).2 ≠ .stopped →
    defOneLoop front.length (front ++ (before back).1) (before back).2.fix
      = ((before (front ++ back)).1, (before (front ++ back)).2.fix) := by
  induction front using List.reverseRecOn with
  | nil => exact fun _ _ => rfl
  | append_singleton front c ih =>
    intro back hback
    have hget : (front ++ [c] ++ (before back).1).getD front.length 0 = c := by
      rw [List.append_assoc]
      simp [List.getD]
    have hset : ∀ x, (front ++ [c] ++ (before back).1).set front.length x
        = front ++ x :: (before back).1 := by
      intro x
      rw [List.append_assoc, List.set_append_right _ _ (Nat.le_refl _), Nat.sub_self]
      rfl
    have hsplit : front ++ [c] ++ back = front ++ c :: back := by
      rw [List.append_assoc]
      rfl
    rw [List.length_append, List.length_singleton, defOneLoop, hget, hsplit]
    by_cases hd : isDigit c = true
    · rw [if_neg ((isDigit_toInt c).mp hd)]
      by_cases hz : c = 0x30
      · rw [if_pos ((toInt_zero c).mpr hz), hset]
        have he := before_zero hback hz
        have hih := ih (c :: back) (by rw [he]; nofun)
        rw [← hih, he]
        rfl
      · have hnz : ¬ c.toInt = 48 := fun h => hz ((toInt_zero c).mp h)
        rw [if_neg hnz, if_neg fun h => hnz h.2, hset]
        have he := before_digit hback hd hz
        rw [before_stopped front (by rw [he]), he]
        rfl
    · rw [if_pos (not_not.mp (mt (isDigit_toInt c).mpr hd))]
      have he := before_skip (s := back) (.inr hd)
      have hih := ih (c :: back) (by rw [he]; exact hback)
      rw [← hih, he, List.append_assoc]
      rfl

/-- **`getStringDefOne` for a string whose size is an `int`.** -/
theorem getStringDefOne_before {s : ByteArray} (hs : s.length < 2147483648) :
    getStringDefOne s = if (before s).2 = .borrow then [] else (before s).1 := by
  have hn : (toInt32 ((s.length : Int) - 1) + 1).toNat = s.length := by
    rw [toInt32_eq (by omega) (by omega)]
    omega
  have hloop := defOneLoop_before s [] (by decide)
  rw [List.append_nil] at hloop
  change defOneLoop s.length (s ++ []) 0 = _ at hloop
  rw [List.append_nil] at hloop
  rw [getStringDefOne, hn, hloop]
  cases (before s).2 <;> rfl

/-- what has become of a part of a string -/
structure Became (s : ByteArray) (r : ByteArray × Progress) : Prop where
  shape : SameShape s r.1
  untouched : r.2 = .untouched → digitsOf s = [] ∧ r.1 = s
  borrow : r.2 = .borrow → digitsOf s ≠ [] ∧ spells s = 0 ∧ spells r.1 + 1 = 10 ^ (digitsOf s).length
  stopped : r.2 = .stopped → spells r.1 + 1 = spells s

/-- a part in which it has not stopped: its digits are zeros, and have become nines -/
theorem Became.nines {s : ByteArray} {r : ByteArray × Progress} (h : Became s r) (hr : r.2 ≠ .stopped) :
    spells s = 0 ∧ spells r.1 + 1 = 10 ^ (digitsOf s).length := by
  cases hp : r.2 with
  | untouched =>
    obtain ⟨hd, he⟩ := h.untouched hp
    rw [he, spells, hd]
    decide
  | borrow => exact (h.borrow hp).2
  | stopped => exact absurd hp hr

theorem digit_pred {c : BYTE} (hd : isDigit c = true) (hc : c ≠ 0x30) :
    (BitVec.ofInt 8 (c.toInt - 1)).toNat + 1 = c.toNat ∧
      isDigit (BitVec.ofInt 8 (c.toInt - 1)) = true := by
  have hne : c.toNat ≠ 0x30 := fun h => hc (BitVec.eq_of_toNat_eq h)
  rw [isDigit, decide_eq_true_iff] at hd
  have hval : (BitVec.ofInt 8 (c.toInt - 1)).toNat = c.toNat - 1 := by
    rw [BitVec.toNat_ofInt, BitVec.toInt_eq_toNat_cond, if_pos (by omega)]
    omega
  rw [isDigit, decide_eq_true_iff, hval]
  omega

theorem Became.of_stopped {s r : ByteArray} (h : SameShape s r) (hv : spells r + 1 = spells s) :
    Became s (r, .stopped) :=
  ⟨h, fun hr => Progress.noConfusion hr, fun hr => Progress.noConfusion hr, fun _ => hv⟩

section
variable {c : BYTE} {s : ByteArray} {r : ByteArray × Progress}

theorem Became.other (h : Became s r) (hd : ¬ isDigit c = true) :
    Became (c :: s) (c :: r.1, r.2) := by
  refine ⟨.cons (SameKind.refl c) h.shape, fun hr => ?_, fun hr => ?_, fun hr => ?_⟩
  · obtain ⟨hn, he⟩ := h.untouched hr
    rw [digitsOf_other hd]
    exact ⟨hn, congrArg _ he⟩
  · rw [digitsOf_other hd, spells_other hd, spells_other hd]
    exact h.borrow hr
  · rw [spells_other hd, spells_other hd]
    exact h.stopped hr

/-- a digit in front of where the loop has stopped -/
theorem Became.front (h : Became s r) (hr : r.2 = .stopped) (hd : isDigit c = true) :
    Became (c :: s) (c :: r.1, .stopped) := by
  refine .of_stopped (.cons (SameKind.refl c) h.shape) ?_
  have hval := h.stopped hr
  rw [spells_digit hd, spells_digit hd, h.shape.digits]
  omega

/-- a zero passes the borrow on -/
theorem Became.zero (h : Became s r) (hr : r.2 ≠ .stopped) :
    Became (0x30 :: s) (0x39 :: r.1, .borrow) := by
  obtain ⟨hzero, hnines⟩ := h.nines hr
  have hd : isDigit (0x30 : BYTE) = true := by decide
  refine ⟨.cons rfl h.shape, nofun, fun _ => ⟨?_, ?_, ?_⟩, nofun⟩
  · rw [digitsOf_digit hd]
    exact List.cons_ne_nil _ _
  · rw [spells_digit hd, hzero]
    exact Nat.zero_mul _
  · show spells (0x39 :: r.1) + 1 = _
    rw [spells_digit (by decide), h.shape.digits, digitsOf_digit hd, List.length_cons, pow_succ]
    show 9 * _ + _ + 1 = _
    omega

/-- another digit takes it -/
theorem Became.digit (h : Became s r) (hr : r.2 ≠ .stopped) (hd : isDigit c = true)
    (hc : c ≠ 0x30) : Became (c :: s) (BitVec.ofInt 8 (c.toInt - 1) :: r.1, .stopped) := by
  obtain ⟨hzero, hnines⟩ := h.nines hr
  obtain ⟨hpred, hdigit⟩ := digit_pred hd hc
  have hkind : SameKind c (BitVec.ofInt 8 (c.toInt - 1)) := by
    rw [SameKind, if_pos hd]
    exact hdigit
  have hweight : c.toNat - 0x30 = (BitVec.ofInt 8 (c.toInt - 1)).toNat - 0x30 + 1 := by
    rw [isDigit, decide_eq_true_iff] at hdigit
    omega
  refine .of_stopped (.cons hkind h.shape) ?_
  rw [spells_digit hdigit, spells_digit hd, h.shape.digits, hzero, hweight, Nat.succ_mul]
  omega

end

theorem before_became (s : ByteArray) : Became s (before s) := by
  induction s with
  | nil => exact ⟨.nil, fun _ => ⟨rfl, rfl⟩, nofun, nofun⟩
  | cons c s ih =>
    by_cases hd : isDigit c = true
    · by_cases hstop : (before s).2 = .stopped
      · rw [before_skip (.inl hstop), hstop]
        exact ih.front hstop hd
      · by_cases hc : c = 0x30
        · rw [before_zero hstop hc, hc]
          exact ih.zero hstop
        · rw [before_digit hstop hd hc]
          exact ih.digit hstop hd hc
    · rw [before_skip (.inr hd)]
      exact ih.other hd

/-! ## the string before -/

/-- what `getStringDefOne` gives for a string that spells a number -/
structure OneLess (s r : ByteArray) : Prop where
  shape : SameShape s r
  number : spells r = spells s - 1
  smaller : compareStr r s = -1
  next : ∀ t, SameShape s t → ¬ (compareStr r t = -1 ∧ compareStr t s = -1)

/-- **`getStringDefOne` is the decimal predecessor on the digits of a string.** -/
theorem getStringDefOne_one_less (s : ByteArray) (hs : s.length < 2147483648) :
    (digitsOf s = [] → getStringDefOne s = s) ∧
      (digitsOf s ≠ [] → spells s = 0 → getStringDefOne s = []) ∧
      (0 < spells s → OneLess s (getStringDefOne s)) := by
  have hb := before_became s
  rw [getStringDefOne_before hs]
  refine ⟨fun hnil => ?_, fun hne hzero => ?_, fun hpos => ?_⟩
  · have hnb : (before s).2 ≠ .borrow := fun h => (hb.borrow h).1 hnil
    rw [if_neg hnb]
    cases hp : (before s).2 with
    | untouched => exact (hb.untouched hp).2
    | borrow => exact absurd hp hnb
    | stopped =>
      have hval := hb.stopped hp
      rw [spells, spells, hnil] at hval
      exact absurd hval (Nat.succ_ne_zero _)
  · cases hp : (before s).2 with
    | untouched => exact absurd (hb.untouched hp).1 hne
    | borrow => exact if_pos rfl
    | stopped =>
      have hval := hb.stopped hp
      omega
  · have hstop : (before s).2 = .stopped := by
      by_contra hn
      have := (hb.nines hn).1
      omega
    have hval := hb.stopped hstop
    rw [if_neg (by rw [hstop]; decide)]
    have hrs : SameShape (before s).1 s := hb.shape.euclid (SameShape.refl s)
    refine ⟨hb.shape, by omega, (compareStr_spells hrs).mpr (by omega), ?_⟩
    rintro t ht ⟨h1, h2⟩
    have h1' := (compareStr_spells (hb.shape.euclid ht)).mp h1
    have h2' := (compareStr_spells (ht.euclid (SameShape.refl s))).mp h2
    omega

/-- `a1b00`: the borrow passes the letter -/
theorem getStringDefOne_letters :
    OneLess [0x61, 0x31, 0x62, 0x30, 0x30] (getStringDefOne [0x61, 0x31, 0x62, 0x30, 0x30]) ∧
      getStringDefOne [0x61, 0x31, 0x62, 0x30, 0x30] = [0x61, 0x30, 0x62, 0x39, 0x39] :=
  ⟨(getStringDefOne_one_less _ (by decide)).2.2 (by decide), by decide⟩

end Netwb
