import Mathlib.Data.List.Chain
import Mathlib.Data.List.TakeWhile
import Netwb.Net.Base64

/-!
# Base64: the range that the decoder is given

`base64_decode` with its length, on a buffer that may go on behind the range.  The loop compares `s`
with the end pointer, the two loops inside it, which skip characters, do not.  A byte behind the
buffer is not there: reading it has no result.

`scanTo_inside`, `scanTo_blocked`, `scanTo_left`: how the characters of the range are read, by what
stands in it.
-/

namespace Netwb
open Wire

/-! ## the two tables -/

/-- `A` to `Z`, `a` to `z`, `0` to `9` -/
def base64_letters : List Nat := List.range' 0x41 26 ++ List.range' 0x61 26 ++ List.range' 0x30 10

def std_base64 : base64_t where
  alphabet := (base64_letters ++ [0x2b, 0x2f, 0x3d, 0]).map (BitVec.ofNat 8)
  detab := (List.replicate 43 65 ++ [62, 65, 65, 65, 63] ++ List.range' 52 10 ++
    [65, 65, 65, 64, 65, 65, 65] ++ List.range 26 ++ List.replicate 6 65 ++ List.range' 26 26 ++
    List.replicate 133 65).map (BitVec.ofNat 8)

def url_base64 : base64_t where
  alphabet := (base64_letters ++ [0x2d, 0x5f, 0x3d, 0]).map (BitVec.ofNat 8)
  detab := (List.replicate 45 65 ++ [62, 65, 65] ++ List.range' 52 10 ++
    [65, 65, 65, 64, 65, 65, 65] ++ List.range 26 ++ [65, 65, 65, 65, 63, 65] ++
    List.range' 26 26 ++ List.replicate 133 65).map (BitVec.ofNat 8)

/-- tables that `base64_init` makes of an alphabet belong together -/
theorem paired_of_init {alphabet : ByteArray} {b64 : base64_t}
    (h : ((base64_init alphabet).1, (base64_init alphabet).2.alphabet,
      (base64_init alphabet).2.detab) = (0, b64.alphabet, b64.detab)) : b64.Paired := by
  rw [Prod.mk.injEq, Prod.mk.injEq] at h
  obtain ⟨hinit, halphabet, hdetab⟩ := h
  have hpaired := base64_init_paired hinit
  rcases htables : (base64_init alphabet).2 with ⟨a, d⟩
  rw [htables] at hpaired halphabet hdetab
  rcases b64 with ⟨a', d'⟩
  cases halphabet
  cases hdetab
  exact hpaired

theorem std_paired : std_base64.Paired := by
  have hinit : ((base64_init (std_base64.alphabet.take 65)).1,
      (base64_init (std_base64.alphabet.take 65)).2.alphabet,
      (base64_init (std_base64.alphabet.take 65)).2.detab)
        = (0, std_base64.alphabet, std_base64.detab) := by decide +kernel
  exact paired_of_init hinit

theorem url_base64_paired : url_base64.Paired := by
  have hinit : ((base64_init url_base64_alphabet).1, (base64_init url_base64_alphabet).2.alphabet,
      (base64_init url_base64_alphabet).2.detab)
        = (0, url_base64.alphabet, url_base64.detab) := by decide +kernel
  exact paired_of_init hinit

/-! ## the decoder -/

/-- the loop itself looks at the end pointer -/
def Reading.tests : Reading → Bool
  | .loop => true
  | .nonAlphabet => false
  | .space => false

/-- where reading goes on behind a character that is not of the alphabet -/
def Reading.next (flag : Nat) : Reading → BYTE → Option Reading
  | .loop, _ =>
    if flag &&& BASE64_IGNORE_NON_ALPHABET ≠ 0 then some .nonAlphabet
    else if flag &&& BASE64_IGNORE_SPACE ≠ 0 then some .space
    else none
  | .nonAlphabet, _ => some .nonAlphabet
  | .space, c => if isspace c then some .space else none

section
variable (b64 : base64_t) (flag fin : Nat)

/-- the loop of `base64_decode` with the two inside it, on the bytes from `s` on, with `fin` for
`end` -/
def scanTo : Reading → ByteArray → Nat → BYTE → Decoding → Option (Decoding × Nat × BYTE)
  | reading, [], s, c, st => if reading.tests ∧ fin ≤ s then some (st, s, c) else none
  | reading, c :: rest, s, last, st =>
    if reading.tests ∧ fin ≤ s then some (st, s, last)
    else if c = 0 then some (st, s + 1, 0)
    else
      let x := (b64.detab.getD c.toNat 0).toNat
      if x < 64 then scanTo .loop rest (s + 1) c (st.put x)
      else if x = 64 then some (st, s + 1, c)
      else
        match reading.next flag c with
        | some reading => scanTo reading rest (s + 1) c st
        | none => some (st, s + 1, c)

/-- `base64_decode` of the bytes at `start` -/
def decodeTo (start : Nat) (mem : ByteArray) : Option (Int × ByteArray) :=
  (scanTo b64 flag fin .loop mem start 0 ⟨0, 0, []⟩).map fun (st, s, c) =>
    if s < fin ∧ c ≠ 0 ∧ c ≠ b64.etab 64 ∨ st.n = 1 ∨ st.n ≠ 0 ∧ st.r &&& 0xff ≠ 0 then
      (-((s - start : Nat) : Int), st.written)
    else (st.written.length, st.written)

/-- `base64_decode(b64, out, in, len, flag)`, with places in the buffer for pointers -/
def base64_decode_in (mem : ByteArray) (len : Nat) : Option (Int × ByteArray) :=
  decodeTo b64 flag len 0 mem

end

/-- the same with addresses of `w` bits, `in` being `a`; no length is less than zero -/
def base64_decode_at (b64 : base64_t) (flag w a : Nat) (mem : ByteArray) (len : Nat) :
    Option (Int × ByteArray) :=
  let fin := if len < 0 then 2 ^ w - 1 else (a + len) % 2 ^ w
  decodeTo b64 flag fin a mem

/-- the loop on a C string, in the same words -/
theorem scan_cons (b64 : base64_t) (flag : Nat) (reading : Reading) (x : BYTE) (rest : ByteArray)
    (s : Nat) (c : BYTE) (st : Decoding) :
    scan b64 flag reading (x :: rest) s c st =
      if x = 0 then (st, s + 1, 0)
      else if b64.value x < 64 then scan b64 flag .loop rest (s + 1) x (st.put (b64.value x))
      else if b64.value x = 64 then (st, s + 1, x)
      else
        match reading.next flag x with
        | some reading => scan b64 flag reading rest (s + 1) x st
        | none => (st, s + 1, x) := by
  cases reading with
  | loop =>
    rw [scan, Reading.next]
    by_cases hnon : flag &&& BASE64_IGNORE_NON_ALPHABET ≠ 0
    · rw [if_pos hnon, if_pos hnon]
      rfl
    · rw [if_neg hnon, if_neg hnon]
      by_cases hspace : flag &&& BASE64_IGNORE_SPACE ≠ 0
      · rw [if_pos hspace, if_pos hspace]
        rfl
      · rw [if_neg hspace, if_neg hspace]
        rfl
  | nonAlphabet => rfl
  | space =>
    rw [scan, Reading.next]
    by_cases hspace : isspace x
    · rw [if_pos hspace, if_pos hspace]
      rfl
    · rw [if_neg hspace, if_neg hspace]
      rfl

/-- on a C string, with its length -/
theorem scanTo_string (b64 : base64_t) (flag : Nat) : ∀ (input : ByteArray) (reading : Reading)
    (s : Nat) (c : BYTE) (st : Decoding),
    scanTo b64 flag (s + input.length) reading (input ++ [0]) s c st
      = some (scan b64 flag reading input s c st)
  | [], reading, s, c, st => by
    cases reading with
    | loop => exact if_pos ⟨rfl, Nat.le_refl s⟩
    | nonAlphabet => rfl
    | space => rfl
  | x :: rest, reading, s, c, st => by
    have ih := fun m st => scanTo_string b64 flag rest m (s + 1) x st
    have hfin : s + (x :: rest).length = s + 1 + rest.length := by
      rw [List.length_cons]
      omega
    rw [hfin, List.cons_append, scanTo, if_neg (by omega), scan_cons]
    split
    · rfl
    dsimp only
    unfold base64_t.value
    split
    · exact ih .loop _
    split
    · rfl
    cases reading.next flag x with
    | some m => exact ih m st
    | none => rfl

/-- **With its length, a C string is decoded as one.** -/
theorem base64_decode_in_string (b64 : base64_t) (flag : Nat) (input : ByteArray) :
    base64_decode_in b64 flag (input ++ [0]) input.length = some (base64_decode b64 flag input) := by
  have hscan := scanTo_string b64 flag input .loop 0 0 ⟨0, 0, []⟩
  rw [Nat.zero_add] at hscan
  rw [base64_decode_in, decodeTo, hscan, base64_decode]
  rcases scan b64 flag .loop input 0 0 ⟨0, 0, []⟩ with ⟨st, s, c⟩
  rfl

/-! ## what a character is -/

section
variable (b64 : base64_t)

/-- a NUL or the padding -/
def base64_t.Closes (c : BYTE) : Prop := c = 0 ∨ b64.value c = 64

/-- a character of the alphabet -/
def base64_t.Symbol (c : BYTE) : Prop := c ≠ 0 ∧ b64.value c < 64

def base64_t.Other (c : BYTE) : Prop := c ≠ 0 ∧ 64 < b64.value c

instance (c : BYTE) : Decidable (b64.Closes c) := inferInstanceAs (Decidable (_ ∨ _))
instance (c : BYTE) : Decidable (b64.Symbol c) := inferInstanceAs (Decidable (_ ∧ _))
instance (c : BYTE) : Decidable (b64.Other c) := inferInstanceAs (Decidable (_ ∧ _))

/-- the characters before the first NUL and the first padding -/
def base64_t.cut (l : ByteArray) : ByteArray := l.takeWhile fun c => ¬ b64.Closes c

/-- the six bits of each character of the alphabet -/
def base64_t.sextets (l : ByteArray) : List Nat := (l.filter fun c => b64.Symbol c).map b64.value

variable {b64} {c : BYTE}

theorem base64_t.kinds (b64 : base64_t) (c : BYTE) : b64.Closes c ∨ b64.Symbol c ∨ b64.Other c := by
  by_cases h0 : c = 0
  · exact .inl (.inl h0)
  · rcases Nat.lt_trichotomy (b64.value c) 64 with hlt | heq | hgt
    · exact .inr (.inl ⟨h0, hlt⟩)
    · exact .inl (.inr heq)
    · exact .inr (.inr ⟨h0, hgt⟩)

theorem base64_t.Symbol.not_closes (h : b64.Symbol c) : ¬ b64.Closes c := by
  rintro (h0 | h64)
  · exact h.1 h0
  · exact absurd h.2 (by omega)

theorem base64_t.Other.not_closes (h : b64.Other c) : ¬ b64.Closes c := by
  rintro (h0 | h64)
  · exact h.1 h0
  · exact absurd h.2 (by omega)

theorem base64_t.Other.not_symbol (h : b64.Other c) : ¬ b64.Symbol c := by
  intro hs
  exact absurd hs.2 (Nat.not_lt.mpr h.2.le)

variable (l : ByteArray)

theorem cut_closes (h : b64.Closes c) : b64.cut (c :: l) = [] :=
  List.takeWhile_cons_of_neg (by simp [h])

theorem cut_other (h : ¬ b64.Closes c) : b64.cut (c :: l) = c :: b64.cut l :=
  List.takeWhile_cons_of_pos (by simp [h])

theorem sextets_symbol (h : b64.Symbol c) : b64.sextets (c :: l) = b64.value c :: b64.sextets l := by
  rw [base64_t.sextets, List.filter_cons_of_pos (by simp [h])]
  rfl

theorem sextets_other (h : ¬ b64.Symbol c) : b64.sextets (c :: l) = b64.sextets l := by
  rw [base64_t.sextets, List.filter_cons_of_neg (by simp [h])]
  rfl

end

/-! ## one character -/

section
variable (b64 : base64_t) (flag fin : Nat) (mem : ByteArray) {s : Nat} (c : BYTE) (st : Decoding)

theorem scanTo_stop (h : fin ≤ s) : scanTo b64 flag fin .loop mem s c st = some (st, s, c) := by
  cases mem with
  | nil => exact if_pos ⟨rfl, h⟩
  | cons x rest => exact if_pos ⟨rfl, h⟩

variable {b64 fin} {reading : Reading} {x : BYTE} (hs : reading = .loop → s < fin)
include hs

theorem not_stop : ¬ (reading.tests = true ∧ fin ≤ s) := by
  rintro ⟨htests, hle⟩
  cases reading with
  | loop => exact absurd (hs rfl) (Nat.not_lt.mpr hle)
  | nonAlphabet => cases htests
  | space => cases htests

theorem scanTo_nil : scanTo b64 flag fin reading [] s c st = none := if_neg (not_stop hs)

theorem scanTo_closes (hx : b64.Closes x) :
    scanTo b64 flag fin reading (x :: mem) s c st = some (st, s + 1, x) := by
  rw [scanTo, if_neg (not_stop hs)]
  by_cases h0 : x = 0
  · rw [if_pos h0, h0]
  · have h64 : (b64.detab.getD x.toNat 0).toNat = 64 := hx.resolve_left h0
    rw [if_neg h0, h64]
    rfl

theorem scanTo_symbol (hx : b64.Symbol x) :
    scanTo b64 flag fin reading (x :: mem) s c st
      = scanTo b64 flag fin .loop mem (s + 1) x (st.put (b64.value x)) := by
  rw [scanTo, if_neg (not_stop hs), if_neg hx.1]
  exact if_pos hx.2

theorem scanTo_other (hx : b64.Other x) :
    scanTo b64 flag fin reading (x :: mem) s c st =
      match reading.next flag x with
      | some reading => scanTo b64 flag fin reading mem (s + 1) x st
      | none => some (st, s + 1, x) := by
  rw [scanTo, if_neg (not_stop hs), if_neg hx.1]
  have hother : 64 < (b64.detab.getD x.toNat 0).toNat := hx.2
  dsimp only
  rw [if_neg (Nat.not_lt.mpr hother.le), if_neg hother.ne']

end

/-! ## the characters of a range -/

section
variable (b64 : base64_t) (flag : Nat)

/-- no character stops the decoder but a NUL and the padding -/
def Clear : Reading → ByteArray → Prop
  | _, [] => True
  | reading, c :: rest => b64.Closes c ∨ b64.Symbol c ∧ Clear .loop rest ∨
    b64.Other c ∧ ∃ m, reading.next flag c = some m ∧ Clear m rest

/-- behind the last character, one of the loops that skip is still reading -/
def Leaves : Reading → ByteArray → Prop
  | reading, [] => reading ≠ .loop
  | reading, c :: rest => b64.Symbol c ∧ Leaves .loop rest ∨
    b64.Other c ∧ ∃ m, reading.next flag c = some m ∧ Leaves m rest

variable {b64 flag} {reading : Reading} {x : BYTE} (r : ByteArray)

theorem fin_cons (s : Nat) (x : BYTE) (r : ByteArray) : s + (x :: r).length = s + 1 + r.length := by
  rw [List.length_cons]
  omega

theorem lt_fin (s : Nat) (x : BYTE) (r : ByteArray) : s < s + (x :: r).length := by
  rw [fin_cons]
  omega

theorem clear_closes (hx : b64.Closes x) : Clear b64 flag reading (x :: r).dropLast := by
  cases r with
  | nil => trivial
  | cons y r => exact .inl hx

theorem clear_cons_symbol (l : ByteArray) (hx : b64.Symbol x) :
    Clear b64 flag reading (x :: l) ↔ Clear b64 flag .loop l := by
  refine ⟨fun h => ?_, fun h => .inr (.inl ⟨hx, h⟩)⟩
  rcases h with h | h | h
  · exact absurd h hx.not_closes
  · exact h.2
  · exact absurd hx h.1.not_symbol

theorem clear_cons_other (l : ByteArray) (hx : b64.Other x) :
    Clear b64 flag reading (x :: l) ↔ ∃ m, reading.next flag x = some m ∧ Clear b64 flag m l := by
  refine ⟨fun h => ?_, fun h => .inr (.inr ⟨hx, h⟩)⟩
  rcases h with h | h | h
  · exact absurd h hx.not_closes
  · exact absurd h.1 hx.not_symbol
  · exact h.2

/-- the same up to the last place -/
theorem clear_symbol (hx : b64.Symbol x) :
    Clear b64 flag reading (x :: r).dropLast ↔ Clear b64 flag .loop r.dropLast := by
  cases r with
  | nil => exact Iff.rfl
  | cons y r => exact clear_cons_symbol (y :: r).dropLast hx

theorem clear_other (hx : b64.Other x) {m : Reading} (hm : reading.next flag x = some m) :
    Clear b64 flag reading (x :: r).dropLast ↔ Clear b64 flag m r.dropLast := by
  cases r with
  | nil => exact Iff.rfl
  | cons y r =>
    refine (clear_cons_other (y :: r).dropLast hx).trans ?_
    simp only [hm, Option.some.injEq, exists_eq_left']

theorem clear_none (hx : b64.Other x) (hnone : reading.next flag x = none) :
    Clear b64 flag reading (x :: r).dropLast ↔ r = [] := by
  cases r with
  | nil => exact ⟨fun _ => rfl, fun _ => trivial⟩
  | cons y r =>
    refine iff_of_false (fun h => ?_) (List.cons_ne_nil y r)
    obtain ⟨m, hm, -⟩ := (clear_cons_other (y :: r).dropLast hx).mp h
    exact absurd (hnone.symm.trans hm) (Option.some_ne_none m).symm

/-- **A range that no loop leaves**: the symbols before the end, the same whatever is behind. -/
theorem scanTo_inside : ∀ (r : ByteArray) (reading : Reading) (s : Nat) (c : BYTE) (st : Decoding),
    Clear b64 flag reading r.dropLast → ¬ Leaves b64 flag reading r →
    ∃ s' c', (∀ behind, scanTo b64 flag (s + r.length) reading (r ++ behind) s c st
      = some ((b64.sextets (b64.cut r)).foldl Decoding.put st, s', c')) ∧
      (s + r.length ≤ s' ∨ b64.Closes c')
  | [], reading, s, c, st, _, hleaves => by
    obtain rfl : reading = .loop := not_not.mp hleaves
    exact ⟨s, c, fun behind => scanTo_stop _ _ _ _ _ _ le_rfl, .inl le_rfl⟩
  | x :: r, reading, s, c, st, hclear, hleaves => by
    have hs : reading = .loop → s < s + (x :: r).length := fun _ => lt_fin s x r
    rcases b64.kinds x with hx | hx | hx
    · refine ⟨s + 1, x, fun behind => ?_, .inr hx⟩
      rw [cut_closes r hx]
      exact scanTo_closes flag (r ++ behind) c st hs hx
    · obtain ⟨s', c', hscan, hend⟩ := scanTo_inside r .loop (s + 1) x (st.put (b64.value x))
        ((clear_symbol r hx).mp hclear) fun h => hleaves (.inl ⟨hx, h⟩)
      rw [← fin_cons s x r] at hscan hend
      refine ⟨s', c', fun behind => ?_, hend⟩
      rw [cut_other r hx.not_closes, sextets_symbol _ hx]
      exact (scanTo_symbol flag (r ++ behind) c st hs hx).trans (hscan behind)
    · have hskip := fun behind => scanTo_other flag (r ++ behind) c st hs hx
      rw [cut_other r hx.not_closes, sextets_other _ hx.not_symbol]
      cases hnext : reading.next flag x with
      | none =>
        obtain rfl : r = [] := (clear_none r hx hnext).mp hclear
        rw [hnext] at hskip
        exact ⟨s + 1, x, hskip, .inl le_rfl⟩
      | some m =>
        rw [hnext] at hskip
        obtain ⟨s', c', hscan, hend⟩ := scanTo_inside r m (s + 1) x st
          ((clear_other r hx hnext).mp hclear) fun h => hleaves (.inr ⟨hx, m, hnext, h⟩)
        rw [← fin_cons s x r] at hscan hend
        exact ⟨s', c', fun behind => (hskip behind).trans (hscan behind), hend⟩

/-- **A range with a character in it that stops the decoder**, before its last place. -/
theorem scanTo_blocked : ∀ (r : ByteArray) (reading : Reading) (s : Nat) (c : BYTE) (st : Decoding),
    ¬ Clear b64 flag reading r.dropLast →
    ∃ st' s' c', (∀ behind, scanTo b64 flag (s + r.length) reading (r ++ behind) s c st
      = some (st', s', c')) ∧ s < s' ∧ s' < s + r.length ∧ b64.Other c'
  | [], _, _, _, _, hclear => absurd trivial hclear
  | x :: r, reading, s, c, st, hclear => by
    have hs : reading = .loop → s < s + (x :: r).length := fun _ => lt_fin s x r
    rcases b64.kinds x with hx | hx | hx
    · exact absurd (clear_closes r hx) hclear
    · obtain ⟨st', s', c', hscan, hlt, hend⟩ := scanTo_blocked r .loop (s + 1) x
        (st.put (b64.value x)) fun h => hclear ((clear_symbol r hx).mpr h)
      rw [← fin_cons s x r] at hscan hend
      have hstep := fun behind => scanTo_symbol flag (r ++ behind) c st hs hx
      exact ⟨st', s', c', fun behind => (hstep behind).trans (hscan behind), by omega, hend⟩
    · have hskip := fun behind => scanTo_other flag (r ++ behind) c st hs hx
      cases hnext : reading.next flag x with
      | none =>
        rw [hnext] at hskip
        have hlen : 0 < r.length :=
          List.length_pos_of_ne_nil fun h => hclear ((clear_none r hx hnext).mpr h)
        exact ⟨st, s + 1, x, hskip, by omega, by rw [fin_cons]; omega, hx⟩
      | some m =>
        rw [hnext] at hskip
        obtain ⟨st', s', c', hscan, hlt, hend⟩ := scanTo_blocked r m (s + 1) x st
          fun h => hclear ((clear_other r hx hnext).mpr h)
        rw [← fin_cons s x r] at hscan hend
        exact ⟨st', s', c', fun behind => (hskip behind).trans (hscan behind), by omega, hend⟩

/-- the loop that skips characters -/
def skipping (flag : Nat) : Reading :=
  if flag &&& BASE64_IGNORE_NON_ALPHABET ≠ 0 then .nonAlphabet else .space

theorem next_skipping {m : Reading} (hreading : reading = .loop ∨ reading = skipping flag)
    (hm : reading.next flag x = some m) : m = skipping flag := by
  unfold skipping at hreading ⊢
  by_cases hnon : flag &&& BASE64_IGNORE_NON_ALPHABET ≠ 0
  · rw [if_pos hnon] at hreading ⊢
    rcases hreading with rfl | rfl
    · rw [Reading.next, if_pos hnon] at hm
      exact (Option.some.inj hm).symm
    · exact (Option.some.inj hm).symm
  · rw [if_neg hnon] at hreading ⊢
    rcases hreading with rfl | rfl
    · rw [Reading.next, if_neg hnon] at hm
      exact (Option.ite_some_none_eq_some.mp hm).2.symm
    · rw [Reading.next] at hm
      exact (Option.ite_some_none_eq_some.mp hm).2.symm

/-- **A range that a loop leaves**: it goes on reading behind it. -/
theorem scanTo_left : ∀ (r : ByteArray) (reading : Reading) (s : Nat) (c : BYTE) (st : Decoding),
    reading = .loop ∨ reading = skipping flag → Leaves b64 flag reading r →
    ∃ c', ∀ behind, scanTo b64 flag (s + r.length) reading (r ++ behind) s c st
      = scanTo b64 flag (s + r.length) (skipping flag) behind (s + r.length) c'
          ((b64.sextets r).foldl Decoding.put st)
  | [], reading, s, c, st, hreading, hleaves => by
    obtain rfl := hreading.resolve_left hleaves
    exact ⟨c, fun behind => rfl⟩
  | x :: r, reading, s, c, st, hreading, hleaves => by
    have hs : reading = .loop → s < s + (x :: r).length := fun _ => lt_fin s x r
    rcases hleaves with ⟨hx, hrest⟩ | ⟨hx, m, hm, hrest⟩
    · obtain ⟨c', hscan⟩ := scanTo_left r .loop (s + 1) x (st.put (b64.value x)) (.inl rfl) hrest
      rw [← fin_cons s x r] at hscan
      refine ⟨c', fun behind => ?_⟩
      rw [sextets_symbol r hx]
      exact (scanTo_symbol flag (r ++ behind) c st hs hx).trans (hscan behind)
    · obtain ⟨c', hscan⟩ := scanTo_left r m (s + 1) x st (.inr (next_skipping hreading hm)) hrest
      rw [← fin_cons s x r] at hscan
      refine ⟨c', fun behind => ?_⟩
      rw [sextets_other r hx.not_symbol]
      have hskip := scanTo_other flag (r ++ behind) c st hs hx
      rw [hm] at hskip
      exact hskip.trans (hscan behind)

end

/-! ## the same, by what stands in the range -/

section
variable (b64 : base64_t) (flag : Nat)

/-- a loop that skips white space goes from one character to the next -/
def Skips (x y : BYTE) : Prop := b64.Other x → b64.Other y → isspace y = true

/-- what the flags say of the characters that are not of the alphabet; where white space is ignored,
the first of several may be any -/
def Passes (l : ByteArray) : Prop :=
  if flag &&& BASE64_IGNORE_NON_ALPHABET ≠ 0 then True
  else if flag &&& BASE64_IGNORE_SPACE ≠ 0 then l.IsChain (Skips b64)
  else ∀ c ∈ l, ¬ b64.Other c

/-- the range ends with a character that is skipped -/
def RunsOff (range : ByteArray) : Prop :=
  range ≠ [] ∧ (∀ c ∈ range, ¬ b64.Closes c) ∧ Passes b64 flag range ∧
    ∀ c ∈ range.getLast?, b64.Other c

variable {b64 flag}

theorem clear_nonAlphabet (hnon : flag &&& BASE64_IGNORE_NON_ALPHABET ≠ 0) :
    ∀ (l : ByteArray) (reading : Reading), reading ≠ .space → Clear b64 flag reading l
  | [], _, _ => trivial
  | x :: l, reading, hreading => by
    have hnext : reading.next flag x = some .nonAlphabet := by
      cases reading with
      | loop => exact if_pos hnon
      | nonAlphabet => rfl
      | space => exact absurd rfl hreading
    rcases b64.kinds x with hx | hx | hx
    · exact .inl hx
    · exact .inr (.inl ⟨hx, clear_nonAlphabet hnon l .loop Reading.noConfusion⟩)
    · exact .inr (.inr ⟨hx, _, hnext, clear_nonAlphabet hnon l .nonAlphabet Reading.noConfusion⟩)

theorem clear_strict (hnon : ¬ flag &&& BASE64_IGNORE_NON_ALPHABET ≠ 0)
    (hspace : ¬ flag &&& BASE64_IGNORE_SPACE ≠ 0) :
    ∀ l : ByteArray, Clear b64 flag .loop l ↔ ∀ c ∈ b64.cut l, ¬ b64.Other c
  | [] => ⟨fun _ => List.forall_mem_nil _, fun _ => trivial⟩
  | x :: l => by
    have ih := clear_strict hnon hspace l
    rcases b64.kinds x with hx | hx | hx
    · rw [cut_closes l hx]
      exact ⟨fun _ => List.forall_mem_nil _, fun _ => .inl hx⟩
    · rw [cut_other l hx.not_closes, List.forall_mem_cons, clear_cons_symbol l hx, ih]
      exact ⟨fun h => ⟨fun hother => hother.not_symbol hx, h⟩, fun h => h.2⟩
    · have hnext : Reading.loop.next flag x = none := by
        rw [Reading.next, if_neg hnon, if_neg hspace]
      rw [cut_other l hx.not_closes, List.forall_mem_cons, clear_cons_other l hx, hnext]
      simp only [reduceCtorEq, false_and, exists_false, hx, not_true]

theorem skips_symbol {x y : BYTE} (hx : b64.Symbol x ∨ b64.Symbol y) : Skips b64 x y := by
  intro hx' hy'
  rcases hx with h | h
  · exact absurd h hx'.not_symbol
  · exact absurd h hy'.not_symbol

/-- `p`, which is not of the alphabet, is in front of what the inner loop reads -/
theorem clear_spaces (hnon : ¬ flag &&& BASE64_IGNORE_NON_ALPHABET ≠ 0)
    (hspace : flag &&& BASE64_IGNORE_SPACE ≠ 0) :
    ∀ l : ByteArray, (Clear b64 flag .loop l ↔ (b64.cut l).IsChain (Skips b64)) ∧
      ∀ p, b64.Other p → (Clear b64 flag .space l ↔ (p :: b64.cut l).IsChain (Skips b64))
  | [] => ⟨⟨fun _ => List.isChain_nil, fun _ => trivial⟩,
      fun p _ => ⟨fun _ => List.isChain_singleton p, fun _ => trivial⟩⟩
  | x :: l => by
    obtain ⟨hloop, hinner⟩ := clear_spaces hnon hspace l
    rcases b64.kinds x with hx | hx | hx
    · rw [cut_closes l hx]
      exact ⟨⟨fun _ => List.isChain_nil, fun _ => .inl hx⟩,
        fun p _ => ⟨fun _ => List.isChain_singleton p, fun _ => .inl hx⟩⟩
    · -- a symbol cuts the chain
      have hcut : (x :: b64.cut l).IsChain (Skips b64) ↔ (b64.cut l).IsChain (Skips b64) := by
        cases b64.cut l with
        | nil => exact ⟨fun _ => List.isChain_nil, fun _ => List.isChain_singleton x⟩
        | cons y l => rw [List.isChain_cons_cons, and_iff_right (skips_symbol (.inl hx))]
      rw [cut_other l hx.not_closes, clear_cons_symbol l hx, hcut]
      refine ⟨hloop, fun p _ => ?_⟩
      rw [clear_cons_symbol l hx, List.isChain_cons_cons,
        and_iff_right (skips_symbol (.inr hx)), hcut]
      exact hloop
    · have hnext : Reading.loop.next flag x = some .space := by
        rw [Reading.next, if_neg hnon, if_pos hspace]
      rw [cut_other l hx.not_closes, clear_cons_other l hx, hnext]
      refine ⟨?_, fun p hp => ?_⟩
      · simp only [Option.some.injEq, exists_eq_left']
        exact hinner x hx
      · rw [clear_cons_other l hx, List.isChain_cons_cons, ← hinner x hx, Reading.next]
        by_cases hx' : isspace x = true
        · have hskips : Skips b64 p x := fun _ _ => hx'
          simp only [if_pos hx', Option.some.injEq, exists_eq_left', hskips, true_and]
        · have hskips : ¬ Skips b64 p x := fun h => hx' (h hp hx)
          simp only [if_neg hx', reduceCtorEq, false_and, exists_false, hskips]

/-- **What does not stop the decoder**, by the flags. -/
theorem clear_iff (l : ByteArray) : Clear b64 flag .loop l ↔ Passes b64 flag (b64.cut l) := by
  unfold Passes
  split
  · rename_i hnon
    exact iff_true_intro (clear_nonAlphabet hnon l .loop Reading.noConfusion)
  · rename_i hnon
    split
    · rename_i hspace
      exact (clear_spaces hnon hspace l).1
    · rename_i hspace
      exact clear_strict hnon hspace l

theorem cut_eq {l : ByteArray} (h : ∀ c ∈ l, ¬ b64.Closes c) : b64.cut l = l :=
  List.takeWhile_eq_self_iff.mpr fun c hc => decide_eq_true (h c hc)

/-- the inner loops go on in themselves -/
theorem next_ne_loop {reading m : Reading} {x : BYTE} (h : reading.next flag x = some m) :
    m ≠ .loop := by
  cases reading with
  | loop =>
    rw [Reading.next] at h
    split at h
    · cases h
      exact Reading.noConfusion
    · cases (Option.ite_none_right_eq_some.mp h).2
      exact Reading.noConfusion
  | nonAlphabet =>
    cases h
    exact Reading.noConfusion
  | space =>
    cases (Option.ite_none_right_eq_some.mp h).2
    exact Reading.noConfusion

theorem leaves_symbol {reading : Reading} {x : BYTE} (r : ByteArray) (hx : b64.Symbol x) :
    Leaves b64 flag reading (x :: r) ↔ Leaves b64 flag .loop r := by
  refine ⟨fun h => ?_, fun h => .inl ⟨hx, h⟩⟩
  rcases h with h | h
  · exact h.2
  · exact absurd hx h.1.not_symbol

theorem leaves_other {reading : Reading} {x : BYTE} (r : ByteArray) (hx : b64.Other x) :
    Leaves b64 flag reading (x :: r) ↔ ∃ m, reading.next flag x = some m ∧ Leaves b64 flag m r := by
  refine ⟨fun h => ?_, fun h => .inr ⟨hx, h⟩⟩
  rcases h with h | h
  · exact absurd h.1 hx.not_symbol
  · exact h.2

theorem leaves_cons : ∀ (r : ByteArray) (x : BYTE) (reading : Reading),
    Leaves b64 flag reading (x :: r) ↔ (∀ c ∈ x :: r, ¬ b64.Closes c) ∧
      Clear b64 flag reading (x :: r) ∧ ∀ c ∈ (x :: r).getLast?, b64.Other c
  | [], x, reading => by
    constructor
    · rintro (⟨_, hloop⟩ | ⟨hx, m, hm, _⟩)
      · exact absurd rfl hloop
      · refine ⟨List.forall_mem_singleton.mpr hx.not_closes,
          (clear_cons_other [] hx).mpr ⟨m, hm, trivial⟩, fun c hc => ?_⟩
        cases hc
        exact hx
    · rintro ⟨_, hclear, hlast⟩
      have hx := hlast x rfl
      obtain ⟨m, hm, _⟩ := (clear_cons_other [] hx).mp hclear
      exact .inr ⟨hx, m, hm, next_ne_loop hm⟩
  | y :: r, x, reading => by
    have ih := fun m => leaves_cons r y m
    rw [List.forall_mem_cons, List.getLast?_cons_cons]
    rcases b64.kinds x with hx | hx | hx
    · refine ⟨fun h => ?_, fun h => absurd hx h.1.1⟩
      rcases h with h | h
      · exact absurd hx h.1.not_closes
      · exact absurd hx h.1.not_closes
    · rw [leaves_symbol _ hx, clear_cons_symbol _ hx, ih, and_iff_right hx.not_closes]
    · rw [leaves_other _ hx, clear_cons_other _ hx, and_iff_right hx.not_closes]
      constructor
      · rintro ⟨m, hm, h⟩
        obtain ⟨hclosed, hclear, hlast⟩ := (ih m).mp h
        exact ⟨hclosed, ⟨m, hm, hclear⟩, hlast⟩
      · rintro ⟨hclosed, ⟨m, hm, hclear⟩, hlast⟩
        exact ⟨m, hm, (ih m).mpr ⟨hclosed, hclear, hlast⟩⟩

/-- **Which ranges are left.** -/
theorem leaves_iff (r : ByteArray) : Leaves b64 flag .loop r ↔ RunsOff b64 flag r := by
  cases r with
  | nil => exact ⟨fun h => absurd rfl h, fun h => absurd rfl h.1⟩
  | cons x r =>
    rw [leaves_cons, RunsOff, and_iff_right (List.cons_ne_nil x r)]
    refine and_congr_right fun hclosed => ?_
    rw [clear_iff, cut_eq hclosed]

end

end Netwb
