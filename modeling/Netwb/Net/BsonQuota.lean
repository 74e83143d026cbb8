import Netwb.Lib.JsonText
import Netwb.Net.Strings

/-!
# Quotes for bson keys

`bsonAddQuota` of `net/strings.cpp` puts a key between quotes when a space stands in front of it and
a colon behind.  It changes the string while it looks through it.

A space qualifies in a string (`Qualifies`) by what stands between it and the colon.  `Quoted` says
what the whole pass makes of a string: nothing of what it inserts is looked at again
(`bsonLoop_quoted`), and nothing of it makes a space qualify (`Quoted.again`).

* `bsonAddQuota_inserts`   the pass inserts a quote behind every space that qualifies and one in
                           front of its colon, and a second pass changes nothing;
* `bsonAddQuota_json_iff`  so a JSON text is left alone exactly if no space of it qualifies, which
                           is so if no string holds a colon and only spaces stand between a name and
                           its colon (`json_guarded`).
-/

namespace Netwb
open Wire Machine Search

def SPACE : BYTE := 0x20
def COLON : BYTE := 0x3a

/-- the test in the loop of `bsonAddQuota`, and the colon -/
def quotaColon (str : ByteArray) (posSpace : Nat) : Option Nat :=
  let posNextSpace := find [SPACE] str (posSpace + 1)
  let posNextColon := find [COLON] str (posSpace + 1)
  posNextColon.filter fun posNextColon =>
    posNextColon - posSpace > 1 &&
      (posSpace = str.length - 1 || str[posSpace + 1]? ≠ some QUOTE) &&
      str[posNextColon - 1]? ≠ some QUOTE &&
      posNextSpace.all fun posNextSpace => posNextSpace > posNextColon

/-- `str.replace(i, n, s)` -/
def replaceAt (str : ByteArray) (i n : Nat) (s : ByteArray) : ByteArray :=
  str.take i ++ s ++ str.drop (i + n)

/-- the loop of `bsonAddQuota` -/
def bsonLoop : Nat → ByteArray → Nat → Option ByteArray
  | 0, _, _ => none
  | fuel + 1, str, posSpace =>
    match find [SPACE] str posSpace with
    | none => some str
    | some posSpace =>
      match quotaColon str posSpace with
      | some posNextColon =>
        let i := posSpace + 1
        let n := posNextColon - posSpace - 1
        bsonLoop fuel (replaceAt str i n ([QUOTE] ++ substr str i n ++ [QUOTE])) (posSpace + (n + 2))
      | none => bsonLoop fuel str (posSpace + 1)

/-- `bsonAddQuota(str)`: `str` behind it -/
def bsonAddQuota (str : ByteArray) (fuel : Nat) : Option ByteArray := bsonLoop fuel str 0

/-! ## the spaces that qualify -/

/-- a key that is put between quotes -/
structure Key (k : ByteArray) : Prop where
  ne_nil : k ≠ []
  no_space : SPACE ∉ k
  no_colon : COLON ∉ k
  head : k.head? ≠ some QUOTE
  last : k.getLast? ≠ some QUOTE

/-- the space at `p` qualifies, with the colon at `c`: at least one character and no space stands
between them, and no quote behind the space or in front of the colon -/
def Qualifies (s : ByteArray) (p c : Nat) : Prop :=
  ∃ front k rest, s = front ++ SPACE :: (k ++ COLON :: rest) ∧ Key k ∧ p = front.length ∧
    c = front.length + 1 + k.length

/-- the places where a quote is missing: behind a space that qualifies, and in front of its colon -/
def Missing (s : ByteArray) (i : Nat) : Prop := ∃ p c, Qualifies s p c ∧ (i = p + 1 ∨ i = c)

/-- what the pass makes of a string -/
inductive Quoted : ByteArray → ByteArray → Prop
  | nil : Quoted [] []
  | other {c : BYTE} {s r : ByteArray} (hc : c ≠ SPACE) (h : Quoted s r) : Quoted (c :: s) (c :: r)
  | space {s r : ByteArray} (hno : ∀ k rest, s = k ++ COLON :: rest → ¬ Key k) (h : Quoted s r) :
      Quoted (SPACE :: s) (SPACE :: r)
  | key {k s r : ByteArray} (hk : Key k) (h : Quoted s r) :
      Quoted (SPACE :: (k ++ COLON :: s)) (SPACE :: QUOTE :: (k ++ QUOTE :: COLON :: r))

theorem quoted_exists (n : Nat) : ∀ s : ByteArray, s.length ≤ n → ∃ r, Quoted s r := by
  induction n with
  | zero =>
    intro s hs
    rw [List.eq_nil_of_length_eq_zero (by omega : s.length = 0)]
    exact ⟨[], .nil⟩
  | succ n ih =>
    intro s hs
    cases s with
    | nil => exact ⟨[], .nil⟩
    | cons c s =>
      rw [List.length_cons] at hs
      by_cases hc : c = SPACE
      · subst hc
        by_cases hkey : ∃ k rest, s = k ++ COLON :: rest ∧ Key k
        · obtain ⟨k, rest, rfl, hk⟩ := hkey
          rw [List.length_append, List.length_cons] at hs
          obtain ⟨r, hr⟩ := ih rest (by omega)
          exact ⟨_, .key hk hr⟩
        · obtain ⟨r, hr⟩ := ih s (by omega)
          exact ⟨_, .space (fun k rest he hk => hkey ⟨k, rest, he, hk⟩) hr⟩
      · obtain ⟨r, hr⟩ := ih s (by omega)
        exact ⟨_, .other hc hr⟩

/-! ## a second pass -/

/-- a run without spaces is kept, whatever stands behind it -/
theorem Quoted.run {r : ByteArray} (a : ByteArray) (ha : SPACE ∉ a) :
    ∀ {s : ByteArray}, Quoted s (a ++ r) → ∃ s', s = a ++ s' ∧ Quoted s' r := by
  induction a with
  | nil => exact fun h => ⟨_, rfl, h⟩
  | cons x a ih =>
    intro s h
    rw [List.mem_cons, not_or] at ha
    generalize hr : x :: a ++ r = r' at h
    cases h with
    | nil => cases hr
    | other hc h =>
      injection hr with hx hr
      obtain ⟨s', rfl, hs'⟩ := ih ha.2 (hr ▸ h)
      exact ⟨s', by rw [hx]; rfl, hs'⟩
    | space hno h =>
      injection hr with hx hr
      exact absurd hx.symm ha.1
    | key hk h =>
      injection hr with hx hr
      exact absurd hx.symm ha.1

theorem Quoted.others {s r : ByteArray} (h : Quoted s r) (a : ByteArray) (ha : SPACE ∉ a) :
    Quoted (a ++ s) (a ++ r) := by
  induction a with
  | nil => exact h
  | cons x a ih =>
    rw [List.mem_cons, not_or] at ha
    exact .other (Ne.symm ha.1) (ih ha.2)

/-- **No inserted quote makes a space qualify.** -/
theorem Quoted.again {s r : ByteArray} (h : Quoted s r) : Quoted r r := by
  induction h with
  | nil => exact .nil
  | other hc h ih => exact .other hc ih
  | @space s r hno h ih =>
    refine .space (fun k rest he hk => ?_) ih
    have hrun : SPACE ∉ k ++ [COLON] := by
      rw [List.mem_append, not_or, List.mem_singleton]
      exact ⟨hk.no_space, by decide⟩
    have hr : r = (k ++ [COLON]) ++ rest := by
      rw [he, List.append_assoc]
      rfl
    obtain ⟨s', hs', -⟩ := Quoted.run _ hrun (hr ▸ h)
    exact hno k s' (by rw [hs', List.append_assoc]; rfl) hk
  | @key k s r hk h ih =>
    refine .space (fun k' rest he hk' => ?_) ?_
    · cases k' with
      | nil => exact hk'.ne_nil rfl
      | cons x k' =>
        injection he with hx he
        exact hk'.head (by rw [← hx]; rfl)
    · refine .other (by decide) ?_
      refine Quoted.others (.other (by decide) (.other (by decide) ih)) k hk.no_space

/-! ## the test in the loop -/

section
variable {front s : ByteArray}

/-- a string from behind a space on -/
theorem behind_space (j : Nat) : (front ++ SPACE :: s)[front.length + 1 + j]? = s[j]? := by
  rw [Nat.add_assoc, List.getElem?_append_right (by omega), Nat.add_sub_cancel_left, Nat.add_comm 1,
    List.getElem?_cons_succ]

theorem absent_behind {x : BYTE} {n : Nat} :
    (∀ j, front.length + 1 ≤ j → j < front.length + 1 + n → (front ++ SPACE :: s)[j]? ≠ some x) ↔
      x ∉ s.take n := by
  constructor
  · intro h hmem
    obtain ⟨j, hj, hjs⟩ := List.mem_take_iff_getElem.mp hmem
    refine h (front.length + 1 + j) (by omega) (by omega) ?_
    rw [behind_space, ← hjs]
    exact List.getElem?_eq_getElem _
  · intro hn j hge hlt hj
    obtain ⟨m, rfl⟩ : ∃ m, j = front.length + 1 + m := ⟨j - (front.length + 1), by omega⟩
    rw [behind_space, ← List.getElem?_take_of_lt (show m < n by omega)] at hj
    exact hn (List.mem_of_getElem? hj)

/-- **The loop tests whether the characters up to the colon are a key.** -/
theorem quotaColon_at (n : Nat) :
    quotaColon (front ++ SPACE :: s) front.length = some (front.length + 1 + n) ↔
      s[n]? = some COLON ∧ Key (s.take n) := by
  rw [quotaColon, Option.filter_eq_some_iff, find_single]
  simp only [Bool.and_eq_true, Bool.or_eq_true, decide_eq_true_eq, gt_iff_lt, find_single_behind,
    absent_behind, behind_space]
  constructor
  · rintro ⟨⟨-, hc, hcolon⟩, ⟨⟨hfar, hhead⟩, hlast⟩, hspace⟩
    obtain ⟨hn, -⟩ := List.getElem?_eq_some_iff.mp hc
    have hlen : (s.take n).length = n := by
      rw [List.length_take]
      omega
    refine ⟨hc, List.ne_nil_of_length_pos (by omega), ?_, hcolon, ?_, ?_⟩
    · exact absent_behind.mp fun j hge hlt => hspace j hge (Nat.le_of_lt hlt)
    · rw [List.head?_eq_getElem?, List.getElem?_take_of_lt (by omega), ← @behind_space front]
      refine hhead.resolve_left fun he => ?_
      rw [List.length_append, List.length_cons] at he
      omega
    · rw [List.getLast?_eq_getElem?, hlen, List.getElem?_take_of_lt (by omega),
        ← @behind_space front]
      have he : front.length + 1 + (n - 1) = front.length + 1 + n - 1 := by omega
      rw [he]
      exact hlast
  · rintro ⟨hc, hk⟩
    obtain ⟨hn, -⟩ := List.getElem?_eq_some_iff.mp hc
    have hlen : (s.take n).length = n := by
      rw [List.length_take]
      omega
    have hpos : 0 < n := hlen ▸ List.length_pos_of_ne_nil hk.ne_nil
    refine ⟨⟨by omega, hc, hk.no_colon⟩, ⟨⟨by omega, .inr ?_⟩, ?_⟩, fun j hge hle => ?_⟩
    · have hhead := hk.head
      rw [List.head?_eq_getElem?, List.getElem?_take_of_lt hpos, ← @behind_space front] at hhead
      exact hhead
    · have hlast := hk.last
      rw [List.getLast?_eq_getElem?, hlen, List.getElem?_take_of_lt (by omega),
        ← @behind_space front] at hlast
      have he : front.length + 1 + n - 1 = front.length + 1 + (n - 1) := by omega
      rw [he]
      exact hlast
    · rcases Nat.lt_or_eq_of_le hle with hlt | rfl
      · exact absent_behind.mpr hk.no_space j hge hlt
      · rw [behind_space, hc]
        decide

theorem quotaColon_some {c : Nat} : quotaColon (front ++ SPACE :: s) front.length = some c ↔
    ∃ k rest, s = k ++ COLON :: rest ∧ Key k ∧ c = front.length + 1 + k.length := by
  constructor
  · intro h
    have hge : front.length + 1 ≤ c := (find_single.mp (Option.filter_eq_some_iff.mp h).1).1
    obtain ⟨n, rfl⟩ : ∃ n, c = front.length + 1 + n := ⟨c - (front.length + 1), by omega⟩
    obtain ⟨hc, hk⟩ := (quotaColon_at n).mp h
    obtain ⟨hn, hget⟩ := List.getElem?_eq_some_iff.mp hc
    refine ⟨s.take n, s.drop (n + 1), ?_, hk, ?_⟩
    · rw [← hget, List.getElem_cons_drop, List.take_append_drop]
    · rw [List.length_take, Nat.min_eq_left (Nat.le_of_lt hn)]
  · rintro ⟨k, rest, rfl, hk, rfl⟩
    refine (quotaColon_at k.length).mpr ⟨?_, ?_⟩
    · exact at_front k rest COLON
    · rw [List.take_left]
      exact hk

/-! ## the pass -/

theorem bsonLoop_skip {str : ByteArray} {pos : Nat} (h : str[pos]? ≠ some SPACE) (fuel : Nat) :
    bsonLoop fuel str pos = bsonLoop fuel str (pos + 1) := by
  cases fuel with
  | zero => rfl
  | succ fuel => rw [bsonLoop, bsonLoop, find_single_skip h]

theorem bsonLoop_other {c : BYTE} (hc : c ≠ SPACE) (fuel : Nat) :
    bsonLoop fuel (front ++ c :: s) front.length
      = bsonLoop fuel ((front ++ [c]) ++ s) (front ++ [c]).length := by
  have hget : (front ++ c :: s)[front.length]? ≠ some SPACE := by
    rw [at_front]
    exact fun h => hc (Option.some.inj h)
  rw [bsonLoop_skip hget, List.append_assoc, List.length_append]
  rfl

theorem find_space : find [SPACE] (front ++ SPACE :: s) front.length = some front.length := by
  exact find_single.mpr ⟨Nat.le_refl _, at_front front s SPACE, fun j hge hlt => by omega⟩

/-- what the replacement makes of the string -/
theorem replaceAt_key (k : ByteArray) :
    replaceAt (front ++ SPACE :: (k ++ s)) (front.length + 1) k.length
        ([QUOTE] ++ substr (front ++ SPACE :: (k ++ s)) (front.length + 1) k.length ++ [QUOTE])
      = (front ++ SPACE :: QUOTE :: k) ++ QUOTE :: s := by
  have hsplit : front ++ SPACE :: (k ++ s) = (front ++ [SPACE]) ++ (k ++ s) := by
    rw [List.append_assoc]
    rfl
  have hlen : (front ++ [SPACE]).length = front.length + 1 := by
    rw [List.length_append]
    rfl
  rw [replaceAt, substr, hsplit, ← hlen, List.take_left, ← List.drop_drop, List.drop_left,
    List.take_left, List.drop_left]
  simp

/-- **The pass makes of a string what `Quoted` says**, from any position that it has come to. -/
theorem bsonLoop_quoted {s r : ByteArray} (h : Quoted s r) : ∀ (front : ByteArray) (fuel : Nat),
    s.length < fuel → bsonLoop fuel (front ++ s) front.length = some (front ++ r) := by
  induction h with
  | nil =>
    intro front fuel hf
    obtain ⟨fuel, rfl⟩ : ∃ n, fuel = n + 1 := ⟨fuel - 1, by omega⟩
    have hnone : find [SPACE] (front ++ []) front.length = none := by
      refine find_single_none.mpr fun i hge hi => ?_
      rw [List.append_nil, List.getElem?_eq_none hge] at hi
      cases hi
    rw [bsonLoop, hnone]
  | @other c s r hc h ih =>
    intro front fuel hf
    rw [List.length_cons] at hf
    rw [bsonLoop_other hc, ih _ fuel (by omega), List.append_assoc]
    rfl
  | @space s r hno h ih =>
    intro front fuel hf
    rw [List.length_cons] at hf
    obtain ⟨fuel, rfl⟩ : ∃ n, fuel = n + 1 := ⟨fuel - 1, by omega⟩
    have hnone : quotaColon (front ++ SPACE :: s) front.length = none := by
      rw [Option.eq_none_iff_forall_ne_some]
      intro c hc
      obtain ⟨k, rest, he, hk, -⟩ := quotaColon_some.mp hc
      exact hno k rest he hk
    have hih := ih (front ++ [SPACE]) fuel (by omega)
    rw [List.append_assoc, List.append_assoc, List.length_append] at hih
    rw [bsonLoop, find_space]
    dsimp only
    rw [hnone]
    exact hih
  | @key k s r hk h ih =>
    intro front fuel hf
    rw [List.length_cons, List.length_append, List.length_cons] at hf
    obtain ⟨fuel, rfl⟩ : ∃ n, fuel = n + 1 := ⟨fuel - 1, by omega⟩
    have hsome : quotaColon (front ++ SPACE :: (k ++ COLON :: s)) front.length
        = some (front.length + 1 + k.length) := quotaColon_some.mpr ⟨k, s, rfl, hk, rfl⟩
    have hn : front.length + 1 + k.length - front.length - 1 = k.length := by omega
    have hpos : front.length + (k.length + 2) = (front ++ SPACE :: QUOTE :: k).length := by
      rw [List.length_append, List.length_cons, List.length_cons]
    rw [bsonLoop, find_space]
    dsimp only
    rw [hsome]
    dsimp only
    rw [hn, replaceAt_key, hpos, bsonLoop_other (by decide), bsonLoop_other (by decide),
      ih _ fuel (by omega)]
    simp

theorem bsonAddQuota_quoted {r : ByteArray} (h : Quoted s r) : Comes (bsonAddQuota s) r :=
  ⟨s.length + 1, fun fuel hf => bsonLoop_quoted h [] fuel (by omega)⟩

end

/-! ## what is inserted -/

section
variable {s front t : ByteArray} {p c : Nat}

theorem Qualifies.places (h : Qualifies s p c) :
    s[p]? = some SPACE ∧ s[c]? = some COLON ∧ p + 1 < c := by
  obtain ⟨front, k, rest, rfl, hk, rfl, rfl⟩ := h
  have hpos := List.length_pos_of_ne_nil hk.ne_nil
  refine ⟨at_front _ _ _, ?_, by omega⟩
  rw [behind_space, at_front]

/-- whether a space qualifies is seen from what stands behind it -/
theorem qualifies_behind : Qualifies (front ++ SPACE :: t) front.length c ↔
    ∃ k rest, t = k ++ COLON :: rest ∧ Key k ∧ c = front.length + 1 + k.length := by
  constructor
  · rintro ⟨front', k, rest, he, hk, hlen, rfl⟩
    obtain ⟨-, ht⟩ := List.append_inj he hlen
    injection ht with _ ht
    exact ⟨k, rest, ht, hk, by rw [hlen]⟩
  · rintro ⟨k, rest, rfl, hk, rfl⟩
    exact ⟨front, k, rest, rfl, hk, rfl, rfl⟩

theorem key_unique {k k' rest rest' : ByteArray} (he : k ++ COLON :: rest = k' ++ COLON :: rest')
    (hk : COLON ∉ k) (hk' : COLON ∉ k') : k = k' := by
  have hno : ∀ {a r : ByteArray}, COLON ∉ a → ∀ i < a.length, ¬ [COLON] <+: (a ++ ([COLON] ++ r)).drop i := by
    intro a r ha i hi hp
    rw [single_stands, List.getElem?_append_left hi] at hp
    exact ha (List.mem_of_getElem? hp)
  have he' : k ++ ([COLON] ++ rest) = k' ++ ([COLON] ++ rest') := he
  exact (first_unique he' (hno hk) (hno hk')).1

/-- no key reaches over the position `n` -/
def Closed (s : ByteArray) (n : Nat) : Prop := ∀ p c, Qualifies s p c → p < n → c < n

theorem Closed.not_missing {n : Nat} (h : Closed s n) : ¬ Missing s n := by
  rintro ⟨p, c, hq, rfl | rfl⟩
  · have := h p c hq (Nat.lt_succ_self p)
    have := hq.places.2.2
    omega
  · have := hq.places.2.2
    exact Nat.lt_irrefl _ (h p _ hq (by omega))

/-- a character from which no key begins -/
theorem Closed.succ {n : Nat} (h : Closed s n) (hn : ∀ c, ¬ Qualifies s n c) : Closed s (n + 1) := by
  intro p c hq hlt
  rcases Nat.lt_or_ge p n with hp | hp
  · exact Nat.lt_succ_of_lt (h p c hq hp)
  · have he : p = n := by omega
    exact absurd (he ▸ hq) (hn c)

/-- a key that begins at a space ends at its colon -/
theorem Closed.key {k rest : ByteArray} (h : Closed (front ++ SPACE :: (k ++ COLON :: rest)) front.length)
    (hk : Key k) : Closed (front ++ SPACE :: (k ++ COLON :: rest)) (front.length + 1 + k.length + 1) := by
  intro p c hq hlt
  rcases Nat.lt_trichotomy p front.length with hp | hp | hp
  · have := h p c hq hp
    omega
  · subst hp
    obtain ⟨k', rest', he, hk', rfl⟩ := qualifies_behind.mp hq
    rw [key_unique he hk.no_colon hk'.no_colon]
    exact Nat.lt_succ_self _
  · obtain ⟨m, rfl⟩ : ∃ m, p = front.length + 1 + m := ⟨p - (front.length + 1), by omega⟩
    have hspace := hq.places.1
    rw [behind_space] at hspace
    rcases Nat.lt_or_ge m k.length with hm | hm
    · rw [List.getElem?_append_left hm] at hspace
      exact absurd (List.mem_of_getElem? hspace) hk.no_space
    · have he : m = k.length := by omega
      rw [he, at_front] at hspace
      exact absurd hspace (by decide)

/-- inside a key no quote is missing -/
theorem not_missing_key {k rest : ByteArray} (hk : Key k) {i : Nat}
    (hge : front.length + 2 ≤ i) (hlt : i < front.length + 1 + k.length) :
    ¬ Missing (front ++ SPACE :: (k ++ COLON :: rest)) i := by
  have hget : ∀ m, m < k.length →
      (front ++ SPACE :: (k ++ COLON :: rest))[front.length + 1 + m]? = k[m]? := by
    intro m hm
    rw [behind_space, List.getElem?_append_left hm]
  rintro ⟨p, c, hq, rfl | rfl⟩
  · obtain ⟨m, rfl⟩ : ∃ m, p = front.length + 1 + m := ⟨p - (front.length + 1), by omega⟩
    have hspace := hq.places.1
    rw [hget m (by omega)] at hspace
    exact hk.no_space (List.mem_of_getElem? hspace)
  · obtain ⟨m, rfl⟩ : ∃ m, i = front.length + 1 + m := ⟨i - (front.length + 1), by omega⟩
    have hcolon := hq.places.2.1
    rw [hget m (by omega)] at hcolon
    exact hk.no_colon (List.mem_of_getElem? hcolon)

end

/-- **The pass inserts the quotes that are missing**, from any position that no key reaches over. -/
theorem Quoted.inserted {t r : ByteArray} (h : Quoted t r) : ∀ (front : ByteArray) {s : ByteArray},
    s = front ++ t → Closed s front.length → Inserted (Missing s) QUOTE front.length t r := by
  induction h with
  | nil => exact fun _ _ _ _ => .nil _
  | @other c t r hc h ih =>
    rintro front s rfl hclosed
    have hstep : Closed (front ++ c :: t) (front ++ [c]).length := by
      rw [List.length_append]
      refine hclosed.succ fun c' hq => ?_
      have hspace := hq.places.1
      rw [at_front] at hspace
      exact hc (Option.some.inj hspace)
    have hrest := ih (front ++ [c]) (by rw [List.append_assoc]; rfl) hstep
    rw [List.length_append] at hrest
    exact .keep hclosed.not_missing hrest
  | @space t r hno h ih =>
    rintro front s rfl hclosed
    have hstep : Closed (front ++ SPACE :: t) (front ++ [SPACE]).length := by
      rw [List.length_append]
      refine hclosed.succ fun c' hq => ?_
      obtain ⟨k, rest, he, hk, -⟩ := qualifies_behind.mp hq
      exact hno k rest he hk
    have hrest := ih (front ++ [SPACE]) (by rw [List.append_assoc]; rfl) hstep
    rw [List.length_append] at hrest
    exact .keep hclosed.not_missing hrest
  | @key k t r hk h ih =>
    rintro front s rfl hclosed
    have hq : Qualifies (front ++ SPACE :: (k ++ COLON :: t)) front.length
        (front.length + 1 + k.length) := qualifies_behind.mpr ⟨k, t, rfl, hk, rfl⟩
    have hinside : ∀ i, front.length + 2 ≤ i → i < front.length + 1 + k.length →
        ¬ Missing (front ++ SPACE :: (k ++ COLON :: t)) i := fun i hge hlt =>
      not_missing_key hk hge hlt
    have hlen : (front ++ SPACE :: (k ++ [COLON])).length = front.length + 1 + k.length + 1 := by
      rw [List.length_append, List.length_cons, List.length_append, List.length_singleton]
      omega
    have hrest := @ih (front ++ SPACE :: (k ++ [COLON])) (front ++ SPACE :: (k ++ COLON :: t))
      (by simp) (by rw [hlen]; exact hclosed.key hk)
    rw [hlen] at hrest
    cases k with
    | nil => exact absurd rfl hk.ne_nil
    | cons x k =>
      rw [List.length_cons] at hq hinside hrest
      refine .keep hclosed.not_missing (.mark ⟨_, _, hq, .inl rfl⟩ ?_)
      refine Inserted.keeps k (fun i hge hlt => hinside i hge (by omega)) (.mark ⟨_, _, hq, .inr ?_⟩ ?_)
      · omega
      · have he : front.length + 1 + (k.length + 1) + 1 = front.length + 1 + 1 + k.length + 1 := by omega
        rw [← he]
        exact hrest

theorem quoted_inserted {s r : ByteArray} (h : Quoted s r) : Inserted (Missing s) QUOTE 0 s r :=
  h.inserted [] rfl fun _ _ _ hlt => absurd hlt (Nat.not_lt_zero _)

/-- **`bsonAddQuota` terminates, inserts a quote behind each space that qualifies and in front of
its colon, and does nothing when it is applied again.** -/
theorem bsonAddQuota_inserts (s : ByteArray) : ∃ r, Comes (bsonAddQuota s) r ∧
    Inserted (Missing s) QUOTE 0 s r ∧ Comes (bsonAddQuota r) r := by
  obtain ⟨r, h⟩ := quoted_exists s.length s (Nat.le_refl _)
  exact ⟨r, bsonAddQuota_quoted h, quoted_inserted h, bsonAddQuota_quoted h.again⟩

/-- a key of two letters behind a brace and a space -/
example : bsonAddQuota [0x7b, 0x20, 0x69, 0x64, 0x3a, 0x31, 0x7d] 8
    = some [0x7b, 0x20, 0x22, 0x69, 0x64, 0x22, 0x3a, 0x31, 0x7d] := by decide

/-! ## texts that are left alone -/

/-- **A string is left alone exactly if no space of it qualifies.** -/
theorem bsonAddQuota_same_iff (s : ByteArray) :
    Comes (bsonAddQuota s) s ↔ ∀ p c, ¬ Qualifies s p c := by
  obtain ⟨r, h⟩ := quoted_exists s.length s (Nat.le_refl _)
  have hsame := (quoted_inserted h).same_iff.2
  have hcomes := bsonAddQuota_quoted h
  constructor
  · intro hs p c hq
    have hmissing := hsame.mp (hcomes.unique hs)
    obtain ⟨hlt, -⟩ := List.getElem?_eq_some_iff.mp hq.places.2.1
    exact hmissing c (Nat.zero_le c) (by omega) ⟨p, c, hq, .inr rfl⟩
  · intro hno
    have hr : r = s := hsame.mpr fun i _ _ hm => by
      obtain ⟨p, c, hq, -⟩ := hm
      exact hno p c hq
    rwa [hr] at hcomes

/-- a space that qualifies has a colon that is neither behind a quote nor behind a space -/
theorem Qualifies.not_guarded {s : ByteArray} {p c : Nat} (h : Qualifies s p c) :
    ¬ JsonText.Guarded s := by
  intro hg
  obtain ⟨j, hj, hbefore⟩ := hg c h.places.2.1
  obtain ⟨front, k, rest, rfl, hk, rfl, rfl⟩ := h
  have hpos := List.length_pos_of_ne_nil hk.ne_nil
  have he : j = front.length + 1 + (k.length - 1) := by omega
  have hlast : (front ++ SPACE :: (k ++ COLON :: rest))[j]? = k.getLast? := by
    rw [he, behind_space, List.getElem?_append_left (by omega), List.getLast?_eq_getElem?]
  rw [hlast] at hbefore
  rcases hbefore with hq | hsp
  · exact hk.last hq
  · exact hk.no_space (List.mem_of_getLast? hsp)

/-- **A JSON text whose strings hold no colon, and that has only spaces between a name and its
colon, is left alone.** -/
theorem json_guarded {kind : JsonText.Kind} {s : ByteArray} (h : JsonText.Syntax
    (fun s => COLON ∉ s) (fun b => ∀ c ∈ b, c = SPACE) kind s) : Comes (bsonAddQuota s) s :=
  (bsonAddQuota_same_iff s).mpr fun _ _ hq => hq.not_guarded h.guarded

/-- **A JSON text is left alone exactly if no space of it qualifies.** -/
theorem bsonAddQuota_json_iff (t : JsonText.Text) :
    Comes (bsonAddQuota t.text) t.text ↔ ∀ p c, ¬ Qualifies t.text p c :=
  bsonAddQuota_same_iff t.text

/-- `{"a":"b c:d"}` -/
def textOfColon : JsonText.Text where
  text := [0x7b, 0x22, 0x61, 0x22, 0x3a, 0x22, 0x62, 0x20, 0x63, 0x3a, 0x64, 0x22, 0x7d]
  wf := by
    have hname : JsonText.Chars [0x61] := .plain rfl .nil
    have hcontent : JsonText.Chars [0x62, 0x20, 0x63, 0x3a, 0x64] :=
      .plain rfl (.plain rfl (.plain rfl (.plain rfl (.plain rfl .nil))))
    have hwhite : JsonText.White [] := nofun
    exact .padded hwhite (.object (.oneMember (.member hwhite hname trivial hwhite trivial
      (.padded hwhite (.string hcontent trivial) hwhite)))) hwhite

/-- the space in the string and the colon behind it: `c` is put between quotes, which end the string
in front of it and begin another behind it -/
theorem bsonAddQuota_splits_string :
    bsonAddQuota textOfColon.text 14 = some
      [0x7b, 0x22, 0x61, 0x22, 0x3a, 0x22, 0x62, 0x20, 0x22, 0x63, 0x22, 0x3a, 0x64, 0x22, 0x7d] ∧
      ¬ Comes (bsonAddQuota textOfColon.text) textOfColon.text := by
  refine ⟨by decide, fun h => ?_⟩
  refine (bsonAddQuota_same_iff _).mp h 7 9 ⟨[0x7b, 0x22, 0x61, 0x22, 0x3a, 0x22, 0x62], [0x63],
    [0x64, 0x22, 0x7d], rfl, ⟨?_, ?_, ?_, ?_, ?_⟩, rfl, rfl⟩ <;> decide

end Netwb
