import Netwb.Lib.Run
import Netwb.Lib.Search
import Netwb.Net.Package

/-!
# Text helpers

`string_replace` and `fixSqlString` of `net/strings.cpp`.  A `std::string` is its bytes; a position
is the number of bytes before it, and `find` answers `npos` by none.

* `string_replace_iff`   the loop comes back exactly if the pattern is not empty, and then with the
                         pieces between the occurrences joined by the replacement;
* `fixSqlString_iff`     the escaped text reads back as the text exactly if this has no backslash.
-/

namespace Netwb
open Wire Machine Search

/-! ## `string_replace` -/

/-- `s.substr(pos, n)`, for a position in the string -/
def substr (s : ByteArray) (pos n : Nat) : ByteArray := (s.drop pos).take n

/-- `s.find(c, pos)` for a character -/
def findChar (c : BYTE) (s : ByteArray) (pos : Nat) : Option Nat :=
  (List.range' pos (s.length - pos)).find? fun i => decide (s[i]? = some c)

section
variable (strBig strsrc : ByteArray) (c : BYTE) (strdst : ByteArray)

/-- the loop of `string_replace`, and what is streamed behind it -/
def replaceLoop : Nat → (pos last_pos : Nat) → (ss : ByteArray) → Option ByteArray
  | 0, _, _, _ => none
  | fuel + 1, pos, last_pos, ss =>
    match find strsrc strBig pos with
    | none => some (ss ++ substr strBig last_pos (strBig.length - last_pos))
    | some pos =>
      let ss := ss ++ substr strBig last_pos (pos - last_pos) ++ strdst
      let pos := pos + strsrc.length
      let last_pos := pos
      replaceLoop fuel pos last_pos ss

/-- `string_replace(strBig, strsrc, strdst)`: `strBig` behind it -/
def string_replace (fuel : Nat) : Option ByteArray := replaceLoop strBig strsrc strdst fuel 0 0 []

/-- the loop of the overload for a character -/
def replaceCharLoop : Nat → (pos last_pos : Nat) → (ss : ByteArray) → Option ByteArray
  | 0, _, _, _ => none
  | fuel + 1, pos, last_pos, ss =>
    match findChar c strBig pos with
    | none => some (ss ++ substr strBig last_pos (strBig.length - last_pos))
    | some pos =>
      let ss := ss ++ substr strBig last_pos (pos - last_pos) ++ strdst
      let pos := pos + 1
      let last_pos := pos
      replaceCharLoop fuel pos last_pos ss

/-- `string_replace(strBig, c, strdst)` -/
def string_replaceChar (fuel : Nat) : Option ByteArray :=
  replaceCharLoop strBig c strdst fuel 0 0 []

/-! ### the loop finds the pieces -/

variable {strBig strsrc c strdst}

theorem substr_rest (pos : Nat) : substr strBig pos (strBig.length - pos) = strBig.drop pos := by
  rw [substr, List.take_of_length_le (by rw [List.length_drop])]

/-- **From a position on, the loop streams the pieces that are left, joined by the replacement.** -/
theorem replaceLoop_pieces {s : ByteArray} {ps : List ByteArray} (h : Pieces strsrc s ps) :
    ∀ (pos fuel : Nat) (ss : ByteArray), pos ≤ strBig.length → strBig.drop pos = s →
      ps.length ≤ fuel →
      replaceLoop strBig strsrc strdst fuel pos pos ss = some (ss ++ strdst.intercalate ps) := by
  induction h with
  | @last s hno =>
    intro pos fuel ss hpos hs hfuel
    obtain ⟨fuel, rfl⟩ : ∃ n, fuel = n + 1 := ⟨fuel - 1, by simp at hfuel; omega⟩
    have hnone : find strsrc strBig pos = none := by
      refine find_eq_none.mpr fun i hge hle hp => hno (i - pos) ?_ ?_
      · rw [← hs, List.length_drop]
        omega
      · rwa [← hs, List.drop_drop, Nat.add_sub_cancel' hge]
    rw [replaceLoop, hnone]
    dsimp only
    rw [substr_rest, hs, List.intercalate_singleton]
  | @next p rest ps hno h ih =>
    intro pos fuel ss hpos hs hfuel
    rw [List.length_cons] at hfuel
    obtain ⟨fuel, rfl⟩ : ∃ n, fuel = n + 1 := ⟨fuel - 1, by omega⟩
    have hlen : strBig.length - pos = p.length + (strsrc.length + rest.length) := by
      rw [← List.length_drop, hs, List.length_append, List.length_append]
    have hsome : find strsrc strBig pos = some (pos + p.length) := by
      refine find_eq_some.mpr ⟨by omega, by omega, ?_, fun j hge hlt hp => hno (j - pos) (by omega) ?_⟩
      · rw [← List.drop_drop, hs, List.drop_left]
        exact List.prefix_append _ _
      · rwa [← hs, List.drop_drop, Nat.add_sub_cancel' hge]
    have hpiece : substr strBig pos (pos + p.length - pos) = p := by
      rw [substr, hs, Nat.add_sub_cancel_left, List.take_left]
    have hrest : strBig.drop (pos + p.length + strsrc.length) = rest := by
      rw [Nat.add_assoc, ← List.drop_drop, hs, ← List.drop_drop, List.drop_left, List.drop_left]
    rw [replaceLoop, hsome]
    dsimp only
    rw [hpiece, ih _ fuel _ (by omega) hrest (by omega), List.intercalate_cons_of_ne_nil h.ne_nil,
      List.append_assoc, List.append_assoc, List.append_assoc]

/-- **An empty pattern is found where the search begins, without end.** -/
theorem replaceLoop_empty (fuel : Nat) : ∀ (pos : Nat) (ss : ByteArray), pos ≤ strBig.length →
    replaceLoop strBig [] strdst fuel pos pos ss = none := by
  induction fuel with
  | zero => exact fun _ _ _ => rfl
  | succ fuel ih =>
    intro pos ss hpos
    rw [replaceLoop, find_nil hpos]
    exact ih pos _ hpos

/-! ### the overload for a character -/

theorem findChar_find (pos : Nat) : findChar c strBig pos = find [c] strBig pos := by
  cases h : find [c] strBig pos with
  | none =>
    rw [find_eq_none] at h
    rw [findChar, List.find?_range'_eq_none]
    intro i hge hlt
    have hi := h i hge (by omega)
    rw [single_stands] at hi
    rw [Bool.not_eq_true', decide_eq_false_iff_not]
    exact hi
  | some i =>
    obtain ⟨hge, hle, hp, hno⟩ := find_eq_some.mp h
    rw [single_stands] at hp
    rw [findChar, List.find?_range'_eq_some, List.mem_range'_1]
    obtain ⟨hlt, -⟩ := List.getElem?_eq_some_iff.mp hp
    refine ⟨decide_eq_true hp, ⟨hge, by omega⟩, fun j hgej hltj => ?_⟩
    have hj := hno j hgej hltj
    rw [single_stands] at hj
    rw [Bool.not_eq_true', decide_eq_false_iff_not]
    exact hj

/-- **The two overloads agree on one character.** -/
theorem replaceCharLoop_eq (fuel : Nat) : ∀ (pos last_pos : Nat) (ss : ByteArray),
    replaceCharLoop strBig c strdst fuel pos last_pos ss
      = replaceLoop strBig [c] strdst fuel pos last_pos ss := by
  induction fuel with
  | zero => exact fun _ _ _ => rfl
  | succ fuel ih =>
    intro pos last_pos ss
    rw [replaceCharLoop, replaceLoop, findChar_find]
    cases find [c] strBig pos with
    | none => rfl
    | some i => exact ih _ _ _

end

section
variable (strBig strsrc strdst : ByteArray)

/-- `string_replace` comes back with the pieces of the old string joined by the replacement, and
the overload for a character does what it does for the string of this character -/
structure Replaces : Prop where
  pieces : ∃ ps, Pieces strsrc strBig ps ∧
    Comes (string_replace strBig strsrc strdst) (strdst.intercalate ps)
  char : ∀ c, ∃ s, Comes (string_replaceChar strBig c strdst) s ∧
    Comes (string_replace strBig [c] strdst) s

theorem string_replace_comes {ps : List ByteArray} (h : Pieces strsrc strBig ps) :
    Comes (string_replace strBig strsrc strdst) (strdst.intercalate ps) :=
  ⟨ps.length, fun fuel hf => replaceLoop_pieces h 0 fuel [] (Nat.zero_le _) rfl hf⟩

/-- a pattern is replaced by itself without a trace -/
theorem string_replace_self (h : strsrc ≠ []) :
    Comes (string_replace strBig strsrc strsrc) strBig := by
  obtain ⟨ps, hps⟩ := pieces_iff.mpr h
  have hcomes := string_replace_comes strBig strsrc strsrc hps
  rwa [hps.join] at hcomes

theorem string_replace_char (c : BYTE) : ∃ s, Comes (string_replaceChar strBig c strdst) s ∧
    Comes (string_replace strBig [c] strdst) s := by
  obtain ⟨ps, h⟩ := pieces_iff.mpr (List.cons_ne_nil c [])
  have hcomes := string_replace_comes strBig [c] strdst h
  refine ⟨_, ?_, hcomes⟩
  obtain ⟨n, hn⟩ := hcomes
  exact ⟨n, fun fuel hf => (replaceCharLoop_eq fuel 0 0 []).trans (hn fuel hf)⟩

/-- **`string_replace` terminates and replaces the leftmost occurrences, if there is something to
look for.** -/
theorem string_replace_iff : Replaces strBig strsrc strdst ↔ strsrc ≠ [] := by
  constructor
  · rintro ⟨⟨ps, h, -⟩, -⟩
    exact pieces_iff.mp ⟨ps, h⟩
  · intro hne
    obtain ⟨ps, h⟩ := pieces_iff.mpr hne
    exact ⟨⟨ps, h, string_replace_comes strBig strsrc strdst h⟩, string_replace_char strBig strdst⟩

/-- with an empty pattern it never comes back -/
theorem string_replace_never (fuel : Nat) : string_replace strBig [] strdst fuel = none :=
  replaceLoop_empty fuel 0 [] (Nat.zero_le _)

end

theorem string_replace_hangs :
    (∀ s, ¬ Comes (string_replace [0x61] [] [0x62]) s) ∧ ¬ Replaces [0x61] [] [0x62] := by
  have hno : ∀ s, ¬ Comes (string_replace [0x61] [] [0x62]) s := by
    rintro s ⟨n, hn⟩
    have hsome := hn n (Nat.le_refl n)
    rw [string_replace_never] at hsome
    cases hsome
  refine ⟨hno, fun h => ?_⟩
  obtain ⟨ps, -, hc⟩ := h.pieces
  exact hno _ hc

/-! ## `fixSqlString` -/

/-- a double quote -/
def QUOTE : BYTE := 0x22
/-- a backslash -/
def ESCAPE : BYTE := 0x5c

/-- `fixSqlString(content)` -/
def fixSqlString (content : ByteArray) : ByteArray :=
  content.foldl (fun strOut c =>
    let strOut := if c = QUOTE then strOut ++ [ESCAPE] else strOut
    strOut ++ [c]) []

/-- the content of a literal behind its opening quote, and what follows its closing quote; a
backslash takes the next character as it is -/
def unquote : ByteArray → Option (ByteArray × ByteArray)
  | [] => none
  | [c] => if c = QUOTE then some ([], []) else none
  | c :: d :: rest =>
    if c = QUOTE then some ([], d :: rest)
    else if c = ESCAPE then (unquote rest).map fun r => (d :: r.1, r.2)
    else (unquote (d :: rest)).map fun r => (c :: r.1, r.2)

/-- the content of a literal, and what follows it -/
def literal : ByteArray → Option (ByteArray × ByteArray)
  | [] => none
  | c :: rest => if c = QUOTE then unquote rest else none

/-- what a character becomes -/
def fixed (c : BYTE) : ByteArray := if c = QUOTE then [ESCAPE, c] else [c]

theorem fixSqlString_flatMap (content : ByteArray) : fixSqlString content = content.flatMap fixed := by
  have hfold : ∀ strOut : ByteArray, content.foldl (fun strOut c =>
      (if c = QUOTE then strOut ++ [ESCAPE] else strOut) ++ [c]) strOut
        = strOut ++ content.flatMap fixed := by
    induction content with
    | nil =>
      intro strOut
      rw [List.flatMap_nil, List.append_nil]
      rfl
    | cons c content ih =>
      intro strOut
      rw [List.foldl_cons, ih, List.flatMap_cons, ← List.append_assoc, fixed]
      split
      · rw [List.append_assoc strOut]
        rfl
      · rfl
  exact hfold []

theorem unquote_close (rest : ByteArray) : unquote (QUOTE :: rest) = some ([], rest) := by
  cases rest with
  | nil => rfl
  | cons d rest => rw [unquote, if_pos rfl]

theorem unquote_escape (d : BYTE) (rest : ByteArray) :
    unquote (ESCAPE :: d :: rest) = (unquote rest).map fun r => (d :: r.1, r.2) := by
  rw [unquote, if_neg (by decide), if_pos rfl]

theorem unquote_plain {c : BYTE} (hq : c ≠ QUOTE) (he : c ≠ ESCAPE) (rest : ByteArray) :
    unquote (c :: rest) = (unquote rest).map fun r => (c :: r.1, r.2) := by
  cases rest with
  | nil =>
    show (if c = QUOTE then _ else none) = none
    rw [if_neg hq]
  | cons d rest => rw [unquote, if_neg hq, if_neg he]

/-- a character other than a backslash is read as itself -/
theorem unquote_fixed {c : BYTE} (he : c ≠ ESCAPE) (rest : ByteArray) :
    unquote (fixed c ++ rest) = (unquote rest).map fun r => (c :: r.1, r.2) := by
  by_cases hq : c = QUOTE
  · rw [fixed, if_pos hq]
    exact unquote_escape c rest
  · rw [fixed, if_neg hq]
    exact unquote_plain hq he rest

/-- **A text without a backslash is read as itself.** -/
theorem unquote_clean {content : ByteArray} (h : ESCAPE ∉ content) :
    unquote (content.flatMap fixed ++ [QUOTE]) = some (content, []) := by
  induction content with
  | nil => rfl
  | cons c content ih =>
    rw [List.mem_cons, not_or] at h
    rw [List.flatMap_cons, List.append_assoc, unquote_fixed (Ne.symm h.1), ih h.2]
    rfl

/-- a backslash takes the next character of the fixed text with it: the backslash of a quote, which
then ends the literal, or a character of the text -/
theorem unquote_backslash {content : ByteArray} {r : ByteArray × ByteArray}
    (hr : unquote (ESCAPE :: (content.flatMap fixed ++ [QUOTE])) = some r) :
    ∃ d rest, content = d :: rest ∧ (r.1 = [ESCAPE] ∨ ∃ r',
      unquote (rest.flatMap fixed ++ [QUOTE]) = some r' ∧ r.1 = d :: r'.1) := by
  cases content with
  | nil => cases hr
  | cons d rest =>
    refine ⟨d, rest, rfl, ?_⟩
    rw [List.flatMap_cons, List.append_assoc] at hr
    by_cases hq : d = QUOTE
    · rw [fixed, if_pos hq, hq] at hr
      change unquote (ESCAPE :: ESCAPE :: QUOTE :: (rest.flatMap fixed ++ [QUOTE])) = _ at hr
      rw [unquote_escape, unquote_close] at hr
      injection hr with hr
      exact Or.inl (hr ▸ rfl)
    · rw [fixed, if_neg hq] at hr
      change unquote (ESCAPE :: d :: (rest.flatMap fixed ++ [QUOTE])) = _ at hr
      rw [unquote_escape] at hr
      obtain ⟨r', hr', rfl⟩ := Option.map_eq_some_iff.mp hr
      exact Or.inr ⟨r', hr', rfl⟩

/-- **A backslash costs a character**: what is read is never longer than the text, and shorter if
this has a backslash. -/
theorem unquote_length (n : Nat) : ∀ (content : ByteArray) {r : ByteArray × ByteArray},
    content.length < n → unquote (content.flatMap fixed ++ [QUOTE]) = some r →
    r.1.length ≤ content.length ∧ (ESCAPE ∈ content → r.1.length < content.length) := by
  induction n with
  | zero => exact fun _ _ hn => absurd hn (Nat.not_lt_zero _)
  | succ n ih =>
    intro content r hn hr
    cases content with
    | nil =>
      injection hr with hr
      rw [← hr]
      exact ⟨Nat.le_refl _, fun h => absurd h List.not_mem_nil⟩
    | cons c content =>
      rw [List.length_cons] at hn ⊢
      rw [List.flatMap_cons, List.append_assoc] at hr
      by_cases he : c = ESCAPE
      · have hc : fixed c = [ESCAPE] := by rw [he]; rfl
        rw [hc] at hr
        suffices hlt : r.1.length < content.length + 1 from ⟨Nat.le_of_lt hlt, fun _ => hlt⟩
        obtain ⟨d, rest, rfl, hone | ⟨r', hr', hcons⟩⟩ := unquote_backslash hr
        · rw [hone, List.length_singleton, List.length_cons]
          omega
        · rw [List.length_cons] at hn
          have := (ih rest (by omega) hr').1
          rw [hcons, List.length_cons, List.length_cons]
          omega
      · rw [unquote_fixed he] at hr
        obtain ⟨r', hr', rfl⟩ := Option.map_eq_some_iff.mp hr
        obtain ⟨hle, hlt⟩ := ih content (by omega) hr'
        rw [List.length_cons]
        refine ⟨by omega, fun hmem => ?_⟩
        have := hlt ((List.mem_cons.mp hmem).resolve_left fun h => he h.symm)
        omega

/-- the fixed text between quotes is a literal that ends with the last one and holds the text -/
def Safe (content : ByteArray) : Prop :=
  literal (QUOTE :: (fixSqlString content ++ [QUOTE])) = some (content, [])

/-- **The fixed text is safe between quotes exactly if the text has no backslash.** -/
theorem fixSqlString_iff (content : ByteArray) : Safe content ↔ ESCAPE ∉ content := by
  rw [Safe, literal, if_pos rfl, fixSqlString_flatMap]
  constructor
  · intro h hmem
    exact Nat.lt_irrefl _ ((unquote_length _ content (Nat.lt_succ_self _) h).2 hmem)
  · exact unquote_clean

/-- a backslash and a quote: the literal ends early -/
theorem fixSqlString_ends : literal (QUOTE :: (fixSqlString [ESCAPE, QUOTE] ++ [QUOTE]))
      = some ([ESCAPE], [QUOTE]) ∧ ¬ Safe [ESCAPE, QUOTE] := by
  constructor
  · decide
  · unfold Safe
    decide

end Netwb
