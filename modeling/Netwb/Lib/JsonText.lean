import Mathlib.Data.BitVec
import Mathlib.Data.List.Basic
import Netwb.Lib.Decimal

/-!
# JSON texts

The grammar of JSON over bytes: `Syntax P W kind text` says that `text` is of the kind `kind` where
`P` holds of the content of every string and `W` of the white space between a name and its colon.
With no condition on these it is the grammar itself.  Bytes from 0x80 on are taken as they come.

`Syntax.guarded`: where no string holds a colon and only spaces stand between a name and its colon,
every colon of the text is directly behind a quote or a space.
-/

namespace JsonText
open Decimal (isDigit)

abbrev Byte := BitVec 8

def isWhite (c : Byte) : Bool := c = 0x20 ∨ c = 0x09 ∨ c = 0x0a ∨ c = 0x0d

def White (a : List Byte) : Prop := ∀ c ∈ a, isWhite c = true

instance (a : List Byte) : Decidable (White a) := inferInstanceAs (Decidable (∀ c ∈ a, _))

def isHex (c : Byte) : Bool :=
  isDigit c ∨ (0x41 ≤ c.toNat ∧ c.toNat ≤ 0x46) ∨ (0x61 ≤ c.toNat ∧ c.toNat ≤ 0x66)

/-- a character that stands for itself in a string -/
def isPlain (c : Byte) : Bool := 0x20 ≤ c.toNat ∧ c ≠ 0x22 ∧ c ≠ 0x5c

/-- a character that may stand behind a backslash -/
def isEscape (c : Byte) : Bool := c ∈ [0x22, 0x5c, 0x2f, 0x62, 0x66, 0x6e, 0x72, 0x74]

/-- the content of a string -/
inductive Chars : List Byte → Prop
  | nil : Chars []
  | plain {c : Byte} {s : List Byte} (hc : isPlain c = true) (h : Chars s) : Chars (c :: s)
  | escape {c : Byte} {s : List Byte} (hc : isEscape c = true) (h : Chars s) : Chars (0x5c :: c :: s)
  | unicode {a b c d : Byte} {s : List Byte} (ha : isHex a = true) (hb : isHex b = true)
      (hc : isHex c = true) (hd : isHex d = true) (h : Chars s) :
      Chars (0x5c :: 0x75 :: a :: b :: c :: d :: s)

/-- one digit or more -/
def Digits (n : List Byte) : Prop := n ≠ [] ∧ ∀ c ∈ n, isDigit c = true

/-- `0`, or digits that begin with another one -/
def Whole (n : List Byte) : Prop := n = [0x30] ∨ (Digits n ∧ n.head? ≠ some 0x30)

/-- nothing, or a point and digits -/
def Fraction (n : List Byte) : Prop := n = [] ∨ ∃ d, Digits d ∧ n = 0x2e :: d

/-- nothing, or an `e`, a sign perhaps, and digits -/
def Exponent (n : List Byte) : Prop :=
  n = [] ∨ ∃ e sign d, (e = 0x65 ∨ e = 0x45) ∧ (sign = [] ∨ sign = [0x2b] ∨ sign = [0x2d]) ∧
    Digits d ∧ n = e :: (sign ++ d)

def Number (n : List Byte) : Prop :=
  ∃ sign whole fraction exponent, (sign = [] ∨ sign = [0x2d]) ∧ Whole whole ∧ Fraction fraction ∧
    Exponent exponent ∧ n = sign ++ whole ++ fraction ++ exponent

/-- `true`, `false` and `null` -/
def words : List (List Byte) :=
  [[0x74, 0x72, 0x75, 0x65], [0x66, 0x61, 0x6c, 0x73, 0x65], [0x6e, 0x75, 0x6c, 0x6c]]

inductive Kind where
  | value
  /-- a value with white space around it -/
  | padded
  | elements
  | member
  | members
deriving DecidableEq, Repr

inductive Syntax (P W : List Byte → Prop) : Kind → List Byte → Prop
  | word {w : List Byte} (hw : w ∈ words) : Syntax P W .value w
  | number {n : List Byte} (hn : Number n) : Syntax P W .value n
  | string {s : List Byte} (hs : Chars s) (hp : P s) : Syntax P W .value (0x22 :: (s ++ [0x22]))
  | emptyArray {a : List Byte} (ha : White a) : Syntax P W .value (0x5b :: (a ++ [0x5d]))
  | array {e : List Byte} (h : Syntax P W .elements e) : Syntax P W .value (0x5b :: (e ++ [0x5d]))
  | emptyObject {a : List Byte} (ha : White a) : Syntax P W .value (0x7b :: (a ++ [0x7d]))
  | object {m : List Byte} (h : Syntax P W .members m) : Syntax P W .value (0x7b :: (m ++ [0x7d]))
  | padded {a v b : List Byte} (ha : White a) (h : Syntax P W .value v) (hb : White b) :
      Syntax P W .padded (a ++ (v ++ b))
  | element {v : List Byte} (h : Syntax P W .padded v) : Syntax P W .elements v
  | elements {v e : List Byte} (h : Syntax P W .padded v) (he : Syntax P W .elements e) :
      Syntax P W .elements (v ++ 0x2c :: e)
  | member {a s b v : List Byte} (ha : White a) (hs : Chars s) (hp : P s) (hb : White b) (hw : W b)
      (h : Syntax P W .padded v) : Syntax P W .member ((a ++ 0x22 :: (s ++ 0x22 :: b)) ++ 0x3a :: v)
  | oneMember {m : List Byte} (h : Syntax P W .member m) : Syntax P W .members m
  | members {m r : List Byte} (h : Syntax P W .member m) (hr : Syntax P W .members r) :
      Syntax P W .members (m ++ 0x2c :: r)

/-- a JSON text -/
structure Text where
  text : List Byte
  wf : Syntax (fun _ => True) (fun _ => True) .padded text

/-! ## where the colons are -/

/-- every colon is directly behind a quote or a space -/
def Guarded (t : List Byte) : Prop :=
  ∀ i : Nat, t[i]? = some 0x3a → ∃ j, i = j + 1 ∧ (t[j]? = some 0x22 ∨ t[j]? = some 0x20)

theorem guarded_of_free {t : List Byte} (h : (0x3a : Byte) ∉ t) : Guarded t :=
  fun _ hi => absurd (List.mem_of_getElem? hi) h

theorem Guarded.append {t u : List Byte} (ht : Guarded t) (hu : Guarded u) : Guarded (t ++ u) := by
  intro i hi
  rcases Nat.lt_or_ge i t.length with hlt | hge
  · rw [List.getElem?_append_left hlt] at hi
    obtain ⟨j, rfl, hj⟩ := ht i hi
    refine ⟨j, rfl, ?_⟩
    rwa [List.getElem?_append_left (by omega)]
  · rw [List.getElem?_append_right hge] at hi
    obtain ⟨j, he, hj⟩ := hu _ hi
    refine ⟨t.length + j, by omega, ?_⟩
    rwa [List.getElem?_append_right (by omega), Nat.add_sub_cancel_left]

/-- a colon behind a text without one that ends with a quote or a space -/
theorem Guarded.colon {t u : List Byte} (ht : (0x3a : Byte) ∉ t)
    (hlast : t.getLast? = some 0x22 ∨ t.getLast? = some 0x20) (hu : Guarded u) :
    Guarded (t ++ 0x3a :: u) := by
  rw [List.getLast?_eq_getElem?] at hlast
  have hpos : 0 < t.length := by
    cases t with
    | nil => simp at hlast
    | cons x t => exact Nat.succ_pos _
  intro i hi
  rcases Nat.lt_trichotomy i t.length with hlt | rfl | hgt
  · rw [List.getElem?_append_left hlt] at hi
    exact absurd (List.mem_of_getElem? hi) ht
  · refine ⟨t.length - 1, by omega, ?_⟩
    rwa [List.getElem?_append_left (by omega)]
  · obtain ⟨n, rfl⟩ : ∃ n, i = t.length + 1 + n := ⟨i - (t.length + 1), by omega⟩
    have hskip : ∀ m, (t ++ 0x3a :: u)[t.length + 1 + m]? = u[m]? := by
      intro m
      rw [List.getElem?_append_right (by omega), Nat.add_assoc, Nat.add_sub_cancel_left, Nat.add_comm,
        List.getElem?_cons_succ]
    rw [hskip] at hi
    obtain ⟨j, rfl, hj⟩ := hu n hi
    exact ⟨t.length + 1 + j, by omega, by rwa [hskip]⟩

theorem White.free {a : List Byte} (h : White a) : (0x3a : Byte) ∉ a :=
  fun hmem => absurd (h _ hmem) (by decide)

theorem Digits.free {n : List Byte} (h : Digits n) : (0x3a : Byte) ∉ n :=
  fun hmem => absurd (h.2 _ hmem) (by decide)

theorem Number.free {n : List Byte} (h : Number n) : (0x3a : Byte) ∉ n := by
  obtain ⟨sign, whole, fraction, exponent, hsign, hwhole, hfraction, hexponent, rfl⟩ := h
  have h1 : (0x3a : Byte) ∉ sign := by
    rcases hsign with rfl | rfl
    · exact List.not_mem_nil
    · decide
  have h2 : (0x3a : Byte) ∉ whole := by
    rcases hwhole with rfl | ⟨hd, -⟩
    · decide
    · exact hd.free
  have h3 : (0x3a : Byte) ∉ fraction := by
    rcases hfraction with rfl | ⟨d, hd, rfl⟩
    · exact List.not_mem_nil
    · rw [List.mem_cons, not_or]
      exact ⟨by decide, hd.free⟩
  have h4 : (0x3a : Byte) ∉ exponent := by
    rcases hexponent with rfl | ⟨e, sign', d, he, hs, hd, rfl⟩
    · exact List.not_mem_nil
    · rw [List.mem_cons, List.mem_append, not_or, not_or]
      refine ⟨?_, ?_, hd.free⟩
      · rcases he with rfl | rfl <;> decide
      · rcases hs with rfl | rfl | rfl
        · exact List.not_mem_nil
        · decide
        · decide
  rw [List.mem_append, List.mem_append, List.mem_append, not_or, not_or, not_or]
  exact ⟨⟨⟨h1, h2⟩, h3⟩, h4⟩

/-- a text between two characters that are no colons -/
theorem Guarded.between {t : List Byte} (h : Guarded t) {x y : Byte} (hx : x ≠ 0x3a) (hy : y ≠ 0x3a) :
    Guarded (x :: (t ++ [y])) := by
  have hfree : ∀ {z : Byte}, z ≠ 0x3a → (0x3a : Byte) ∉ [z] := by
    intro z hz hmem
    exact hz (List.mem_singleton.mp hmem).symm
  exact (guarded_of_free (hfree hx)).append (h.append (guarded_of_free (hfree hy)))

/-- **Where no string holds a colon and only spaces stand between a name and its colon, every colon
is directly behind a quote or a space.** -/
theorem Syntax.guarded {kind : Kind} {t : List Byte}
    (h : Syntax (fun s => (0x3a : Byte) ∉ s) (fun b => ∀ c ∈ b, c = 0x20) kind t) : Guarded t := by
  have hcomma : ∀ {u : List Byte}, Guarded u → Guarded (0x2c :: u) := fun hu =>
    (guarded_of_free (t := [0x2c]) (by decide)).append hu
  induction h with
  | word hw =>
    refine guarded_of_free fun hmem => ?_
    have hall : ∀ w ∈ words, (0x3a : Byte) ∉ w := by decide
    exact hall _ hw hmem
  | number hn => exact guarded_of_free hn.free
  | string hs hp => exact (guarded_of_free hp).between (by decide) (by decide)
  | emptyArray ha => exact (guarded_of_free ha.free).between (by decide) (by decide)
  | array h ih => exact ih.between (by decide) (by decide)
  | emptyObject ha => exact (guarded_of_free ha.free).between (by decide) (by decide)
  | object h ih => exact ih.between (by decide) (by decide)
  | padded ha h hb ih => exact (guarded_of_free ha.free).append (ih.append (guarded_of_free hb.free))
  | element h ih => exact ih
  | elements h he ih ihe => exact ih.append (hcomma ihe)
  | @member a s b v ha hs hp hb hw h ih =>
    refine Guarded.colon ?_ ?_ ih
    · simp only [List.mem_append, List.mem_cons, not_or]
      exact ⟨ha.free, by decide, hp, by decide, hb.free⟩
    · -- the last character is the quote, or a space behind it
      rcases List.eq_nil_or_concat b with rfl | ⟨b', c, rfl⟩
      · left
        have he : a ++ 0x22 :: (s ++ [0x22]) = (a ++ 0x22 :: s) ++ [0x22] := by simp
        rw [he, List.getLast?_concat]
      · right
        have hc := hw c (by simp)
        have he : a ++ 0x22 :: (s ++ 0x22 :: (b' ++ [c])) = (a ++ 0x22 :: (s ++ 0x22 :: b')) ++ [c] := by
          simp
        rw [List.concat_eq_append, he, List.getLast?_concat, hc]
  | oneMember h ih => exact ih
  | members h hr ih ihr => exact ih.append (hcomma ihr)

end JsonText
