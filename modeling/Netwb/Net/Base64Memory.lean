import Netwb.Net.Base64Grammar

/-!
# Base64: what is outside of the range

`base64_range_iff`: when the decoder depends on its range only.  `base64_negative_iff`: when the
length -1 does what the length of the string does, for every address of it.
-/

namespace Netwb
open Wire

section
variable {b64 : base64_t} {flag : Nat} {range : ByteArray}

/-- a range that is not left is read in one way -/
theorem scanTo_same (hoff : ¬ RunsOff b64 flag range) : ∃ t, ∀ behind,
    scanTo b64 flag range.length .loop (range ++ behind) 0 0 ⟨0, 0, []⟩ = some t := by
  by_cases hclear : Clear b64 flag .loop range.dropLast
  · obtain ⟨s, c, hscan, _⟩ := scanTo_inside range .loop 0 0 ⟨0, 0, []⟩ hclear
      fun h => hoff ((leaves_iff range).mp h)
    rw [Nat.zero_add] at hscan
    exact ⟨_, hscan⟩
  · obtain ⟨st, s, c, hscan, _⟩ := scanTo_blocked range .loop 0 0 ⟨0, 0, []⟩ hclear
    rw [Nat.zero_add] at hscan
    exact ⟨_, hscan⟩

theorem decode_same (hoff : ¬ RunsOff b64 flag range) (behind behind' : ByteArray) :
    base64_decode_in b64 flag (range ++ behind) range.length
      = base64_decode_in b64 flag (range ++ behind') range.length := by
  obtain ⟨t, hscan⟩ := scanTo_same hoff
  rw [base64_decode_in, decodeTo, hscan, base64_decode_in, decodeTo, hscan]

theorem beyond_zero (behind : ByteArray) : beyond b64 flag (0 :: behind) = some [] := by
  have hskip : ¬ b64.Ignores flag 0 := fun h => h.1.1 rfl
  rw [beyond, List.dropWhile_cons, if_neg fun h => hskip (of_decide_eq_true h)]
  exact congrArg some (sextets_other [] fun h => h.1 rfl)

theorem beyond_symbol {x : BYTE} (hx : b64.Symbol x) (behind : ByteArray) :
    beyond b64 flag (x :: behind) = some [b64.value x] := by
  have hskip : ¬ b64.Ignores flag x := fun h => h.1.not_symbol hx
  rw [beyond, List.dropWhile_cons, if_neg fun h => hskip (of_decide_eq_true h)]
  exact congrArg some (sextets_symbol [] hx)

/-- one symbol more is another result -/
theorem collect_differs (xs : List Nat) (x s s' : Nat) (hs : ¬ Whole (xs ++ [x]) → 0 < s') :
    (if Whole xs then (((collect xs).written.length : Int), (collect xs).written)
      else (-(s : Int), (collect xs).written)) ≠
    if Whole (xs ++ [x]) then
      (((collect (xs ++ [x])).written.length : Int), (collect (xs ++ [x])).written)
      else (-(s' : Int), (collect (xs ++ [x])).written) := by
  intro heq
  have hsnd : (collect xs).written = (collect (xs ++ [x])).written := by
    have h := congrArg Prod.snd heq
    rwa [apply_ite Prod.snd, apply_ite Prod.snd, ite_self, ite_self] at h
  have hlen := congrArg List.length hsnd
  rw [(collect_n xs).2, (collect_n _).2, List.length_append, List.length_singleton] at hlen
  have hfull : xs.length % 4 = 0 := by omega
  -- a group is full, and the symbol behind it is alone
  have hwhole : Whole xs := ⟨by omega, fun y _ => ⟨by omega, by omega⟩⟩
  have halone : ¬ Whole (xs ++ [x]) := fun h => h.1 (by
    rw [List.length_append, List.length_singleton]
    omega)
  rw [if_pos hwhole, if_neg halone] at heq
  have hfst : ((collect xs).written.length : Int) = -(s' : Int) := congrArg Prod.fst heq
  have hpos := hs halone
  omega

/-- **A range that is left**: with a NUL behind it, the result is another than with a symbol. -/
theorem decode_differs (T : b64.Paired) (hoff : RunsOff b64 flag range) :
    base64_decode_in b64 flag (range ++ [0]) range.length
      ≠ base64_decode_in b64 flag (range ++ [b64.etab 0]) range.length := by
  have hx := symbol_etab T (show 0 < 64 by decide)
  have hzero : seen b64 flag range [0] = some (b64.sextets range) := by
    rw [hoff.seen, beyond_zero, Option.map_some, List.append_nil]
  have hsymbol : seen b64 flag range [b64.etab 0]
      = some (b64.sextets range ++ [b64.value (b64.etab 0)]) := by
    rw [hoff.seen, beyond_symbol hx, Option.map_some]
  obtain ⟨s, _, hdecode⟩ := decode_seen T hoff.passes hzero
  obtain ⟨s', hs', hdecode'⟩ := decode_seen T hoff.passes hsymbol
  rw [hdecode, hdecode']
  exact fun h => collect_differs _ _ s s' hs' (Option.some.inj h)

end

/-- **When nothing matters but the range**: unless a loop that skips characters leaves it.  Both
buffers that tell the difference have a byte behind it where that loop stops. -/
theorem base64_range_iff {alphabet : ByteArray} (h : (base64_init alphabet).1 = 0) (flag : Nat)
    (range : ByteArray) :
    (∀ behind behind', base64_decode_in (base64_init alphabet).2 flag (range ++ behind) range.length
      = base64_decode_in (base64_init alphabet).2 flag (range ++ behind') range.length) ↔
    ¬ RunsOff (base64_init alphabet).2 flag range :=
  ⟨fun hsame hoff => decode_differs (base64_init_paired h) hoff (hsame _ _), decode_same⟩

/-- no flag -/
theorem base64_range_strict :
    base64_decode_in (base64_init url_base64_alphabet).2 0 ([0x41, 0x41] ++ [0]) 2
      = base64_decode_in (base64_init url_base64_alphabet).2 0 ([0x41, 0x41] ++ [0x41]) 2 := by
  have hoff : ¬ RunsOff (base64_init url_base64_alphabet).2 0 [0x41, 0x41] := fun hoff =>
    absurd (hoff.2.2.2 0x41 rfl) (by decide +kernel)
  exact (base64_range_iff urlTables_init 0 [0x41, 0x41]).mpr hoff [0] [0x41]

/-- `AA` and a space, with a NUL and with another `A` behind -/
theorem base64_range_read : ¬ ∀ behind behind',
    base64_decode_in std_base64 BASE64_IGNORE_SPACE ([0x41, 0x41, 0x20] ++ behind) 3
      = base64_decode_in std_base64 BASE64_IGNORE_SPACE ([0x41, 0x41, 0x20] ++ behind') 3 := by
  intro h
  exact absurd (h [0] [0x41]) (by decide +kernel)

/-! ## addresses -/

/-- where a buffer stands: not at the null pointer, and the byte behind it has an address -/
structure Placed (w : Nat) (mem : ByteArray) where
  base : Nat
  pos : 0 < base
  fits : base + mem.length < 2 ^ w

section
variable {b64 : base64_t} {flag : Nat}

theorem scanTo_shift (k : Nat) {fin : Nat} : ∀ (mem : ByteArray) (reading : Reading) (s : Nat)
    (c : BYTE) (st : Decoding), scanTo b64 flag (fin + k) reading mem (s + k) c st
      = (scanTo b64 flag fin reading mem s c st).map fun t => (t.1, t.2.1 + k, t.2.2)
  | mem, reading, s, c, st => by
    by_cases hstop : reading = .loop ∧ fin ≤ s
    · obtain ⟨rfl, hle⟩ := hstop
      rw [scanTo_stop _ _ _ _ _ _ hle, scanTo_stop _ _ _ _ _ _ (by omega)]
      rfl
    have hs : reading = .loop → s < fin := fun h => Nat.lt_of_not_le fun hle => hstop ⟨h, hle⟩
    have hsk : reading = .loop → s + k < fin + k := fun h => by
      have := hs h
      omega
    cases mem with
    | nil => rw [scanTo_nil flag c st hs, scanTo_nil flag c st hsk, Option.map_none]
    | cons x mem =>
      have hstep : s + k + 1 = s + 1 + k := by omega
      rcases b64.kinds x with hx | hx | hx
      · rw [scanTo_closes flag mem c st hs hx, scanTo_closes flag mem c st hsk hx, hstep]
        rfl
      · rw [scanTo_symbol flag mem c st hs hx, scanTo_symbol flag mem c st hsk hx, hstep]
        exact scanTo_shift k mem .loop (s + 1) x _
      · rw [scanTo_other flag mem c st hs hx, scanTo_other flag mem c st hsk hx, hstep]
        cases reading.next flag x with
        | none => rfl
        | some m => exact scanTo_shift k mem m (s + 1) x st

/-- the address does not matter, where `end` is behind the range -/
theorem decodeTo_shift (k fin : Nat) (mem : ByteArray) :
    decodeTo b64 flag (fin + k) k mem = decodeTo b64 flag fin 0 mem := by
  have hscan : scanTo b64 flag (fin + k) .loop mem (0 + k) 0 ⟨0, 0, []⟩ = _ :=
    scanTo_shift k mem .loop 0 0 ⟨0, 0, []⟩
  rw [Nat.zero_add] at hscan
  rw [decodeTo, hscan, decodeTo, Option.map_map]
  refine congrArg (Option.map · _) (funext fun t => ?_)
  obtain ⟨st, s, c⟩ := t
  dsimp only [Function.comp_apply]
  rw [Nat.add_sub_cancel, Nat.sub_zero]
  exact if_congr (by rw [Nat.add_lt_add_iff_right]) rfl rfl

variable {w : Nat} {mem : ByteArray} (p : Placed w mem)
include p

theorem decode_at_len {len : Nat} (hlen : len ≤ mem.length) :
    base64_decode_at b64 flag w p.base mem len = base64_decode_in b64 flag mem len := by
  have hfits := p.fits
  have hfin : (p.base + len) % 2 ^ w = len + p.base := by
    rw [Nat.mod_eq_of_lt (by omega), Nat.add_comm]
  have hzero : ¬ len < 0 := Nat.not_lt_zero len
  unfold base64_decode_at
  rw [if_neg hzero, hfin]
  exact decodeTo_shift p.base len mem

/-- **The length -1** stands for one address less, and nothing is read. -/
theorem decode_at_negative :
    base64_decode_at b64 flag w p.base mem (2 ^ w - 1) = some (0, []) := by
  have hfits := p.fits
  have hpos := p.pos
  have hfin : (p.base + (2 ^ w - 1)) % 2 ^ w = p.base - 1 := by
    rw [show p.base + (2 ^ w - 1) = p.base - 1 + 2 ^ w by omega, Nat.add_mod_right]
    exact Nat.mod_eq_of_lt (by omega)
  have hzero : ¬ 2 ^ w - 1 < 0 := Nat.not_lt_zero _
  unfold base64_decode_at
  rw [if_neg hzero, hfin, decodeTo, scanTo_stop _ _ _ _ _ _ (by omega), Option.map_some]
  refine congrArg some (if_neg ?_)
  rintro (⟨hlt, _⟩ | hone | ⟨hne, _⟩)
  · omega
  · cases hone
  · exact hne rfl

end

theorem collect_nil {xs : List Nat} (hwhole : Whole xs)
    (h : (collect xs).written.length = 0) : xs = [] := by
  rw [(collect_n xs).2] at h
  have hne := hwhole.1
  exact List.eq_nil_of_length_eq_zero (by omega)

section
variable {b64 : base64_t} (T : b64.Paired) {flag : Nat} {str behind : ByteArray}
include T

/-- a string is decoded to nothing, where it has no symbols and nothing that stops the decoder -/
theorem decode_nothing :
    base64_decode_in b64 flag (str ++ 0 :: behind) str.length = some (0, []) ↔
      (∀ c ∈ b64.cut str, ¬ b64.Symbol c) ∧ Passes b64 flag (b64.early str) := by
  by_cases hpass : Passes b64 flag (b64.early str)
  · have hseen : seen b64 flag str (0 :: behind) = some (b64.sextets (b64.cut str)) := by
      by_cases hoff : RunsOff b64 flag str
      · rw [hoff.seen, beyond_zero, Option.map_some, List.append_nil, cut_eq hoff.2.1]
      · exact seen_inside hoff
    have hempty : b64.sextets (b64.cut str) = [] ↔ ∀ c ∈ b64.cut str, ¬ b64.Symbol c := by
      rw [base64_t.sextets, List.map_eq_nil_iff, List.filter_eq_nil_iff]
      simp only [decide_eq_true_eq]
    obtain ⟨s, hs, hdecode⟩ := decode_seen T hpass hseen
    rw [hdecode, and_iff_left hpass, ← hempty]
    constructor
    · intro h
      by_cases hwhole : Whole (b64.sextets (b64.cut str))
      · rw [if_pos hwhole] at h
        have hlen := congrArg (fun r => r.2.length) (Option.some.inj h)
        exact collect_nil hwhole hlen
      · have hpos := hs hwhole
        rw [if_neg hwhole] at h
        have hret := congrArg Prod.fst (Option.some.inj h)
        dsimp only at hret
        omega
    · intro h
      rw [h]
      rfl
  · obtain ⟨s, out, hs, hdecode⟩ := decode_blocked T hpass
    rw [hdecode]
    refine ⟨fun h => ?_, fun h => absurd h.2 hpass⟩
    have hret := congrArg Prod.fst (Option.some.inj h)
    dsimp only at hret
    omega

end

/-- **When the length -1 means up to the NUL**: where there is nothing to decode. -/
theorem base64_negative_iff {alphabet : ByteArray} (h : (base64_init alphabet).1 = 0) (flag : Nat)
    {w : Nat} {str behind : ByteArray} (p : Placed w (str ++ 0 :: behind)) :
    base64_decode_at (base64_init alphabet).2 flag w p.base (str ++ 0 :: behind) (2 ^ w - 1)
      = base64_decode_at (base64_init alphabet).2 flag w p.base (str ++ 0 :: behind) str.length ↔
    (∀ c ∈ (base64_init alphabet).2.cut str, ¬ (base64_init alphabet).2.Symbol c) ∧
      Passes (base64_init alphabet).2 flag ((base64_init alphabet).2.early str) := by
  have hlen : str.length ≤ (str ++ 0 :: behind).length := by
    rw [List.length_append]
    omega
  rw [decode_at_negative p, decode_at_len p hlen, eq_comm]
  exact decode_nothing (base64_init_paired h)

/-- a space, at address 16 -/
def placedSpace : Placed 32 ([0x20] ++ 0 :: []) := ⟨16, by decide, by decide⟩

theorem base64_negative_space :
    base64_decode_at (base64_init url_base64_alphabet).2 BASE64_IGNORE_SPACE 32 16 [0x20, 0]
      (2 ^ 32 - 1) = base64_decode_at (base64_init url_base64_alphabet).2 BASE64_IGNORE_SPACE 32 16
      [0x20, 0] 1 := by
  refine (base64_negative_iff urlTables_init BASE64_IGNORE_SPACE placedSpace).mpr ⟨?_, ?_⟩
  · decide +kernel
  · decide +kernel

/-- `AAAA` at address 16: three bytes, and none -/
theorem base64_negative_reads_nothing :
    base64_decode_at std_base64 0 32 16 [0x41, 0x41, 0x41, 0x41, 0] (2 ^ 32 - 1)
      ≠ base64_decode_at std_base64 0 32 16 [0x41, 0x41, 0x41, 0x41, 0] 4 := by
  decide +kernel

end Netwb
