import Netwb.Net.Base64Range

/-!
# Base64: what the decoder accepts

The result of `base64_decode` by the characters of its range: an error where one of them stops the
decoder (`decode_blocked`), and what the symbols say otherwise (`decode_seen`).
`base64_grammar_iff`: when it is the grammar that is accepted.
-/

namespace Netwb
open Wire

/-! ## the six bits of the symbols -/

/-- the last symbol is not alone, and has no bits that are not used -/
def Whole (xs : List Nat) : Prop :=
  xs.length % 4 ≠ 1 ∧
    ∀ x ∈ xs.getLast?, (xs.length % 4 = 2 → x % 16 = 0) ∧ (xs.length % 4 = 3 → x % 4 = 0)

instance (xs : List Nat) : Decidable (Whole xs) := inferInstanceAs (Decidable (_ ∧ _))

/-- what the loop makes of some symbols -/
def collect (xs : List Nat) : Decoding := xs.foldl Decoding.put ⟨0, 0, []⟩

theorem collect_append (xs : List Nat) (x : Nat) : collect (xs ++ [x]) = (collect xs).put x :=
  List.foldl_concat _ _ _ _

theorem collect_n (xs : List Nat) : (collect xs).n = xs.length % 4 ∧
    (collect xs).written.length = xs.length * 3 / 4 := by
  induction xs using List.reverseRecOn with
  | nil => exact ⟨rfl, rfl⟩
  | append_singleton xs x ih =>
    rw [collect_append, List.length_append, List.length_singleton]
    rcases hst : collect xs with ⟨n, r, w⟩
    rw [hst] at ih
    obtain ⟨hn, hw⟩ := ih
    dsimp only at hn hw
    have hlt : n < 4 := by omega
    interval_cases n
    · exact ⟨by rw [put_zero]; dsimp only; omega, by rw [put_zero]; dsimp only; omega⟩
    · rw [put_one, List.length_append, List.length_singleton]
      exact ⟨by dsimp only; omega, by omega⟩
    · rw [put_two, List.length_append, List.length_singleton]
      exact ⟨by dsimp only; omega, by omega⟩
    · rw [put_three, List.length_append, List.length_singleton]
      exact ⟨by dsimp only; omega, by omega⟩

theorem low_bits (x k : Nat) : x <<< k &&& 0xff = x * 2 ^ k % 256 := by
  rw [Nat.shiftLeft_eq]
  exact Nat.and_two_pow_sub_one_eq_mod _ 8

/-- the test behind the loop -/
theorem collect_rejects (xs : List Nat) :
    ((collect xs).n = 1 ∨ (collect xs).n ≠ 0 ∧ (collect xs).r &&& 0xff ≠ 0) ↔ ¬ Whole xs := by
  induction xs using List.reverseRecOn with
  | nil => decide
  | append_singleton xs x _ =>
    have hn := (collect_n xs).1
    unfold Whole
    rw [collect_append, List.length_append, List.length_singleton, List.getLast?_concat]
    rcases hst : collect xs with ⟨n, r, w⟩
    rw [hst] at hn
    dsimp only at hn
    have hlt : n < 4 := by omega
    simp only [Option.mem_def, Option.some.injEq, forall_eq']
    interval_cases n
    · rw [put_zero]
      dsimp only
      omega
    · rw [put_one]
      dsimp only
      rw [low_bits]
      omega
    · rw [put_two]
      dsimp only
      rw [low_bits]
      omega
    · rw [put_three]
      dsimp only
      omega

/-! ## behind the loop -/

section
variable {b64 : base64_t} (T : b64.Paired) {flag fin start : Nat} {mem : ByteArray}
include T

theorem closes_eq {c : BYTE} (hc : b64.Closes c) : c = 0 ∨ c = b64.etab 64 := by
  refine hc.imp_right fun h64 => ?_
  by_contra hne
  by_cases hall : ∀ x < 65, b64.etab x ≠ c
  · have h65 := T.other c hall
    omega
  · push Not at hall
    obtain ⟨x, hx, rfl⟩ := hall
    rw [T.symbol x hx] at h64
    exact hne (h64 ▸ rfl)

theorem other_ne {c : BYTE} (hc : b64.Other c) : c ≠ 0 ∧ c ≠ b64.etab 64 := by
  refine ⟨hc.1, ?_⟩
  rintro rfl
  have h64 := hc.2
  rw [T.symbol 64 (by decide)] at h64
  exact absurd h64 (lt_irrefl 64)

theorem symbol_etab {x : Nat} (hx : x < 64) : b64.Symbol (b64.etab x) :=
  ⟨T.nonzero x (by omega), by rw [T.symbol x (by omega)]; exact hx⟩

/-- a character in the middle that is not skipped -/
theorem decodeTo_bad {st : Decoding} {s : Nat} {c : BYTE}
    (hscan : scanTo b64 flag fin .loop mem start 0 ⟨0, 0, []⟩ = some (st, s, c)) (hs : s < fin)
    (hc : b64.Other c) :
    decodeTo b64 flag fin start mem = some (-((s - start : Nat) : Int), st.written) := by
  rw [decodeTo, hscan, Option.map_some]
  exact congrArg some (if_pos (.inl ⟨hs, other_ne T hc⟩))

/-- the symbols decide, where nothing else has stopped the loop -/
theorem decodeTo_collect {xs : List Nat} {s : Nat} {c : BYTE}
    (hscan : scanTo b64 flag fin .loop mem start 0 ⟨0, 0, []⟩ = some (collect xs, s, c))
    (hend : fin ≤ s ∨ b64.Closes c) :
    decodeTo b64 flag fin start mem = some
      (if Whole xs then (((collect xs).written.length : Int), (collect xs).written)
      else (-((s - start : Nat) : Int), (collect xs).written)) := by
  have hnot : ¬ (s < fin ∧ c ≠ 0 ∧ c ≠ b64.etab 64) := by
    rintro ⟨hs, hzero, hne⟩
    rcases hend with hle | hc
    · omega
    · exact (closes_eq T hc).elim hzero hne
  rw [decodeTo, hscan, Option.map_some]
  dsimp only
  rw [if_congr ((or_iff_right hnot).trans (collect_rejects xs)) rfl rfl, ite_not]

end

/-! ## behind the range -/

section
variable {b64 : base64_t} {flag fin : Nat}

/-- what the inner loops skip -/
def base64_t.Ignores (b64 : base64_t) (flag : Nat) (c : BYTE) : Prop :=
  b64.Other c ∧ (flag &&& BASE64_IGNORE_NON_ALPHABET ≠ 0 ∨ isspace c)

instance (flag : Nat) (c : BYTE) : Decidable (b64.Ignores flag c) :=
  inferInstanceAs (Decidable (_ ∧ _))

/-- the symbol, if there is one, that an inner loop meets -/
def beyond (b64 : base64_t) (flag : Nat) (behind : ByteArray) : Option (List Nat) :=
  match behind.dropWhile fun c => b64.Ignores flag c with
  | [] => none
  | c :: _ => some (b64.sextets [c])

theorem skipping_ne : skipping flag ≠ .loop := by
  unfold skipping
  split
  · exact Reading.noConfusion
  · exact Reading.noConfusion

theorem skipping_next (x : BYTE) : (skipping flag).next flag x =
    if flag &&& BASE64_IGNORE_NON_ALPHABET ≠ 0 ∨ isspace x then some (skipping flag) else none := by
  unfold skipping
  by_cases hnon : flag &&& BASE64_IGNORE_NON_ALPHABET ≠ 0
  · rw [if_pos hnon, if_pos (.inl hnon)]
    rfl
  · rw [if_neg hnon]
    exact (if_congr (or_iff_right hnon) rfl rfl).symm

/-- **Behind the range** at most one symbol is read. -/
theorem scanTo_beyond : ∀ (behind : ByteArray) {s : Nat} (c : BYTE) (st : Decoding), fin ≤ s →
    (beyond b64 flag behind = none →
      scanTo b64 flag fin (skipping flag) behind s c st = none) ∧
    ∀ xs, beyond b64 flag behind = some xs → ∃ s' c', s < s' ∧
      scanTo b64 flag fin (skipping flag) behind s c st = some (xs.foldl Decoding.put st, s', c')
  | [], s, c, st, _ =>
    ⟨fun _ => scanTo_nil _ _ _ fun h => absurd h skipping_ne, fun xs hxs => by cases hxs⟩
  | x :: behind, s, c, st, hs => by
    have hin : skipping flag = .loop → s < fin := fun h => absurd h skipping_ne
    by_cases hskip : b64.Ignores flag x
    · have hbeyond : beyond b64 flag (x :: behind) = beyond b64 flag behind := by
        rw [beyond, List.dropWhile_cons, if_pos (decide_eq_true hskip), beyond]
      obtain ⟨hnone, hsome⟩ := scanTo_beyond behind x st (hs.trans (Nat.le_succ s))
      rw [hbeyond, scanTo_other flag behind c st hin hskip.1, skipping_next, if_pos hskip.2]
      refine ⟨hnone, fun xs hxs => ?_⟩
      obtain ⟨s', c', hlt, hscan⟩ := hsome xs hxs
      exact ⟨s', c', by omega, hscan⟩
    · have hbeyond : beyond b64 flag (x :: behind) = some (b64.sextets [x]) := by
        rw [beyond, List.dropWhile_cons, if_neg (by simp [hskip])]
      rw [hbeyond]
      refine ⟨fun h => absurd h (Option.some_ne_none _), fun xs hxs => ?_⟩
      obtain rfl := Option.some.inj hxs
      rcases b64.kinds x with hx | hx | hx
      · refine ⟨s + 1, x, Nat.lt_succ_self s, ?_⟩
        rw [scanTo_closes flag behind c st hin hx, sextets_other [] fun h => h.not_closes hx]
        rfl
      · refine ⟨s + 1, x, Nat.lt_succ_self s, ?_⟩
        rw [scanTo_symbol flag behind c st hin hx, sextets_symbol [] hx,
          scanTo_stop _ _ _ _ _ _ (hs.trans (Nat.le_succ s))]
        rfl
      · refine ⟨s + 1, x, Nat.lt_succ_self s, ?_⟩
        rw [scanTo_other flag behind c st hin hx, skipping_next, if_neg fun h => hskip ⟨hx, h⟩,
          sextets_other [] hx.not_symbol]
        rfl

end

/-! ## the result, by the range -/

instance (b64 : base64_t) (x y : BYTE) : Decidable (Skips b64 x y) :=
  inferInstanceAs (Decidable (_ → _ → _))

instance (b64 : base64_t) (flag : Nat) (l : ByteArray) : Decidable (Passes b64 flag l) :=
  inferInstanceAs (Decidable (if flag &&& BASE64_IGNORE_NON_ALPHABET ≠ 0 then True
    else if flag &&& BASE64_IGNORE_SPACE ≠ 0 then l.IsChain (Skips b64)
    else ∀ c ∈ l, ¬ b64.Other c))

instance (b64 : base64_t) (flag : Nat) (range : ByteArray) :
    Decidable (RunsOff b64 flag range) :=
  inferInstanceAs (Decidable (_ ∧ _ ∧ _ ∧ _))

/-- the symbols that are read -/
def seen (b64 : base64_t) (flag : Nat) (range behind : ByteArray) : Option (List Nat) :=
  if RunsOff b64 flag range then (beyond b64 flag behind).map (b64.sextets range ++ ·)
  else some (b64.sextets (b64.cut range))

/-- the range up to its last place -/
def base64_t.early (b64 : base64_t) (range : ByteArray) : ByteArray := b64.cut range.dropLast

section
variable {b64 : base64_t} {flag : Nat} {range behind : ByteArray}

theorem scanTo_seen (hpass : Passes b64 flag (b64.early range)) :
    (seen b64 flag range behind = none →
      scanTo b64 flag range.length .loop (range ++ behind) 0 0 ⟨0, 0, []⟩ = none) ∧
    ∀ xs, seen b64 flag range behind = some xs → ∃ s c,
      scanTo b64 flag range.length .loop (range ++ behind) 0 0 ⟨0, 0, []⟩
        = some (collect xs, s, c) ∧ (range.length ≤ s ∨ b64.Closes c) := by
  have hclear := (clear_iff range.dropLast).mpr hpass
  by_cases hoff : RunsOff b64 flag range
  · obtain ⟨c', hscan⟩ := scanTo_left range .loop 0 0 ⟨0, 0, []⟩ (.inl rfl)
      ((leaves_iff range).mpr hoff)
    rw [Nat.zero_add] at hscan
    obtain ⟨hnone, hsome⟩ := @scanTo_beyond b64 flag range.length behind _ c'
      ((b64.sextets range).foldl Decoding.put ⟨0, 0, []⟩) le_rfl
    rw [seen, if_pos hoff, hscan]
    refine ⟨fun h => hnone (Option.map_eq_none_iff.mp h), fun xs hxs => ?_⟩
    obtain ⟨ys, hys, rfl⟩ := Option.map_eq_some_iff.mp hxs
    obtain ⟨s, c, hlt, hbehind⟩ := hsome ys hys
    refine ⟨s, c, ?_, .inl hlt.le⟩
    rw [hbehind, collect, List.foldl_append]
  · obtain ⟨s, c, hscan, hend⟩ := scanTo_inside range .loop 0 0 ⟨0, 0, []⟩ hclear
      fun h => hoff ((leaves_iff range).mp h)
    rw [Nat.zero_add] at hscan hend
    rw [seen, if_neg hoff]
    refine ⟨fun h => absurd h (Option.some_ne_none _), fun xs hxs => ?_⟩
    obtain rfl := Option.some.inj hxs
    exact ⟨s, c, hscan behind, hend⟩

/-- nothing is put without a character that is read -/
theorem scanTo_advance {fin : Nat} : ∀ (mem : ByteArray) (reading : Reading) (s : Nat) (c : BYTE)
    (st : Decoding) {t : Decoding × Nat × BYTE}, scanTo b64 flag fin reading mem s c st = some t →
    s ≤ t.2.1 ∧ (t.1 = st ∨ s < t.2.1)
  | [], reading, s, c, st, t, h => by
    cases (Option.ite_none_right_eq_some.mp h).2
    exact ⟨le_rfl, .inl rfl⟩
  | x :: mem, reading, s, c, st, t, h => by
    by_cases hstop : reading.tests = true ∧ fin ≤ s
    · rw [scanTo, if_pos hstop] at h
      cases h
      exact ⟨le_rfl, .inl rfl⟩
    have hs : reading = .loop → s < fin := by
      rintro rfl
      exact Nat.lt_of_not_le fun hle => hstop ⟨rfl, hle⟩
    rcases b64.kinds x with hx | hx | hx
    · rw [scanTo_closes flag mem c st hs hx] at h
      cases h
      exact ⟨Nat.le_succ s, .inl rfl⟩
    · rw [scanTo_symbol flag mem c st hs hx] at h
      have hle := (scanTo_advance mem .loop (s + 1) x _ h).1
      exact ⟨by omega, .inr (by omega)⟩
    · rw [scanTo_other flag mem c st hs hx] at h
      cases hnext : reading.next flag x with
      | none =>
        rw [hnext] at h
        cases h
        exact ⟨Nat.le_succ s, .inl rfl⟩
      | some m =>
        rw [hnext] at h
        have hle := (scanTo_advance mem m (s + 1) x st h).1
        exact ⟨by omega, .inr (by omega)⟩

variable (T : b64.Paired)
include T

/-- **A character that is not skipped**, before the last place: an error. -/
theorem decode_blocked (hpass : ¬ Passes b64 flag (b64.early range)) :
    ∃ (s : Nat) (out : ByteArray), 0 < s ∧
      ∀ behind, base64_decode_in b64 flag (range ++ behind) range.length = some (-(s : Int), out) := by
  obtain ⟨st, s, c, hscan, hlt, hs, hc⟩ := scanTo_blocked range .loop 0 0 ⟨0, 0, []⟩
    fun h => hpass ((clear_iff range.dropLast).mp h)
  rw [Nat.zero_add] at hscan hs
  exact ⟨s, st.written, hlt, fun behind => decodeTo_bad T (hscan behind) hs hc⟩

/-- **The symbols decide**, where all others are skipped. -/
theorem decode_seen (hpass : Passes b64 flag (b64.early range)) {xs : List Nat}
    (hxs : seen b64 flag range behind = some xs) :
    ∃ s : Nat, (¬ Whole xs → 0 < s) ∧
      base64_decode_in b64 flag (range ++ behind) range.length = some
        (if Whole xs then (((collect xs).written.length : Int), (collect xs).written)
        else (-(s : Int), (collect xs).written)) := by
  obtain ⟨s, c, hscan, hend⟩ := (scanTo_seen hpass).2 xs hxs
  refine ⟨s, fun hwhole => ?_, decodeTo_collect T hscan hend⟩
  refine (scanTo_advance _ _ _ _ _ hscan).2.resolve_left fun hnil => ?_
  have hrejects := (collect_rejects xs).mpr hwhole
  rw [show collect xs = ⟨0, 0, []⟩ from hnil] at hrejects
  exact absurd hrejects (by decide)

/-- **What is accepted.** -/
theorem decode_nonneg : (∃ n out, base64_decode_in b64 flag (range ++ behind) range.length
      = some (n, out) ∧ 0 ≤ n) ↔
    Passes b64 flag (b64.early range) ∧ ∃ xs, seen b64 flag range behind = some xs ∧ Whole xs := by
  by_cases hpass : Passes b64 flag (b64.early range)
  · rw [and_iff_right hpass]
    cases hseen : seen b64 flag range behind with
    | none =>
      have hnone : base64_decode_in b64 flag (range ++ behind) range.length = none := by
        rw [base64_decode_in, decodeTo, (scanTo_seen hpass).1 hseen, Option.map_none]
      rw [hnone]
      constructor
      · rintro ⟨n, out, h, -⟩
        cases h
      · rintro ⟨xs, h, -⟩
        cases h
    | some xs =>
      obtain ⟨s, hpos, hdecode⟩ := decode_seen T hpass hseen
      rw [hdecode]
      by_cases hwhole : Whole xs
      · rw [if_pos hwhole]
        exact iff_of_true ⟨_, _, rfl, Int.natCast_nonneg _⟩ ⟨xs, rfl, hwhole⟩
      · have hs := hpos hwhole
        rw [if_neg hwhole]
        constructor
        · rintro ⟨n, out, h, hn⟩
          cases h
          omega
        · rintro ⟨ys, h, hys⟩
          cases h
          exact absurd hys hwhole
  · obtain ⟨s, out, hs, hdecode⟩ := decode_blocked T hpass
    rw [hdecode behind]
    refine iff_of_false ?_ fun h => hpass h.1
    rintro ⟨n, out', h, hn⟩
    cases h
    omega

end

/-! ## the grammar -/

section
variable (b64 : base64_t) (flag : Nat) (range behind : ByteArray)

/-- symbols only, and no bits left over -/
def Grammar (l : ByteArray) : Prop := (∀ c ∈ l, b64.Symbol c) ∧ Whole (l.map b64.value)

/-- the characters that the grammar is about -/
def text : ByteArray :=
  if flag &&& BASE64_IGNORE_SPACE ≠ 0 then (b64.cut range).filter fun c => ¬ isspace c
  else b64.cut range

/-- what is returned tells the text of the grammar from any other, of which it is the number of
characters that were read -/
def Exact : Prop := ∃ t n out,
  scanTo b64 flag range.length .loop (range ++ behind) 0 0 ⟨0, 0, []⟩ = some t ∧
  base64_decode_in b64 flag (range ++ behind) range.length = some (n, out) ∧
  (0 ≤ n ↔ Grammar b64 (text b64 flag range)) ∧
  (¬ Grammar b64 (text b64 flag range) → n = -(t.2.1 : Int))

/-- symbols and white space -/
def base64_t.Spaced (l : ByteArray) : Prop := ∀ c ∈ l, b64.Symbol c ∨ isspace c = true

instance (l : ByteArray) : Decidable (b64.Spaced l) :=
  inferInstanceAs (Decidable (∀ c ∈ l, b64.Symbol c ∨ isspace c = true))

variable {b64 flag range behind}

theorem clear_dropLast : ∀ (r : ByteArray) (reading : Reading), Clear b64 flag reading r →
    Clear b64 flag reading r.dropLast
  | [], _, h => h
  | x :: r, reading, h => by
    rcases b64.kinds x with hx | hx | hx
    · exact clear_closes r hx
    · exact (clear_symbol r hx).mpr (clear_dropLast r .loop ((clear_cons_symbol r hx).mp h))
    · obtain ⟨m, hm, hrest⟩ := (clear_cons_other r hx).mp h
      exact (clear_other r hx hm).mpr (clear_dropLast r m hrest)

theorem RunsOff.passes (hoff : RunsOff b64 flag range) : Passes b64 flag (b64.early range) := by
  refine (clear_iff range.dropLast).mp (clear_dropLast range .loop ((clear_iff range).mpr ?_))
  rw [cut_eq hoff.2.1]
  exact hoff.2.2.1

theorem RunsOff.seen (hoff : RunsOff b64 flag range) : seen b64 flag range behind
    = (beyond b64 flag behind).map (b64.sextets range ++ ·) := if_pos hoff

theorem seen_inside (hoff : ¬ RunsOff b64 flag range) :
    seen b64 flag range behind = some (b64.sextets (b64.cut range)) := if_neg hoff

theorem decode_in_some {n : Int} {out : ByteArray}
    (h : base64_decode_in b64 flag (range ++ behind) range.length = some (n, out)) :
    ∃ t, scanTo b64 flag range.length .loop (range ++ behind) 0 0 ⟨0, 0, []⟩ = some t ∧
      (¬ 0 ≤ n → n = -(t.2.1 : Int)) := by
  obtain ⟨⟨st, s, c⟩, hscan, ht⟩ := Option.map_eq_some_iff.mp h
  refine ⟨_, hscan, fun hn => ?_⟩
  dsimp only at ht
  split at ht
  · exact (congrArg Prod.fst ht).symm
  · have hlen : (st.written.length : Int) = n := congrArg Prod.fst ht
    exact absurd (hlen ▸ Int.natCast_nonneg _) hn

theorem decode_in_defined (T : b64.Paired) :
    (∃ n out, base64_decode_in b64 flag (range ++ behind) range.length = some (n, out)) ↔
      ∃ xs, seen b64 flag range behind = some xs := by
  by_cases hpass : Passes b64 flag (b64.early range)
  · constructor
    · rintro ⟨n, out, h⟩
      refine Option.ne_none_iff_exists'.mp fun hnone => ?_
      obtain ⟨t, ht, -⟩ := decode_in_some h
      rw [(scanTo_seen hpass).1 hnone] at ht
      cases ht
    · rintro ⟨xs, hxs⟩
      obtain ⟨s, -, hdecode⟩ := decode_seen T hpass hxs
      exact ⟨_, _, hdecode⟩
  · obtain ⟨s, out, -, hdecode⟩ := decode_blocked T hpass
    exact iff_of_true ⟨_, _, hdecode behind⟩ ⟨_, seen_inside fun hoff => hpass hoff.passes⟩

/-- **Exactly the grammar**, in terms of the symbols. -/
theorem exact_iff (T : b64.Paired) : Exact b64 flag range behind ↔
    (∃ xs, seen b64 flag range behind = some xs) ∧
      ((Passes b64 flag (b64.early range) ∧
        ∃ xs, seen b64 flag range behind = some xs ∧ Whole xs) ↔
          Grammar b64 (text b64 flag range)) := by
  rw [← decode_nonneg T, ← decode_in_defined T]
  have hnonneg : ∀ {n : Int} {out : ByteArray},
      base64_decode_in b64 flag (range ++ behind) range.length = some (n, out) →
      ((∃ n out, base64_decode_in b64 flag (range ++ behind) range.length = some (n, out) ∧ 0 ≤ n)
        ↔ 0 ≤ n) := by
    intro n out hdecode
    refine ⟨?_, fun hn => ⟨n, out, hdecode, hn⟩⟩
    rintro ⟨n', out', h, hn⟩
    rw [hdecode] at h
    cases h
    exact hn
  constructor
  · rintro ⟨t, n, out, -, hdecode, hiff, -⟩
    exact ⟨⟨n, out, hdecode⟩, (hnonneg hdecode).trans hiff⟩
  · rintro ⟨⟨n, out, hdecode⟩, hiff⟩
    obtain ⟨t, ht, hneg⟩ := decode_in_some hdecode
    have hn := (hnonneg hdecode).symm.trans hiff
    exact ⟨t, n, out, ht, hdecode, hn, fun hnot => hneg fun h => hnot (hn.mp h)⟩

theorem early_cut : ∀ r : ByteArray, b64.early r <+: b64.cut r
  | [] => List.prefix_rfl
  | [x] => List.nil_prefix
  | x :: y :: r => by
    unfold base64_t.early
    rw [List.dropLast_cons_cons]
    by_cases hx : b64.Closes x
    · rw [cut_closes _ hx]
      exact List.nil_prefix
    · rw [cut_other _ hx, cut_other _ hx]
      exact List.cons_prefix_cons.mpr ⟨rfl, early_cut (y :: r)⟩

theorem symbol_exists (T : b64.Paired) {c : BYTE} (hc : b64.Symbol c) :
    ∃ x < 64, b64.etab x = c := by
  by_contra hne
  push Not at hne
  by_cases h64 : b64.etab 64 = c
  · have hlt := hc.2
    rw [← h64, T.symbol 64 (by decide)] at hlt
    exact absurd hlt (lt_irrefl 64)
  · have h65 := T.other c fun x hx => by
      rcases Nat.lt_succ_iff_lt_or_eq.mp hx with hlt | rfl
      · exact hne x hlt
      · exact h64
    exact absurd hc.2 (by omega)

theorem sextets_symbols {l : ByteArray} (h : ∀ c ∈ l, b64.Symbol c) :
    b64.sextets l = l.map b64.value := by
  rw [base64_t.sextets, List.filter_eq_self.mpr fun c hc => decide_eq_true (h c hc)]

theorem grammar_strict (l : ByteArray) :
    Grammar b64 l ↔ (∀ c ∈ l, b64.Symbol c) ∧ Whole (b64.sextets l) :=
  and_congr_right fun h => by rw [sextets_symbols h]

/-- no symbol is white space -/
theorem grammar_spaced (hspace : ∀ c, b64.Symbol c → ¬ isspace c = true) (l : ByteArray) :
    Grammar b64 (l.filter fun c => ¬ isspace c) ↔ b64.Spaced l ∧ Whole (b64.sextets l) := by
  have hfilter : b64.sextets (l.filter fun c => ¬ isspace c) = b64.sextets l := by
    unfold base64_t.sextets
    rw [List.filter_filter]
    refine congrArg _ (List.filter_congr fun c _ => ?_)
    by_cases hc : b64.Symbol c
    · simp [hc, hspace c hc]
    · simp [hc]
  rw [grammar_strict, hfilter]
  refine and_congr_left' ⟨fun h c hc => ?_, fun h c hc => ?_⟩
  · by_cases hsp : isspace c = true
    · exact .inr hsp
    · exact .inl (h c (List.mem_filter.mpr ⟨hc, decide_eq_true hsp⟩))
  · obtain ⟨hc, hsp⟩ := List.mem_filter.mp hc
    exact (h c hc).resolve_right (of_decide_eq_true hsp)

theorem Spaced.chain {l : ByteArray} (h : b64.Spaced l) : l.IsChain (Skips b64) := by
  refine List.isChain_iff_forall_rel_of_append_cons_cons.mpr fun x y l₁ l₂ heq _ hy => ?_
  have hmem : y ∈ l := by rw [heq]; simp
  exact (h y hmem).resolve_left hy.not_symbol

end

/-- the two tables of the source -/
theorem table_paired {b64 : base64_t} (hb : b64 = std_base64 ∨ b64 = url_base64) :
    b64.Paired ∧ ∀ c, b64.Symbol c → ¬ isspace c = true := by
  rcases hb with rfl | rfl
  · refine ⟨std_paired, fun c hc => ?_⟩
    obtain ⟨x, hx, rfl⟩ := symbol_exists std_paired hc
    exact (by decide +kernel : ∀ x < 64, ¬ isspace (std_base64.etab x) = true) x hx
  · refine ⟨url_base64_paired, fun c hc => ?_⟩
    obtain ⟨x, hx, rfl⟩ := symbol_exists url_base64_paired hc
    exact (by decide +kernel : ∀ x < 64, ¬ isspace (url_base64.etab x) = true) x hx

theorem exact_strict {b64 : base64_t} (T : b64.Paired) (range behind : ByteArray) :
    Exact b64 0 range behind ↔ (∃ c ∈ b64.early range, b64.Other c) ∨
      ¬ Whole (b64.sextets (b64.cut range)) ∨ ∀ c ∈ b64.cut range, b64.Symbol c := by
  have hpasses : ∀ l, Passes b64 0 l ↔ ∀ c ∈ l, ¬ b64.Other c := fun l => Iff.rfl
  have hoff : ¬ RunsOff b64 0 range := by
    rintro ⟨hne, _, hpass, hlast⟩
    have hmem := List.getLast_mem hne
    exact hpass _ hmem (hlast _ (List.getLast?_eq_some_getLast hne))
  rw [exact_iff T, seen_inside hoff, hpasses]
  have htext : text b64 0 range = b64.cut range := rfl
  rw [htext, grammar_strict]
  have hearly : (∀ c ∈ b64.cut range, b64.Symbol c) → ∀ c ∈ b64.early range, ¬ b64.Other c :=
    fun h c hc hother => hother.not_symbol (h c ((early_cut range).subset hc))
  have hsome : (∃ c ∈ b64.early range, b64.Other c) ↔ ¬ ∀ c ∈ b64.early range, ¬ b64.Other c := by
    push Not
    rfl
  simp only [Option.some.injEq, exists_eq', true_and, exists_eq_left']
  rw [hsome]
  tauto

/-- where white space is ignored, also what is read behind the range -/
theorem exact_spaced {b64 : base64_t} (T : b64.Paired)
    (hspace : ∀ c, b64.Symbol c → ¬ isspace c = true) (range behind : ByteArray) :
    Exact b64 BASE64_IGNORE_SPACE range behind ↔
      ¬ (b64.early range).IsChain (Skips b64) ∨
      ¬ RunsOff b64 BASE64_IGNORE_SPACE range ∧
        (b64.Spaced (b64.cut range) ∨ ¬ Whole (b64.sextets (b64.cut range))) ∨
      RunsOff b64 BASE64_IGNORE_SPACE range ∧
        ∃ ys, beyond b64 BASE64_IGNORE_SPACE behind = some ys ∧
          if b64.Spaced range then
            (Whole (b64.sextets range ++ ys) ↔ Whole (b64.sextets range))
          else ¬ Whole (b64.sextets range ++ ys) := by
  have hpasses : ∀ l, Passes b64 BASE64_IGNORE_SPACE l ↔ l.IsChain (Skips b64) := fun l => Iff.rfl
  have htext : text b64 BASE64_IGNORE_SPACE range
    = (b64.cut range).filter fun c => ¬ isspace c := rfl
  have hchain : b64.Spaced (b64.cut range) → (b64.early range).IsChain (Skips b64) :=
    fun h => Spaced.chain fun c hc => h c ((early_cut range).subset hc)
  rw [exact_iff T, htext, grammar_spaced hspace]
  by_cases hoff : RunsOff b64 BASE64_IGNORE_SPACE range
  · have hpass : (b64.early range).IsChain (Skips b64) := hoff.passes
    rw [hoff.seen, cut_eq hoff.2.1, hpasses]
    cases beyond b64 BASE64_IGNORE_SPACE behind with
    | none => simp [hpass, hoff]
    | some ys =>
      simp only [Option.map_some, Option.some.injEq, exists_eq', true_and, exists_eq_left', hpass,
        hoff, not_true, false_and, false_or]
      split
      · tauto
      · tauto
  · rw [seen_inside hoff, hpasses]
    simp only [Option.some.injEq, exists_eq', true_and, exists_eq_left', hoff, not_false_eq_true,
      false_and, or_false]
    tauto

end Netwb
