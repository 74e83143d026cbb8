import Netwb.Net.Receive
import Netwb.Lib.Run

/-!
# Any calls of the parser

`feedPack`, `nextPackage`, `ajust` and `reset` in any order, drained or not, without a cipher.
Beside the parser a run keeps what was fed and what was handed over since the last reset
(`ParserTrace`).

* `parser_good`       the two indices stay in the buffer in their order, in every run;
* `packages_bound`    the loop of `onDataReceived` hands over at most one package for every twelve
                      bytes between them;
* `parser_conserves`  the packages handed over and the live bytes are what was fed, and every range
                      that is copied or handed over lies in its buffer, in any run in which each
                      package that is taken starts at a place that `decode` can address.
-/

namespace Netwb
open Wire Framing Vec

/-- the twelve bytes of the header and the content of a package -/
def NetPackage.raw (p : NetPackage) : ByteArray := p.m_pkgHeader.bytes ++ p.m_pkgContent

theorem raw_ofBytes {f : ByteArray} (h : 12 ≤ f.length) : (NetPackage.ofBytes f).raw = f := by
  show (NetPackageHeader.ofBytes (f.take 12)).bytes ++ f.drop 12 = f
  rw [bytes_ofBytes (by rw [List.length_take]; omega), List.take_append_drop]

/-! ## the number of packages in a loop -/

/-- a package that was taken moves the index by twelve bytes at least -/
theorem nextPackage_takes (o : ByteOrder) (wild : Int → BYTE) {p p' : NetPackageParser}
    {pkg : NetPackage} {b : Bool} (h : p.nextPackage o wild = (p', some pkg, b)) :
    p'.m_dataLen - p'.m_dataIndex + 12 ≤ p.m_dataLen - p.m_dataIndex := by
  unfold NetPackageParser.nextPackage at h
  split at h
  · dsimp only at h
    split at h
    · cases h
    · rename_i hv
      split at h
      · injection h with h1 _
        rw [← h1]
        show p.m_dataLen - (p.m_dataIndex + _) + 12 ≤ p.m_dataLen - p.m_dataIndex
        simp only [NET_PACKAGE_HEADER_LENGTH, not_or] at *
        omega
      · cases h
  · cases h

/-- **A loop that takes packages until there is none ends after one for every twelve bytes.** -/
theorem packages_bound (o : ByteOrder) (wild : Int → BYTE) (throws : Nat → Bool)
    (p : NetPackageParser) (k : Nat) :
    (p.packages o wild throws k).2.1.length ≤ (p.m_dataLen - p.m_dataIndex) / 12 := by
  induction p, k using NetPackageParser.packages.induct o wild throws with
  | case1 p k p' b hnext =>
    rw [packages_none o wild throws k hnext]
    exact Nat.zero_le _
  | case2 p k p' pkg b hnext ht =>
    have hlt := nextPackage_takes o wild hnext
    rw [packages_some o wild throws k hnext, if_pos ht]
    show 1 ≤ _
    omega
  | case3 p k p' pkg b hnext ht ih =>
    have hlt := nextPackage_takes o wild hnext
    rw [packages_some o wild throws k hnext, if_neg ht]
    show (p'.packages o wild throws (k + 1)).2.1.length + 1 ≤ _
    omega

/-! ## calls and runs -/

inductive ParserCall where
  | feedPack (data : ByteArray) (len : Nat)
  | nextPackage
  | ajust
  | reset

/-- a length within the data -/
def ParserCall.WellFormed : ParserCall → Prop
  | .feedPack data len => len ≤ data.length
  | _ => True

instance : ∀ c, Decidable (ParserCall.WellFormed c)
  | .feedPack _ _ => inferInstanceAs (Decidable (_ ≤ _))
  | .nextPackage => .isTrue trivial
  | .ajust => .isTrue trivial
  | .reset => .isTrue trivial

/-- the number of bytes that a call feeds -/
def ParserCall.fedLen : ParserCall → Nat
  | .feedPack _ len => len
  | _ => 0

/-- a parser, and what was fed to it and handed over by it since the last reset -/
structure ParserTrace where
  parser : NetPackageParser
  fed : ByteArray
  taken : List NetPackage

namespace ParserTrace

def fresh : ParserTrace := ⟨.fresh, [], []⟩

/-- the bytes that were handed over -/
def takenBytes (s : ParserTrace) : ByteArray := (s.taken.map NetPackage.raw).flatten

section
variable (o : ByteOrder) (wild : Int → BYTE)

def step (s : ParserTrace) : ParserCall → Option ParserTrace
  | .feedPack data len =>
    some ⟨s.parser.feedPack wild data len, s.fed ++ data.take len, s.taken⟩
  | .nextPackage =>
    match s.parser.nextPackage o wild with
    | (p, some pkg, _) => some ⟨p, s.fed, s.taken ++ [pkg]⟩
    | (p, none, true) => some ⟨p, [], []⟩
    | (p, none, false) => some ⟨p, s.fed, s.taken⟩
  | .ajust => some { s with parser := s.parser.ajust wild }
  | .reset => some ⟨s.parser.reset, [], []⟩

/-- the ranges of the `memcpy` in `ajust` -/
def ajustSpans (p : NetPackageParser) : List Span :=
  let m_dataLen := p.m_dataLen - p.m_dataIndex
  if p.m_dataIndex > 0 ∧ m_dataLen > 0 then
    [⟨p.m_dataIndex, m_dataLen, p.m_dataBuf.length⟩, ⟨0, m_dataLen, p.m_dataBuf.length⟩]
  else []

/-- the words that `decode` reads at a position, and the content behind them -/
def packageSpans (nPos : Int) (pkgLength size : Nat) : List Span :=
  let p4 := toInt32 (nPos + 4)
  let p8 := toInt32 (p4 + 4)
  let p10 := toInt32 (p8 + 2)
  [⟨nPos, 4, size⟩, ⟨p4, 4, size⟩, ⟨p8, 2, size⟩, ⟨p10, 2, size⟩,
   ⟨toInt32 (p10 + 2), pkgLength - NET_PACKAGE_HEADER_LENGTH, size⟩]

/-- the ranges that a call copies, reads or hands over -/
def spans (s : ParserTrace) : ParserCall → List Span
  | .feedPack data len =>
    if len = 0 then []
    else [⟨0, len, data.length⟩,
      ⟨s.parser.m_dataLen, len, (s.parser.feedPack wild data len).m_dataBuf.length⟩]
  | .nextPackage =>
    let p := s.parser
    let m_length : List Span :=
      if NET_PACKAGE_HEADER_LENGTH ≤ p.m_dataLen - p.m_dataIndex then
        [⟨p.m_dataIndex, 4, p.m_dataBuf.length⟩]
      else []
    m_length ++
      match plainLook p.live with
      | .msg n => packageSpans (toInt32 p.m_dataIndex) n p.m_dataBuf.length
      | .more => if p.m_dataIndex > 0 then ajustSpans p else []
      | .bad => []
  | .ajust => ajustSpans s.parser
  | .reset => []

end

/-- a package that is taken starts at a place that `decode` can address -/
def InReach (s : ParserTrace) : ParserCall → Prop
  | .nextPackage =>
    match plainLook s.parser.live with
    | .msg n => Fits s.parser.m_dataIndex n
    | _ => True
  | _ => True

/-- what was handed over and the live bytes are what was fed -/
structure Conserved (s : ParserTrace) : Prop where
  good : s.parser.Good
  bytes : s.takenBytes ++ s.parser.live = s.fed

/-! ## one call -/

section
variable {o : ByteOrder} {wild : Int → BYTE}

theorem step_good {s s' : ParserTrace} {c : ParserCall} (h : s.parser.Good)
    (hw : c.WellFormed) (hs : s.step o wild c = some s') : s'.parser.Good := by
  cases c with
  | feedPack data len =>
    cases hs
    exact (feedPack_live wild h data len hw).1
  | nextPackage =>
    have hlooked := nextPackage_looked o wild h
    rw [step] at hs
    generalize s.parser.nextPackage o wild = r at hlooked hs
    cases hlooked with
    | more _ g _ _ =>
      cases hs
      exact g
    | bad _ =>
      cases hs
      exact good_reset s.parser
    | msg _ _ g _ =>
      cases hs
      exact g
  | ajust =>
    cases hs
    exact (ajust_live wild h).1
  | reset =>
    cases hs
    exact good_reset s.parser

/-- **What a call feeds or hands over is accounted for.** -/
theorem step_conserves {s s' : ParserTrace} {c : ParserCall} (h : Conserved s)
    (hw : c.WellFormed) (hr : InReach s c) (hs : s.step o wild c = some s') : Conserved s' := by
  have hg := h.good
  refine ⟨step_good hg hw hs, ?_⟩
  cases c with
  | feedPack data len =>
    cases hs
    show s.takenBytes ++ (s.parser.feedPack wild data len).live = s.fed ++ data.take len
    rw [(feedPack_live wild hg data len hw).2.1, ← List.append_assoc, h.bytes]
  | nextPackage =>
    have hlooked := nextPackage_looked o wild hg
    rw [step] at hs
    rw [InReach] at hr
    generalize s.parser.nextPackage o wild = r at hlooked hs
    cases hlooked with
    | @more p' _ _ hlive _ =>
      cases hs
      show s.takenBytes ++ p'.live = s.fed
      rw [hlive, h.bytes]
    | bad _ =>
      cases hs
      exact live_reset s.parser
    | @msg n p' hl _ _ hlive =>
      rw [hl] at hr
      cases hs
      obtain ⟨_, h12, _, hle, _⟩ := plainLook_msg hl
      have hll := live_length hg
      have hlen := hg.len_le
      have hi := hg.index_le
      have htake := live_take s.parser n (by omega)
      have hraw : (readAt o wild s.parser.m_dataBuf s.parser.m_dataIndex n).raw
          = s.parser.live.take n := by
        rw [readAt_frame o wild _ _ n h12 (by omega) hr, ← htake, raw_ofBytes (by
          rw [List.length_take]
          omega)]
      show ((s.taken ++ [_]).map NetPackage.raw).flatten ++ p'.live = s.fed
      rw [hlive, List.map_append, List.flatten_append, List.map_singleton,
        List.flatten_singleton, hraw, List.append_assoc, List.take_append_drop]
      exact h.bytes
  | ajust =>
    cases hs
    show s.takenBytes ++ (s.parser.ajust wild).live = s.fed
    rw [(ajust_live wild hg).2.1, h.bytes]
  | reset =>
    cases hs
    exact live_reset s.parser

/-- only what is fed makes the used part of the buffer longer -/
theorem step_dataLen {s s' : ParserTrace} {c : ParserCall} (hs : s.step o wild c = some s') :
    s'.parser.m_dataLen ≤ s.parser.m_dataLen + c.fedLen := by
  have hajust : (s.parser.ajust wild).m_dataLen ≤ s.parser.m_dataLen := by
    unfold NetPackageParser.ajust
    split <;> exact Nat.sub_le _ _
  cases c with
  | feedPack data len =>
    cases hs
    show (s.parser.feedPack wild data len).m_dataLen ≤ _
    unfold NetPackageParser.feedPack
    split
    · exact Nat.le_add_right _ _
    · exact Nat.le_refl _
  | nextPackage =>
    have hnext : (s.parser.nextPackage o wild).1.m_dataLen ≤ s.parser.m_dataLen := by
      have hmore : (if s.parser.m_dataIndex > 0 then s.parser.ajust wild else s.parser).m_dataLen
          ≤ s.parser.m_dataLen := by
        split
        · exact hajust
        · exact Nat.le_refl _
      unfold NetPackageParser.nextPackage
      split
      · dsimp only
        split
        · exact Nat.zero_le _
        · split
          · exact Nat.le_refl _
          · exact hmore
      · exact hmore
    rw [step] at hs
    split at hs
    all_goals
      rename_i e
      rw [e] at hnext
      cases hs
      exact hnext
  | ajust =>
    cases hs
    exact hajust
  | reset =>
    cases hs
    exact Nat.zero_le _

theorem ajustSpans_inside {p : NetPackageParser} (h : p.Good) :
    ∀ r ∈ ajustSpans p, r.Inside := by
  have hi := h.index_le
  have hl := h.len_le
  intro r hr
  unfold ajustSpans at hr
  dsimp only at hr
  split at hr
  · rcases List.mem_cons.mp hr with rfl | hr
    · exact .inr ⟨by dsimp only; omega, by dsimp only; omega⟩
    · rcases List.mem_singleton.mp hr with rfl
      exact .inr ⟨Int.le_refl _, by dsimp only; omega⟩
  · cases hr

/-- the words of a header and the content behind it, at a place that `decode` can address -/
theorem packageSpans_inside {i n size : Nat} (h12 : 12 ≤ n) (hin : i + n ≤ size)
    (hf : Fits i n) : ∀ r ∈ packageSpans (toInt32 i) n size, r.Inside := by
  have h10 : i + 10 < 2147483648 := by rcases hf with h | h <;> omega
  have e0 : toInt32 (i : Int) = (i : Int) := toInt32_eq (by omega) (by omega)
  have e4 : toInt32 ((i : Int) + 4) = (i : Int) + 4 := toInt32_eq (by omega) (by omega)
  have e8 : toInt32 ((i : Int) + 4 + 4) = (i : Int) + 8 := by rw [toInt32_eq] <;> omega
  have e10 : toInt32 ((i : Int) + 8 + 2) = (i : Int) + 10 := by rw [toInt32_eq] <;> omega
  intro r hr
  simp only [packageSpans, e0, e4, e8, e10, List.mem_cons, List.not_mem_nil, or_false] at hr
  rcases hr with rfl | rfl | rfl | rfl | rfl
  · exact .inr ⟨by dsimp only; omega, by dsimp only; omega⟩
  · exact .inr ⟨by dsimp only; omega, by dsimp only; omega⟩
  · exact .inr ⟨by dsimp only; omega, by dsimp only; omega⟩
  · exact .inr ⟨by dsimp only; omega, by dsimp only; omega⟩
  · rcases hf with h | ⟨_, rfl⟩
    · have e12 : toInt32 ((i : Int) + 10 + 2) = (i : Int) + 12 := by rw [toInt32_eq] <;> omega
      simp only [e12, NET_PACKAGE_HEADER_LENGTH]
      exact .inr ⟨by dsimp only; omega, by dsimp only; omega⟩
    · exact .inl rfl

theorem not_inside {start : Int} {len size : Nat} (hs : start < 0) (hl : len ≠ 0) :
    ¬ (Span.mk start len size).Inside := by
  rintro (h | ⟨h, _⟩)
  · exact hl h
  · dsimp only at h
    omega

/-- up to four gigabytes the condition is exact: any other package is looked for outside -/
theorem packageSpans_outside {i n : Nat} (size : Nat) (h12 : 12 ≤ n) (hi : i < 4294967296)
    (hf : ¬ Fits i n) : ∃ r ∈ packageSpans (toInt32 i) n size, ¬ r.Inside := by
  have hreach : ¬ i + 12 < 2147483648 ∧ (i + 10 < 2147483648 → n ≠ 12) :=
    ⟨fun h => hf (.inl h), fun h e => hf (.inr ⟨h, e⟩)⟩
  obtain ⟨h1, h2⟩ := hreach
  -- the first of the positions that has left the range of `r_int32`
  by_cases h0 : i < 2147483648
  · have e0 : toInt32 (i : Int) = i := toInt32_eq (by omega) (by omega)
    by_cases h4 : i + 4 < 2147483648
    · have e4 : toInt32 ((i : Int) + 4) = (i : Int) + 4 := toInt32_eq (by omega) (by omega)
      by_cases h8 : i + 8 < 2147483648
      · have e8 : toInt32 ((i : Int) + 4 + 4) = (i : Int) + 8 := by rw [toInt32_eq] <;> omega
        by_cases h10 : i + 10 < 2147483648
        · have e10 : toInt32 ((i : Int) + 8 + 2) = (i : Int) + 10 := by rw [toInt32_eq] <;> omega
          refine ⟨⟨toInt32 ((i : Int) + 10 + 2), n - 12, size⟩, ?_, not_inside ?_ ?_⟩
          · simp only [packageSpans, e0, e4, e8, e10]
            exact List.mem_of_getElem? (i := 4) rfl
          · unfold toInt32
            omega
          · have := h2 h10
            omega
        · refine ⟨⟨toInt32 ((i : Int) + 8 + 2), 2, size⟩, ?_, not_inside ?_ (by decide)⟩
          · simp only [packageSpans, e0, e4, e8]
            exact List.mem_of_getElem? (i := 3) rfl
          · unfold toInt32
            omega
      · refine ⟨⟨toInt32 ((i : Int) + 4 + 4), 2, size⟩, ?_, not_inside ?_ (by decide)⟩
        · simp only [packageSpans, e0, e4]
          exact List.mem_of_getElem? (i := 2) rfl
        · unfold toInt32
          omega
    · refine ⟨⟨toInt32 ((i : Int) + 4), 4, size⟩, ?_, not_inside ?_ (by decide)⟩
      · simp only [packageSpans, e0]
        exact List.mem_of_getElem? (i := 1) rfl
      · unfold toInt32
        omega
  · refine ⟨⟨toInt32 i, 4, size⟩, List.mem_cons_self .., not_inside ?_ (by decide)⟩
    unfold toInt32
    omega

/-- **Every range of a call lies in its buffer.** -/
theorem spans_inside {s : ParserTrace} {c : ParserCall} (h : s.parser.Good) (hw : c.WellFormed)
    (hr : InReach s c) : ∀ r ∈ s.spans wild c, r.Inside := by
  have hi := h.index_le
  have hl := h.len_le
  cases c with
  | feedPack data len =>
    have hg := (feedPack_live wild h data len hw).1.len_le
    intro r hm
    rw [spans] at hm
    split at hm
    · cases hm
    · rename_i h0
      have hlen : (s.parser.feedPack wild data len).m_dataLen = s.parser.m_dataLen + len := by
        rw [NetPackageParser.feedPack, if_neg h0]
      rcases List.mem_cons.mp hm with rfl | hm
      · exact .inr ⟨Int.le_refl _, by dsimp only [ParserCall.WellFormed] at hw ⊢; omega⟩
      · rcases List.mem_singleton.mp hm with rfl
        exact .inr ⟨by dsimp only; omega, by dsimp only; omega⟩
  | nextPackage =>
    have hll := live_length h
    intro r hm
    rw [spans] at hm
    rcases List.mem_append.mp hm with hm | hm
    · split at hm
      · rename_i h12
        rcases List.mem_singleton.mp hm with rfl
        simp only [NET_PACKAGE_HEADER_LENGTH] at h12
        exact .inr ⟨by dsimp only; omega, by dsimp only; omega⟩
      · cases hm
    · rw [InReach] at hr
      cases hlook : plainLook s.parser.live with
      | more =>
        rw [hlook] at hm
        dsimp only at hm
        split at hm
        · exact ajustSpans_inside h r hm
        · cases hm
      | bad =>
        rw [hlook] at hm
        cases hm
      | msg n =>
        rw [hlook] at hm hr
        obtain ⟨_, h12, _, hle, _⟩ := plainLook_msg hlook
        exact packageSpans_inside h12 (by omega) hr r hm
  | ajust => exact ajustSpans_inside h
  | reset => exact List.forall_mem_nil _

theorem conserved_fresh : Conserved fresh := ⟨good_fresh, live_fresh⟩

end

/-! ## runs -/

section
variable (o : ByteOrder) (wild : Int → BYTE)

/-- **In every run the indices stay in the buffer, in their order.** -/
theorem parser_good {cs : List ParserCall} {s : ParserTrace} (hw : ∀ c ∈ cs, c.WellFormed)
    (h : Machine.run (step o wild) fresh cs = some s) : s.parser.Good := by
  refine Machine.run_inv (fun s => s.parser.Good) ?_ good_fresh
    (Machine.along_events fresh hw) h
  intro s c s' hg hc hs
  exact step_good hg hc hs

theorem run_total (cs : List ParserCall) (s : ParserTrace) :
    ∃ s', Machine.run (step o wild) s cs = some s' := by
  induction cs generalizing s with
  | nil => exact ⟨s, rfl⟩
  | cons c cs ih =>
    obtain ⟨s1, h1⟩ : ∃ s1, s.step o wild c = some s1 := by
      cases c with
      | nextPackage =>
        rw [step]
        split <;> exact ⟨_, rfl⟩
      | _ => exact ⟨_, rfl⟩
    obtain ⟨s', h'⟩ := ih s1
    refine ⟨s', ?_⟩
    rw [Machine.run, h1]
    exact h'

/-- the parser between two calls -/
structure Sound (s : ParserTrace) : Prop where
  index_le : s.parser.m_dataIndex ≤ s.parser.m_dataLen
  len_le : s.parser.m_dataLen ≤ s.parser.m_dataBuf.length
  conserved : s.takenBytes ++ s.parser.live = s.fed
  bound : ∀ throws k, (s.parser.packages o wild throws k).2.1.length
    ≤ (s.parser.m_dataLen - s.parser.m_dataIndex) / 12

/-- **Nothing is lost and nothing outside is touched, in every run in which each package that is
taken starts at a place that `decode` can address.** -/
theorem parser_conserves {cs : List ParserCall} {s : ParserTrace} (hw : ∀ c ∈ cs, c.WellFormed)
    (hr : Machine.Along (step o wild) InReach fresh cs)
    (h : Machine.run (step o wild) fresh cs = some s) :
    Sound o wild s ∧
      Machine.Along (step o wild) (fun s c => ∀ r ∈ s.spans wild c, r.Inside) fresh cs := by
  have hP := Machine.along_and (Machine.along_events fresh hw) hr
  have hstep : ∀ s c s', Conserved s → ParserCall.WellFormed c ∧ InReach s c →
      s.step o wild c = some s' → Conserved s' :=
    fun s c s' hI hc hs => step_conserves hI hc.1 hc.2 hs
  have hc := Machine.run_inv Conserved hstep conserved_fresh hP h
  refine ⟨⟨hc.good.index_le, hc.good.len_le, hc.bytes,
    fun throws k => packages_bound o wild throws s.parser k⟩, ?_⟩
  apply Machine.along_inv Conserved hstep ?_ conserved_fresh hP
  intro s c hI hc
  exact spans_inside hI.good hc.1 hc.2

/-- in particular when the calls feed less than two gigabytes -/
theorem inReach_small {cs : List ParserCall} {s : ParserTrace} (hw : ∀ c ∈ cs, c.WellFormed)
    (hg : s.parser.Good)
    (hsum : s.parser.m_dataLen + (cs.map ParserCall.fedLen).sum < 2147483648) :
    Machine.Along (step o wild) InReach s cs := by
  induction cs generalizing s with
  | nil => trivial
  | cons c cs ih =>
    have hc := hw c (List.mem_cons_self ..)
    rw [List.map_cons, List.sum_cons] at hsum
    refine ⟨?_, ?_⟩
    · cases c with
      | nextPackage =>
        rw [InReach]
        split
        · rename_i n hl
          obtain ⟨_, h12, _, hle, _⟩ := plainLook_msg hl
          have hll := live_length hg
          exact .inl (by omega)
        · trivial
      | _ => trivial
    · split
      · rename_i s' hs
        have hlen := step_dataLen hs
        exact ih (fun x hx => hw x (List.mem_cons_of_mem _ hx)) (step_good hg hc hs) (by omega)
      · trivial

end

/-- two packages in three pieces; the buffer is compacted while the second is incomplete -/
def twoPackages : List ParserCall :=
  [.feedPack [0, 0, 0, 14, 0, 0, 0, 1, 0, 7, 0, 0, 1] 13, .nextPackage,
   .feedPack [2, 0, 0, 0, 12, 0, 0, 0, 2, 0] 10, .nextPackage, .nextPackage, .ajust,
   .feedPack [8, 0, 0] 3, .nextPackage]

theorem parser_conserves_two : ∃ s,
    Machine.run (step .little fun _ => 0) fresh twoPackages = some s ∧
      (Sound .little (fun _ => 0) s ∧ Machine.Along (step .little fun _ => 0)
        (fun s c => ∀ r ∈ s.spans (fun _ => 0) c, r.Inside) fresh twoPackages) := by
  obtain ⟨s, h⟩ := run_total .little (fun _ => 0) twoPackages fresh
  have hw : ∀ c ∈ twoPackages, c.WellFormed := by decide
  exact ⟨s, h, parser_conserves .little (fun _ => 0) hw
    (inReach_small .little (fun _ => 0) hw good_fresh (by decide)) h⟩

/-! ## packages that are not drained -/

/-- packages at the front of the live bytes are taken one by one -/
theorem run_takes (o : ByteOrder) (wild : Int → BYTE) : ∀ (ps : List NetPackage)
    (s : ParserTrace), s.parser.Good →
    (∀ p ∈ ps, p.size ≤ NET_PACKAGE_INVALID_LENGTH) → ∀ rest : ByteArray,
    s.parser.live = (ps.map NetPackage.bytes).flatten ++ rest →
    ∃ s', Machine.run (step o wild) s (List.replicate ps.length .nextPackage) = some s' ∧
      s'.parser.Good ∧ s'.parser.live = rest ∧
      s'.parser.m_dataIndex
        = s.parser.m_dataIndex + ((ps.map NetPackage.bytes).flatten).length := by
  intro ps
  induction ps with
  | nil => exact fun s hg _ rest hl => ⟨s, rfl, hg, hl, rfl⟩
  | cons p ps ih =>
    intro s hg hsize rest hl
    have hlook : plainLook s.parser.live = .msg p.bytes.length := by
      rw [hl, List.map_cons, List.flatten_cons, List.append_assoc]
      exact plainLook_msg_append _ (look_bytes p (hsize p (List.mem_cons_self ..)))
    have hn := nextPackage_look o wild hg
    rw [hlook] at hn
    obtain ⟨g, e⟩ := taken_good hg (plain.msg_le hlook)
    rw [hl, List.map_cons, List.flatten_cons, List.append_assoc, List.drop_left] at e
    obtain ⟨s', hrun, g', l', i'⟩ := ih ⟨_, s.fed, s.taken ++ [_]⟩ g
      (fun q hq => hsize q (List.mem_cons_of_mem _ hq)) rest e
    refine ⟨s', ?_, g', l', ?_⟩
    · rw [List.length_cons, List.replicate_succ, Machine.run, step, show _ = _ from hn]
      exact hrun
    · rw [i', List.map_cons, List.flatten_cons, List.length_append, Nat.add_assoc]

/-- four packages of 512 megabytes, which are taken, and an empty one behind them -/
def undrained (content : ByteArray) : List ParserCall :=
  .feedPack ((fourAndOne content).map NetPackage.bytes).flatten
      ((fourAndOne content).map NetPackage.bytes).flatten.length ::
    List.replicate 4 .nextPackage

theorem undrained_outside {content : ByteArray} (hc : content.length = 536870900) :
    (∀ c ∈ undrained content, c.WellFormed) ∧ ∃ s,
      Machine.run (step .little fun _ => 0) fresh (undrained content) = some s ∧
      ∃ r ∈ s.spans (fun _ => 0) .nextPackage, ¬ r.Inside := by
  refine ⟨?_, ?_⟩
  · intro c hm
    rcases List.mem_cons.mp hm with rfl | hm
    · exact Nat.le_refl _
    · rw [(List.mem_replicate.mp hm).2]
      trivial
  · obtain ⟨g, l, i⟩ := fed_fresh (fun _ => 0) ((fourAndOne content).map NetPackage.bytes).flatten
    have hlen := fourAndOneBytes_length hc
    rw [fourAndOneBytes, encodeArr_bytes .little _ (fourAndOne_le hc)] at hlen
    have hsize : ∀ p ∈ (fourAndOne content).take 4, p.size ≤ NET_PACKAGE_INVALID_LENGTH :=
      fun p hp => fourAndOne_le hc p (List.mem_of_mem_take hp)
    have hlast : plainLook (NetPackage.bytes ⟨.make 1 0 0 0, []⟩) = .msg 12 := by decide
    generalize hp : NetPackageParser.feedPack (fun _ => 0) .fresh
      ((fourAndOne content).map NetPackage.bytes).flatten _ = p at g l i
    obtain ⟨s, hrun, hg, hl, hi⟩ := run_takes .little (fun _ => 0)
      ((fourAndOne content).take 4) ⟨p, [] ++ _, []⟩ g hsize
      (NetPackage.bytes ⟨.make 1 0 0 0, []⟩) (l.trans (by simp [fourAndOne]))
    have hidx : s.parser.m_dataIndex = 2147483648 := by
      rw [hi, i, Nat.zero_add]
      have hsplit : ((fourAndOne content).map NetPackage.bytes).flatten
          = (((fourAndOne content).take 4).map NetPackage.bytes).flatten
            ++ NetPackage.bytes ⟨.make 1 0 0 0, []⟩ := by simp [fourAndOne]
      rw [hsplit, List.length_append] at hlen
      have : (NetPackage.bytes ⟨.make 1 0 0 0, []⟩).length = 12 := rfl
      omega
    refine ⟨s, ?_, ⟨-2147483648, 4, s.parser.m_dataBuf.length⟩, ?_, ?_⟩
    · rw [undrained, Machine.run, step, Option.bind_some, List.take_length, fresh]
      dsimp only
      rw [hp]
      exact hrun
    · rw [spans, hl, hlast, hidx]
      exact List.mem_append_right _ (List.mem_cons_self ..)
    · rintro (h | ⟨h, _⟩)
      · cases h
      · exact absurd h (show ¬ (0 : Int) ≤ -2147483648 by decide)

theorem parser_undrained :
    (∀ c ∈ undrained zeroes, c.WellFormed) ∧ ∃ s,
      Machine.run (step .little fun _ => 0) fresh (undrained zeroes) = some s ∧
      ∃ r ∈ s.spans (fun _ => 0) .nextPackage, ¬ r.Inside :=
  undrained_outside zeroes_length

end ParserTrace

end Netwb
