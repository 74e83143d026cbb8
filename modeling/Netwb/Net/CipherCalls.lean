import Netwb.Net.CipherLoop
import Netwb.Net.Plain

/-!
# The calls that `feedData` makes of the cipher

The loops of `feedData` with the calls noted down, each with the bytes it gives the cipher and the
room it offers (`feedDataT`); without the notes they are the loops (`feedDataT_erase`).

The loop takes its length word at `m_dataIndex` of the cipher buffer, the index of the parser for
plain text.  So two parsers with the same cipher state make the same calls exactly when the words
there are the same (`feedData_framing_iff`).
-/

namespace Netwb
open Wire Machine

/-- a call of `decrypt`: the bytes it is given, and `*len` -/
abbrev DecryptCall := ByteArray × Nat

/-- what a loop leaves: the parser, the blocks handed to `feedPack`, the calls of the cipher -/
abbrev Traced := NetPackageParser × List ByteArray × List DecryptCall

section
variable (o : ByteOrder) (wild : Int → BYTE)

/-- `decryptFrame` with its calls -/
def decryptFrameT (cipher : BaseCipher) (p : NetPackageParser) : Nat → ByteArray → Option Traced
  | 0, _ => none
  | fuel + 1, bytes =>
    let e := p.m_encryptInfo
    let realLen := (hton32 o (read32 o wild e.dataBuf (e.dataIndex + 4 : Nat))).toNat
    let raw := Vec.peeks wild e.dataBuf (e.dataIndex + 2 * 4 : Nat) e.packSize
    let (ret, out) := cipher.decrypt raw bytes.length
    let call : DecryptCall := (raw, bytes.length)
    let bytes := Vec.memcpy bytes 0 out
    match ret with
    | .OK => some (p.feedPack wild bytes realLen, [Vec.peeks wild bytes 0 realLen], [call])
    | .BUFFER_ERROR =>
      (decryptFrameT cipher p fuel (Vec.resize bytes (bytes.length * 2) 0)).map fun t =>
        (t.1, t.2.1, call :: t.2.2)
    | .UNKNOWN_ERROR => some (p, [], [call])

/-- `decryptLoop` with its calls -/
def decryptLoopT (cipher : BaseCipher) : Nat → NetPackageParser → Option Traced
  | 0, _ => none
  | fuel + 1, p =>
    if p.m_encryptInfo.packSize = 0 ∧ ¬ 4 ≤ p.awaiting then some (p, [], [])
    else if p.frameSize o wild ≤ p.awaiting then
      (decryptFrameT o wild cipher (p.sized o wild) (fuel + 1)
        (List.replicate (p.frameSize o wild * 2) 0)).bind fun r =>
      (decryptLoopT cipher fuel (r.1.advance (p.frameSize o wild))).map fun t =>
        (t.1, r.2.1 ++ t.2.1, r.2.2 ++ t.2.2)
    else decryptLoopT cipher fuel (p.sized o wild)

/-- `feedData` with its calls -/
def NetPackageParser.feedDataT (fuel : Nat) (p : NetPackageParser) (data : ByteArray) (len : Nat) :
    Option Traced :=
  match p.m_encryptInfo.cipher with
  | none => some (p.feedPack wild data len, [Vec.peeks wild data 0 len], [])
  | some cipher => (decryptLoopT o wild cipher fuel (p.load wild data len)).map fun t =>
    ({ t.1 with m_encryptInfo := t.1.m_encryptInfo.compact wild }, t.2)

/-! ## without the notes -/

def Traced.erase (t : Traced) : NetPackageParser × List ByteArray := (t.1, t.2.1)

variable {c : BaseCipher}

theorem decryptFrameT_erase (p : NetPackageParser) (fuel : Nat) : ∀ bytes : ByteArray,
    (decryptFrameT o wild c p fuel bytes).map Traced.erase = decryptFrame o wild c p fuel bytes := by
  induction fuel with
  | zero => exact fun _ => rfl
  | succ fuel ih =>
    intro bytes
    rcases hd : c.decrypt (Vec.peeks wild p.m_encryptInfo.dataBuf
      (p.m_encryptInfo.dataIndex + 2 * 4 : Nat) p.m_encryptInfo.packSize) bytes.length
      with ⟨ret, out⟩
    rw [decryptFrameT, decryptFrame, hd]
    cases ret with
    | OK => rfl
    | BUFFER_ERROR =>
      dsimp only
      rw [Option.map_map, ← ih]
      rfl
    | UNKNOWN_ERROR => rfl

theorem decryptLoopT_erase (fuel : Nat) : ∀ p : NetPackageParser,
    (decryptLoopT o wild c fuel p).map Traced.erase = decryptLoop o wild c fuel p := by
  induction fuel with
  | zero => exact fun _ => rfl
  | succ fuel ih =>
    intro p
    rw [decryptLoopT, decryptLoop_succ]
    split
    · rfl
    split
    · rw [← decryptFrameT_erase]
      cases decryptFrameT o wild c (p.sized o wild) (fuel + 1)
        (List.replicate (p.frameSize o wild * 2) 0) with
      | none => rfl
      | some r =>
        have hih := ih (r.1.advance (p.frameSize o wild))
        simp only [Option.bind_some, Option.map_some, Option.map_map, Traced.erase, ← hih]
        rfl
    · exact ih _

/-- **Without the notes it is `feedData`.** -/
theorem feedDataT_erase (fuel : Nat) (p : NetPackageParser) (data : ByteArray) (len : Nat) :
    (p.feedDataT o wild fuel data len).map Traced.erase = p.feedData o wild fuel data len := by
  cases hc : p.m_encryptInfo.cipher with
  | none =>
    rw [NetPackageParser.feedDataT, NetPackageParser.feedData, hc]
    rfl
  | some c =>
    rw [feedData_cipher o wild hc, NetPackageParser.feedDataT, hc]
    dsimp only
    rw [← decryptLoopT_erase, Option.map_map, Option.map_map]
    rfl

/-! ## two parsers with one cipher state -/

theorem decryptFrameT_same {p q : NetPackageParser} (h : p.m_encryptInfo = q.m_encryptInfo)
    (fuel : Nat) : ∀ bytes : ByteArray, (decryptFrameT o wild c p fuel bytes).map Prod.snd
      = (decryptFrameT o wild c q fuel bytes).map Prod.snd := by
  induction fuel with
  | zero => exact fun _ => rfl
  | succ fuel ih =>
    intro bytes
    rw [decryptFrameT, decryptFrameT, h]
    rcases c.decrypt (Vec.peeks wild q.m_encryptInfo.dataBuf
      (q.m_encryptInfo.dataIndex + 2 * 4 : Nat) q.m_encryptInfo.packSize) bytes.length
      with ⟨ret, out⟩
    cases ret with
    | OK => rfl
    | BUFFER_ERROR =>
      have hih := congrArg (Option.map fun t => (t.1, ((Vec.peeks wild q.m_encryptInfo.dataBuf
        (q.m_encryptInfo.dataIndex + 2 * 4 : Nat) q.m_encryptInfo.packSize, bytes.length) ::
          t.2 : List DecryptCall))) (ih (Vec.resize (Vec.memcpy bytes 0 out)
            ((Vec.memcpy bytes 0 out).length * 2) 0))
      rw [Option.map_map, Option.map_map] at hih
      dsimp only
      rw [Option.map_map, Option.map_map]
      exact hih
    | UNKNOWN_ERROR => rfl

theorem decryptFrameT_frame {p : NetPackageParser} {fuel : Nat} {bytes : ByteArray} {t : Traced}
    (h : decryptFrameT o wild c p fuel bytes = some t) :
    t.1.m_encryptInfo = p.m_encryptInfo ∧ t.1.m_dataIndex = p.m_dataIndex := by
  have hframe := decryptFrameT_erase o wild (c := c) p fuel bytes
  rw [h] at hframe
  exact decryptFrame_frame o wild hframe.symm

/-- the same words are found, whatever was done to the plain text -/
structure Alike (p q : NetPackageParser) : Prop where
  encryptInfo : p.m_encryptInfo = q.m_encryptInfo
  frameWord : p.frameWord o wild = q.frameWord o wild

variable {o wild} {p q : NetPackageParser}

theorem Alike.frameSize (h : Alike o wild p q) : p.frameSize o wild = q.frameSize o wild := by
  rw [NetPackageParser.frameSize, NetPackageParser.frameSize, h.encryptInfo, h.frameWord]

theorem Alike.sized (h : Alike o wild p q) : Alike o wild (p.sized o wild) (q.sized o wild) := by
  refine ⟨?_, h.frameWord⟩
  unfold NetPackageParser.sized
  rw [h.frameSize, h.encryptInfo]

theorem Alike.advance (h : Alike o wild p q) {p' q' : NetPackageParser}
    (hp : p'.m_encryptInfo = (p.sized o wild).m_encryptInfo ∧ p'.m_dataIndex = p.m_dataIndex)
    (hq : q'.m_encryptInfo = (q.sized o wild).m_encryptInfo ∧ q'.m_dataIndex = q.m_dataIndex)
    (n : Nat) : Alike o wild (p'.advance n) (q'.advance n) := by
  have henc : p'.m_encryptInfo = q'.m_encryptInfo := by rw [hp.1, hq.1, h.sized.encryptInfo]
  have hword := h.frameWord
  unfold NetPackageParser.frameWord at hword
  refine ⟨?_, ?_⟩
  · unfold NetPackageParser.advance
    rw [henc]
  · unfold NetPackageParser.frameWord NetPackageParser.advance
    dsimp only
    rw [hp.1, hq.1, hp.2, hq.2]
    exact hword

/-- **Parsers that find the same words make the same calls**, and hand on the same blocks. -/
theorem decryptLoopT_same (fuel : Nat) : ∀ {p q : NetPackageParser}, Alike o wild p q →
    (decryptLoopT o wild c fuel p).map Prod.snd = (decryptLoopT o wild c fuel q).map Prod.snd := by
  induction fuel with
  | zero => exact fun _ => rfl
  | succ fuel ih =>
    intro p q h
    have hwait : p.awaiting = q.awaiting := by
      rw [NetPackageParser.awaiting, h.encryptInfo, NetPackageParser.awaiting]
    rw [decryptLoopT, decryptLoopT, h.frameSize, hwait, h.encryptInfo]
    split
    · rfl
    split
    · have hframe := decryptFrameT_same o wild (c := c) h.sized.encryptInfo (fuel + 1)
        (List.replicate (q.frameSize o wild * 2) 0)
      cases hp : decryptFrameT o wild c (p.sized o wild) (fuel + 1)
        (List.replicate (q.frameSize o wild * 2) 0) with
      | none =>
        rw [hp] at hframe
        rw [Option.map_eq_none_iff.mp hframe.symm]
      | some t =>
        rw [hp] at hframe
        obtain ⟨t', hq, hsnd⟩ := Option.map_eq_some_iff.mp hframe.symm
        have hih := ih (h.advance (decryptFrameT_frame o wild hp) (decryptFrameT_frame o wild hq)
          (q.frameSize o wild))
        have hmap := congrArg (Option.map fun s => (t.2.1 ++ s.1, t.2.2 ++ s.2)) hih
        rw [Option.map_map, Option.map_map] at hmap
        rw [hq, Option.bind_some, Option.bind_some, Option.map_map, Option.map_map, hsnd]
        exact hmap
    · exact ih h.sized

/-! ## the first call -/

theorem decryptFrameT_first {fuel : Nat} {bytes : ByteArray} {t : Traced}
    (h : decryptFrameT o wild c p fuel bytes = some t) :
    ∃ raw ks, t.2.2 = (raw, bytes.length) :: ks := by
  cases fuel with
  | zero => cases h
  | succ fuel =>
    rw [decryptFrameT] at h
    dsimp only at h
    split at h
    · cases h
      exact ⟨_, _, rfl⟩
    · obtain ⟨s, _, rfl⟩ := Option.map_eq_some_iff.mp h
      exact ⟨_, _, rfl⟩
    · cases h
      exact ⟨_, _, rfl⟩

/-- it offers twice the room that the length word says -/
theorem decryptLoopT_first (h0 : p.m_encryptInfo.packSize = 0) (h4 : 4 ≤ p.awaiting) {fuel : Nat}
    {t : Traced} (h : decryptLoopT o wild c fuel p = some t) :
    ∃ raw ks, t.2.2 = (raw, p.frameWord o wild * 2) :: ks := by
  have hsize := frameSize_unknown o wild h0
  have hin : p.frameWord o wild ≤ p.awaiting := by
    by_contra hlong
    have hloop := decryptLoopT_erase o wild (c := c) fuel p
    rw [h, decryptLoop_short o wild h0 h4 hlong fuel] at hloop
    cases hloop
  cases fuel with
  | zero => cases h
  | succ fuel =>
    rw [decryptLoopT, if_neg fun hend => hend.2 h4, hsize, if_pos hin] at h
    obtain ⟨r, hr, h⟩ := Option.bind_eq_some_iff.mp h
    obtain ⟨s, _, rfl⟩ := Option.map_eq_some_iff.mp h
    obtain ⟨raw, ks, hcalls⟩ := decryptFrameT_first hr
    rw [List.length_replicate] at hcalls
    exact ⟨raw, ks ++ s.2.2, by rw [hcalls, List.cons_append]⟩

/-! ## one chunk, two parsers -/

/-- what `q` makes of a chunk, where `p` comes back from it: the same blocks and the same calls -/
def SameFraming (o : ByteOrder) (wild : Int → BYTE) (p q : NetPackageParser) (data : ByteArray)
    (len : Nat) : Prop :=
  ∀ fuel t, p.feedDataT o wild fuel data len = some t →
    ∃ fuel' t', q.feedDataT o wild fuel' data len = some t' ∧ t'.2 = t.2

theorem load_encryptInfo (h : p.m_encryptInfo = q.m_encryptInfo) (data : ByteArray) (len : Nat) :
    (p.load wild data len).m_encryptInfo = (q.load wild data len).m_encryptInfo := by
  unfold NetPackageParser.load
  rw [h]

theorem feedDataT_plain (h : p.m_encryptInfo.cipher = none) (fuel : Nat) (data : ByteArray)
    (len : Nat) : p.feedDataT o wild fuel data len
      = some (p.feedPack wild data len, [Vec.peeks wild data 0 len], []) := by
  rw [NetPackageParser.feedDataT, h]

theorem feedDataT_cipher (h : p.m_encryptInfo.cipher = some c) (fuel : Nat) (data : ByteArray)
    (len : Nat) : p.feedDataT o wild fuel data len
      = (decryptLoopT o wild c fuel (p.load wild data len)).map fun t =>
        ({ t.1 with m_encryptInfo := t.1.m_encryptInfo.compact wild }, t.2) := by
  rw [NetPackageParser.feedDataT, h]

theorem framing_plain (henc : p.m_encryptInfo = q.m_encryptInfo)
    (hc : p.m_encryptInfo.cipher = none) (data : ByteArray) (len : Nat) :
    SameFraming o wild p q data len := by
  intro fuel t ht
  rw [feedDataT_plain hc] at ht
  cases ht
  exact ⟨fuel, _, feedDataT_plain (henc ▸ hc) fuel data len, rfl⟩

/-- the loops of two parsers that end in the same way -/
theorem framing_loop (henc : p.m_encryptInfo = q.m_encryptInfo)
    (hc : p.m_encryptInfo.cipher = some c) {data : ByteArray} {len : Nat}
    (hloop : ∀ fuel, (decryptLoopT o wild c fuel (p.load wild data len)).map Prod.snd
      = (decryptLoopT o wild c fuel (q.load wild data len)).map Prod.snd) :
    SameFraming o wild p q data len := by
  intro fuel t ht
  rw [feedDataT_cipher hc] at ht
  obtain ⟨s, hs, rfl⟩ := Option.map_eq_some_iff.mp ht
  have hsame := hloop fuel
  rw [hs] at hsame
  obtain ⟨s', hs', hsnd⟩ := Option.map_eq_some_iff.mp hsame.symm
  refine ⟨fuel, ({ s'.1 with m_encryptInfo := s'.1.m_encryptInfo.compact wild }, s'.2), ?_, hsnd⟩
  rw [feedDataT_cipher (henc ▸ hc), hs']
  rfl

theorem decryptLoopT_little (h0 : p.m_encryptInfo.packSize = 0) (h4 : ¬ 4 ≤ p.awaiting)
    (fuel : Nat) : (decryptLoopT o wild c fuel p).map Prod.snd
      = if fuel = 0 then none else some ([], []) := by
  cases fuel with
  | zero => rfl
  | succ fuel =>
    rw [decryptLoopT, if_pos ⟨h0, h4⟩, if_neg (Nat.succ_ne_zero fuel)]
    rfl

/-- the first calls offer the same room -/
theorem framing_frameWord (henc : p.m_encryptInfo = q.m_encryptInfo)
    (hc : p.m_encryptInfo.cipher = some c) {data : ByteArray} {len : Nat}
    (h0 : (p.load wild data len).m_encryptInfo.packSize = 0)
    (h4 : 4 ≤ (p.load wild data len).awaiting)
    (hret : ∃ fuel r, p.feedData o wild fuel data len = some r)
    (hsame : SameFraming o wild p q data len) :
    (p.load wild data len).frameWord o wild = (q.load wild data len).frameWord o wild := by
  have hload : (p.load wild data len).m_encryptInfo = (q.load wild data len).m_encryptInfo :=
    load_encryptInfo henc data len
  obtain ⟨fuel, r, hr⟩ := hret
  rw [← feedDataT_erase] at hr
  obtain ⟨t, ht, -⟩ := Option.map_eq_some_iff.mp hr
  obtain ⟨fuel', t', ht', hcalls⟩ := hsame fuel t ht
  rw [feedDataT_cipher hc] at ht
  rw [feedDataT_cipher (henc ▸ hc)] at ht'
  obtain ⟨s, hs, rfl⟩ := Option.map_eq_some_iff.mp ht
  obtain ⟨s', hs', rfl⟩ := Option.map_eq_some_iff.mp ht'
  have h4' : 4 ≤ (q.load wild data len).awaiting := by
    rwa [NetPackageParser.awaiting, ← hload]
  obtain ⟨raw, ks, hfirst⟩ := decryptLoopT_first h0 h4 hs
  obtain ⟨raw', ks', hfirst'⟩ := decryptLoopT_first (hload ▸ h0) h4' hs'
  have heq : s'.2.2 = s.2.2 := congrArg Prod.snd hcalls
  rw [hfirst, hfirst', List.cons.injEq, Prod.mk.injEq] at heq
  omega

/-- **When the framing does not depend on the parser for plain text**: for two reachable parsers
with one cipher state, and a chunk from which the first comes back. -/
theorem feedData_framing_iff {es es' : List ParserEvent}
    (hp : run (NetPackageParser.act o wild) .fresh es = some p)
    (hq : run (NetPackageParser.act o wild) .fresh es' = some q)
    (henc : p.m_encryptInfo = q.m_encryptInfo) {data : ByteArray} {len : Nat}
    (hret : ∃ fuel r, p.feedData o wild fuel data len = some r) :
    SameFraming o wild p q data len ↔ p.m_encryptInfo.cipher = none ∨
      p.m_encryptInfo.dataLen + len < 4 ∨
      (p.load wild data len).frameWord o wild = (q.load wild data len).frameWord o wild := by
  have hset := run_settled o wild hp
  have h0 : (p.load wild data len).m_encryptInfo.packSize = 0 := hset.packSize
  have h0' : (q.load wild data len).m_encryptInfo.packSize = 0 := (run_settled o wild hq).packSize
  have hawait : (p.load wild data len).awaiting = p.m_encryptInfo.dataLen + len := by
    show p.m_encryptInfo.dataLen + len - p.m_encryptInfo.dataIndex = _
    rw [hset.dataIndex, Nat.sub_zero]
  have hawait' : (q.load wild data len).awaiting = p.m_encryptInfo.dataLen + len := by
    rw [← hawait, NetPackageParser.awaiting, ← load_encryptInfo henc, NetPackageParser.awaiting]
  cases hc : p.m_encryptInfo.cipher with
  | none => exact iff_of_true (framing_plain henc hc data len) (.inl rfl)
  | some c =>
    rw [or_iff_right (Option.some_ne_none c)]
    by_cases h4 : p.m_encryptInfo.dataLen + len < 4
    · refine iff_of_true (framing_loop henc hc fun fuel => ?_) (.inl h4)
      rw [decryptLoopT_little h0 (by rw [hawait]; omega),
        decryptLoopT_little h0' (by rw [hawait']; omega)]
    · rw [or_iff_right h4]
      constructor
      · exact framing_frameWord henc hc h0 (by rw [hawait]; omega) hret
      · intro hword
        exact framing_loop henc hc fun fuel =>
          decryptLoopT_same fuel ⟨load_encryptInfo henc data len, hword⟩

end

/-- a frame with a block of one byte, and a parser that has been asked for a package before -/
theorem feedData_framing_frame : SameFraming .little (fun _ => 0)
    (NetPackageParser.fresh.setCipher (some (streamCipher 0x5a)))
    ((NetPackageParser.fresh.nextPackage .little fun _ => 0).1.setCipher
      (some (streamCipher 0x5a)))
    [0, 0, 0, 9, 0, 0, 0, 1, 0x5b] 9 := by
  have hp : run (NetPackageParser.act .little fun _ => 0) .fresh
      [.setCipher (some (streamCipher 0x5a))] = some _ := rfl
  have hq : run (NetPackageParser.act .little fun _ => 0) .fresh
      [.nextPackage, .setCipher (some (streamCipher 0x5a))] = some _ := rfl
  refine (feedData_framing_iff hp hq rfl ⟨2, _, rfl⟩).mpr (.inr (.inr ?_))
  decide

/-- a package is fed and taken before the cipher is set -/
theorem run_taken (o : ByteOrder) (wild : Int → BYTE) (cipher : Option BaseCipher)
    {pkg : ByteArray} {n : Nat} (hlook : plainLook pkg = .msg n) :
    ∃ q, run (NetPackageParser.act o wild) .fresh
        [.feedData 0 pkg pkg.length, .nextPackage, .setCipher cipher] = some q ∧
      q.m_encryptInfo = (NetPackageParser.fresh.setCipher cipher).m_encryptInfo ∧
      q.m_dataIndex = n := by
  obtain ⟨hgood, hlive, hidx⟩ := fed_fresh wild pkg
  have henc := (feedPack_frame wild .fresh pkg pkg.length).1
  have hfeed : NetPackageParser.fresh.act o wild (.feedData 0 pkg pkg.length)
      = some (NetPackageParser.fresh.feedPack wild pkg pkg.length) := rfl
  generalize NetPackageParser.fresh.feedPack wild pkg pkg.length = p at *
  have hnext := nextPackage_look o wild hgood
  rw [hlive, hlook] at hnext
  dsimp only at hnext
  refine ⟨(p.nextPackage o wild).1.setCipher cipher, ?_, ?_, ?_⟩
  · rw [run, hfeed]
    rfl
  · unfold NetPackageParser.setCipher
    rw [nextPackage_encryptInfo, henc]
  · show (p.nextPackage o wild).1.m_dataIndex = n
    rw [hnext, hidx, Nat.zero_add]

/-- **A package that was taken moves the length word**: twelve bytes of plain text, then a cipher,
and a chunk with the word 32 in front and 16 behind twelve bytes. -/
theorem framing_moves : ¬ ∀ (es es' : List ParserEvent) (p q : NetPackageParser),
    run (NetPackageParser.act .little fun _ => 0) .fresh es = some p →
    run (NetPackageParser.act .little fun _ => 0) .fresh es' = some q →
    p.m_encryptInfo = q.m_encryptInfo → ∀ (data : ByteArray) (len : Nat),
    (∃ fuel r, p.feedData .little (fun _ => 0) fuel data len = some r) →
    SameFraming .little (fun _ => 0) p q data len := by
  intro h
  obtain ⟨q, hq, henc, hidx⟩ := run_taken .little (fun _ => 0) (some (streamCipher 0x5a))
    (show plainLook [0, 0, 0, 12, 0, 0, 0, 0, 0, 0, 0, 0] = .msg 12 by decide)
  have hframe := h [.setCipher (some (streamCipher 0x5a))] _ _ q rfl hq henc.symm
    ([0, 0, 0, 32, 0, 0, 0, 1, 0, 0, 0, 0, 0, 0, 0, 16] ++ List.replicate 16 0) 32 ⟨2, _, rfl⟩
  have hwords := framing_frameWord henc.symm rfl rfl (by decide) ⟨2, _, rfl⟩ hframe
  rw [NetPackageParser.frameWord, NetPackageParser.frameWord, ← load_encryptInfo henc.symm,
    show (q.load (fun _ => 0) _ 32).m_dataIndex = 12 from hidx] at hwords
  revert hwords
  decide

end Netwb
