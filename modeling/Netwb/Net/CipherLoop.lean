import Netwb.Net.Channel
import Netwb.Net.Receive
import Netwb.Lib.Run

/-!
# The loops of `feedData`

The bytes that wait in the cipher buffer, and the length word that the loop finds at `m_dataIndex`,
decide whether `feedData` comes back.  Each round takes one frame of that length off; what is left
in the end has to be shorter than a length word (`FramesEnd`).

* `decryptLoop_round`      one round, with a cipher that never asks for more room than it was given;
* `decryptLoop_returns`    by the number of waiting bytes, the loop comes back or not;
* `run_settled`            between two calls no frame is half taken, in every run;
* `feedData_returns_iff`   so for every reachable parser and every chunk.
-/

namespace Netwb
open Wire Machine

/-- a cipher that succeeds whenever the destination is as long as the source -/
def BaseCipher.Obliging (c : BaseCipher) : Prop :=
  ∀ raw room, raw.length ≤ room → (c.decrypt raw room).1 = .OK

theorem streamCipher_obliging (key : BYTE) : (streamCipher key).Obliging := by
  intro raw room h
  show (if room < raw.length then _ else _ : CIPHER_STATUS × ByteArray).1 = _
  rw [if_neg (by omega)]

/-- `d` waiting bytes are frames of `w` bytes and less than a length word -/
def FramesEnd (d w : Nat) : Prop := d < 4 ∨ w ≠ 0 ∧ d % w < 4

instance (d w : Nat) : Decidable (FramesEnd d w) := inferInstanceAs (Decidable (_ ∨ _))

theorem framesEnd_sub {d w : Nat} (h4 : 4 ≤ d) (h0 : w ≠ 0) (hw : w ≤ d) :
    FramesEnd (d - w) w ↔ FramesEnd d w := by
  have hmod : d % w = (d - w) % w := Nat.mod_eq_sub_mod hw
  have hle : (d - w) % w ≤ d - w := Nat.mod_le _ _
  constructor
  · rintro (hlt | ⟨-, hlt⟩)
    · exact .inr ⟨h0, by omega⟩
    · exact .inr ⟨h0, by omega⟩
  · rintro (hlt | ⟨-, hlt⟩)
    · omega
    · exact .inr ⟨h0, by omega⟩

/-! ## the calls of a parser -/

inductive ParserEvent where
  | setCipher (cipher : Option BaseCipher)
  | feedData (fuel : Nat) (data : ByteArray) (len : Nat)
  | nextPackage

/-- what `feedData` does before its loop when a cipher is set -/
def NetPackageParser.load (wild : Int → BYTE) (p : NetPackageParser) (data : ByteArray)
    (len : Nat) : NetPackageParser :=
  let e := p.m_encryptInfo
  let dataLen := e.dataLen + len
  let dataBuf := if e.dataBuf.length < dataLen then Vec.resize e.dataBuf dataLen 0 else e.dataBuf
  { p with
    m_encryptInfo := { e with
      dataLen := dataLen
      dataBuf := Vec.memcpy dataBuf e.dataIndex (Vec.peeks wild data 0 len) } }

section
variable (o : ByteOrder) (wild : Int → BYTE)

/-- one call; it does not happen when `feedData` does not come back -/
def NetPackageParser.act (p : NetPackageParser) : ParserEvent → Option NetPackageParser
  | .setCipher cipher => some (p.setCipher cipher)
  | .feedData fuel data len => (p.feedData o wild fuel data len).map Prod.fst
  | .nextPackage => some (p.nextPackage o wild).1

/-- the length word that the loop finds -/
def NetPackageParser.frameWord (p : NetPackageParser) : Nat :=
  (hton32 o (packSizeWord o wild p.m_encryptInfo.dataBuf p.m_dataIndex)).toNat

/-- the size of the frame that the loop waits for -/
def NetPackageParser.frameSize (p : NetPackageParser) : Nat :=
  if p.m_encryptInfo.packSize = 0 then p.frameWord o wild else p.m_encryptInfo.packSize

/-- with that size noted down -/
def NetPackageParser.sized (p : NetPackageParser) : NetPackageParser :=
  { p with m_encryptInfo := { p.m_encryptInfo with packSize := p.frameSize o wild } }

/-- the bytes that wait in the cipher buffer -/
def NetPackageParser.awaiting (p : NetPackageParser) : Nat :=
  p.m_encryptInfo.dataLen - p.m_encryptInfo.dataIndex

/-- behind a frame -/
def NetPackageParser.advance (p : NetPackageParser) (n : Nat) : NetPackageParser :=
  { p with m_encryptInfo :=
    { p.m_encryptInfo with dataIndex := p.m_encryptInfo.dataIndex + n, packSize := 0 } }

theorem decryptLoop_succ (c : BaseCipher) (fuel : Nat) (p : NetPackageParser) :
    decryptLoop o wild c (fuel + 1) p =
      if p.m_encryptInfo.packSize = 0 ∧ ¬ 4 ≤ p.awaiting then some (p, [])
      else if p.frameSize o wild ≤ p.awaiting then
        (decryptFrame o wild c (p.sized o wild) (fuel + 1)
          (List.replicate (p.frameSize o wild * 2) 0)).bind fun r =>
        (decryptLoop o wild c fuel (r.1.advance (p.frameSize o wild))).map fun t =>
          (t.1, r.2 ++ t.2)
      else decryptLoop o wild c fuel (p.sized o wild) := rfl

theorem feedData_cipher {p : NetPackageParser} {c : BaseCipher}
    (h : p.m_encryptInfo.cipher = some c) (fuel : Nat) (data : ByteArray) (len : Nat) :
    p.feedData o wild fuel data len
      = (decryptLoop o wild c fuel (p.load wild data len)).map fun r =>
        ({ r.1 with m_encryptInfo := r.1.m_encryptInfo.compact wild }, r.2) := by
  rw [NetPackageParser.feedData, h]
  rfl

/-! ## between two calls -/

/-- no frame is half taken -/
structure NetPackageParser.Settled (p : NetPackageParser) : Prop where
  packSize : p.m_encryptInfo.packSize = 0
  dataIndex : p.m_encryptInfo.dataIndex = 0

theorem decryptFrame_frame {c : BaseCipher} {p : NetPackageParser} {fuel : Nat}
    {bytes : ByteArray} {r : NetPackageParser × List ByteArray}
    (h : decryptFrame o wild c p fuel bytes = some r) :
    r.1.m_encryptInfo = p.m_encryptInfo ∧ r.1.m_dataIndex = p.m_dataIndex := by
  induction fuel generalizing bytes with
  | zero => cases h
  | succ fuel ih =>
    rw [decryptFrame] at h
    dsimp only at h
    split at h
    · injection h with h
      rw [← h]
      exact feedPack_frame wild p _ _
    · exact ih h
    · injection h with h
      rw [← h]
      exact ⟨rfl, rfl⟩

/-- the loop ends with no frame half taken, and with the same cipher -/
theorem decryptLoop_frame {c : BaseCipher} {p : NetPackageParser} {fuel : Nat}
    {r : NetPackageParser × List ByteArray} (h : decryptLoop o wild c fuel p = some r) :
    r.1.m_encryptInfo.packSize = 0 ∧ r.1.m_encryptInfo.cipher = p.m_encryptInfo.cipher := by
  induction fuel generalizing p r with
  | zero => cases h
  | succ fuel ih =>
    rw [decryptLoop_succ] at h
    split at h
    · rename_i hend
      injection h with h
      rw [← h]
      exact ⟨hend.1, rfl⟩
    · split at h
      · obtain ⟨f, hf, h⟩ := Option.bind_eq_some_iff.mp h
        obtain ⟨t, ht, h⟩ := Option.map_eq_some_iff.mp h
        obtain ⟨hend, hcipher⟩ := ih ht
        have hframe : f.1.m_encryptInfo.cipher = p.m_encryptInfo.cipher := by
          rw [(decryptFrame_frame o wild hf).1]
          rfl
        rw [← h]
        exact ⟨hend, hcipher.trans hframe⟩
      · obtain ⟨hend, hcipher⟩ := ih h
        exact ⟨hend, hcipher⟩

theorem compact_frame (e : EncrytInfo) :
    (e.compact wild).packSize = e.packSize ∧ (e.compact wild).dataIndex = 0 ∧
      (e.compact wild).cipher = e.cipher := by
  unfold EncrytInfo.compact
  split
  · exact ⟨rfl, rfl, rfl⟩
  · exact ⟨rfl, by omega, rfl⟩

theorem feedData_frame {p : NetPackageParser} (h : p.Settled) {fuel : Nat} {data : ByteArray}
    {len : Nat} {r : NetPackageParser × List ByteArray}
    (hr : p.feedData o wild fuel data len = some r) :
    r.1.Settled ∧ r.1.m_encryptInfo.cipher = p.m_encryptInfo.cipher := by
  cases hc : p.m_encryptInfo.cipher with
  | none =>
    rw [NetPackageParser.feedData, hc] at hr
    injection hr with hr
    have he := (feedPack_frame wild p data len).1
    rw [← hr]
    exact ⟨⟨by rw [he, h.packSize], by rw [he, h.dataIndex]⟩, by rw [he, hc]⟩
  | some c =>
    rw [feedData_cipher o wild hc] at hr
    obtain ⟨t, ht, rfl⟩ := Option.map_eq_some_iff.mp hr
    obtain ⟨h1, h2⟩ := decryptLoop_frame o wild ht
    obtain ⟨e1, e2, e3⟩ := compact_frame wild t.1.m_encryptInfo
    exact ⟨⟨e1.trans h1, e2⟩, e3.trans (h2.trans hc)⟩

theorem act_settled {p p' : NetPackageParser} {ev : ParserEvent} (h : p.Settled)
    (hs : p.act o wild ev = some p') : p'.Settled := by
  cases ev with
  | setCipher cipher =>
    injection hs with hs
    rw [← hs]
    exact ⟨h.packSize, h.dataIndex⟩
  | nextPackage =>
    injection hs with hs
    have he := nextPackage_encryptInfo o wild p
    rw [← hs]
    exact ⟨by rw [he, h.packSize], by rw [he, h.dataIndex]⟩
  | feedData fuel data len =>
    obtain ⟨r, hr, rfl⟩ := Option.map_eq_some_iff.mp hs
    exact (feedData_frame o wild h hr).1

/-- **Between two calls no frame is half taken**, whatever the calls were. -/
theorem run_settled {es : List ParserEvent} {p : NetPackageParser}
    (h : run (NetPackageParser.act o wild) .fresh es = some p) : p.Settled :=
  run_keeps NetPackageParser.Settled (fun _ _ _ hI hs => act_settled o wild hI hs) ⟨rfl, rfl⟩ h

/-! ## one round, and all of them -/

variable {c : BaseCipher}

theorem decryptFrame_obliging (hc : c.Obliging) (p : NetPackageParser) (bytes : ByteArray)
    (h : p.m_encryptInfo.packSize ≤ bytes.length) :
    ∃ r, ∀ fuel, decryptFrame o wild c p (fuel + 1) bytes = some r := by
  have hok := hc (Vec.peeks wild p.m_encryptInfo.dataBuf
    (p.m_encryptInfo.dataIndex + 2 * 4 : Nat) p.m_encryptInfo.packSize) bytes.length
    (by rw [Vec.peeks_length]; exact h)
  have hsame : ∀ fuel, decryptFrame o wild c p (fuel + 1) bytes
      = decryptFrame o wild c p (0 + 1) bytes := by
    intro fuel
    rw [decryptFrame, decryptFrame]
    dsimp only
    rw [hok]
  have hsome : (decryptFrame o wild c p (0 + 1) bytes).isSome := by
    rw [decryptFrame]
    dsimp only
    rw [hok]
    rfl
  obtain ⟨r, hr⟩ := Option.isSome_iff_exists.mp hsome
  exact ⟨r, fun fuel => (hsame fuel).trans hr⟩

theorem frameSize_unknown {p : NetPackageParser} (h0 : p.m_encryptInfo.packSize = 0) :
    p.frameSize o wild = p.frameWord o wild := if_pos h0

/-- **A round takes one frame off.** -/
theorem decryptLoop_round (hc : c.Obliging) (p : NetPackageParser)
    (h0 : p.m_encryptInfo.packSize = 0) (h4 : 4 ≤ p.awaiting)
    (hw : p.frameWord o wild ≤ p.awaiting) :
    ∃ p' bs, (∀ fuel, decryptLoop o wild c (fuel + 1) p
        = (decryptLoop o wild c fuel p').map fun t => (t.1, bs ++ t.2)) ∧
      p'.m_encryptInfo = (p.advance (p.frameWord o wild)).m_encryptInfo ∧
      p'.m_dataIndex = p.m_dataIndex := by
  have hsize := frameSize_unknown o wild h0
  obtain ⟨r, hr⟩ := decryptFrame_obliging o wild hc (p.sized o wild)
    (List.replicate (p.frameSize o wild * 2) 0)
    (by rw [List.length_replicate]; exact Nat.le_mul_of_pos_right _ (by omega))
  obtain ⟨h1, h2⟩ := decryptFrame_frame o wild (hr 0)
  refine ⟨r.1.advance (p.frameWord o wild), r.2, fun fuel => ?_, ?_, h2⟩
  · rw [decryptLoop_succ, if_neg (fun hend => hend.2 h4), if_pos (hsize ▸ hw), hr fuel, hsize]
    rfl
  · show EncrytInfo.mk _ _ _ _ _ = _
    rw [h1]
    rfl

/-- what a round leaves -/
theorem round_awaiting {p p' : NetPackageParser}
    (he : p'.m_encryptInfo = (p.advance (p.frameWord o wild)).m_encryptInfo)
    (hi : p'.m_dataIndex = p.m_dataIndex) :
    p'.m_encryptInfo.packSize = 0 ∧ p'.awaiting = p.awaiting - p.frameWord o wild ∧
      p'.frameWord o wild = p.frameWord o wild := by
  refine ⟨by rw [he]; rfl, ?_, ?_⟩
  · rw [NetPackageParser.awaiting, he]
    exact (Nat.sub_sub _ _ _).symm
  · rw [NetPackageParser.frameWord, he, hi]
    rfl

/-- a frame of no bytes is taken for ever -/
theorem decryptLoop_zero (hc : c.Obliging) (fuel : Nat) :
    ∀ p : NetPackageParser, p.m_encryptInfo.packSize = 0 → 4 ≤ p.awaiting →
      p.frameWord o wild = 0 → decryptLoop o wild c fuel p = none := by
  induction fuel with
  | zero => exact fun _ _ _ _ => rfl
  | succ fuel ih =>
    intro p h0 h4 hw
    obtain ⟨p', bs, hstep, he, hi⟩ := decryptLoop_round o wild hc p h0 h4 (by omega)
    obtain ⟨h0', hd', hw'⟩ := round_awaiting o wild he hi
    rw [hstep, ih p' h0' (by omega) (hw'.trans hw)]
    rfl

/-- a frame that is longer than what is there is waited for, for ever -/
theorem decryptLoop_short {p : NetPackageParser} (h0 : p.m_encryptInfo.packSize = 0)
    (h4 : 4 ≤ p.awaiting) (hw : ¬ p.frameWord o wild ≤ p.awaiting) (fuel : Nat) :
    decryptLoop o wild c fuel p = none := by
  have hsize := frameSize_unknown o wild h0
  cases fuel with
  | zero => rfl
  | succ fuel =>
    have hne : (p.sized o wild).m_encryptInfo.packSize ≠ 0 := by
      show p.frameSize o wild ≠ 0
      omega
    have hlong : ¬ p.frameSize o wild ≤ p.awaiting := by omega
    rw [decryptLoop_succ, if_neg (fun hend => hend.2 h4), if_neg hlong]
    exact decryptLoop_waits wild o _ hne hlong fuel

/-- **The loop comes back exactly when the frames leave less than a length word.** -/
theorem decryptLoop_returns (hc : c.Obliging) (d : Nat) :
    ∀ p : NetPackageParser, p.m_encryptInfo.packSize = 0 → p.awaiting = d →
      ((∃ fuel r, decryptLoop o wild c fuel p = some r) ↔ FramesEnd d (p.frameWord o wild)) := by
  induction d using Nat.strong_induction_on with
  | _ d ih =>
    intro p h0 hd
    by_cases h4 : 4 ≤ d
    · have hnever : (∀ fuel, decryptLoop o wild c fuel p = none) →
          ¬ ∃ fuel r, decryptLoop o wild c fuel p = some r := by
        rintro hnone ⟨fuel, r, hr⟩
        rw [hnone fuel] at hr
        cases hr
      by_cases hz : p.frameWord o wild = 0
      · -- the loop stays where it is
        refine iff_of_false (hnever fun fuel => decryptLoop_zero o wild hc fuel p h0 (by omega) hz) ?_
        rintro (hlt | ⟨hne, -⟩)
        · omega
        · exact hne hz
      · by_cases hw : p.frameWord o wild ≤ d
        · -- a frame is taken off
          obtain ⟨p', bs, hstep, he, hi⟩ :=
            decryptLoop_round o wild hc p h0 (by omega) (by omega)
          obtain ⟨h0', hd', hw'⟩ := round_awaiting o wild he hi
          have hih := ih (d - p.frameWord o wild) (by omega) p' h0' (by omega)
          rw [hw', framesEnd_sub h4 hz hw] at hih
          rw [← hih]
          constructor
          · rintro ⟨fuel, r, hr⟩
            cases fuel with
            | zero => cases hr
            | succ fuel =>
              rw [hstep] at hr
              obtain ⟨t, ht, -⟩ := Option.map_eq_some_iff.mp hr
              exact ⟨fuel, t, ht⟩
          · rintro ⟨fuel, t, ht⟩
            exact ⟨fuel + 1, _, by rw [hstep, ht]; rfl⟩
        · -- the first frame is not complete
          refine iff_of_false (hnever (decryptLoop_short o wild h0 (by omega) (by omega))) ?_
          rintro (hlt | ⟨-, hlt⟩)
          · omega
          · rw [Nat.mod_eq_of_lt (by omega)] at hlt
            omega
    · refine iff_of_true ⟨1, (p, []), ?_⟩ (.inl (by omega))
      rw [decryptLoop_succ, if_pos ⟨h0, by omega⟩]

/-- **`feedData` comes back, for a reachable parser and any chunk, exactly when the waiting bytes
are frames of the length that the word at `m_dataIndex` says, and less than four bytes.** -/
theorem feedData_returns_iff {es : List ParserEvent} {p : NetPackageParser}
    (hrun : run (NetPackageParser.act o wild) .fresh es = some p)
    (hcipher : p.m_encryptInfo.cipher = some c) (hc : c.Obliging) (data : ByteArray) (len : Nat) :
    (∃ fuel r, p.feedData o wild fuel data len = some r) ↔
      FramesEnd (p.m_encryptInfo.dataLen + len) ((p.load wild data len).frameWord o wild) := by
  have hs := run_settled o wild hrun
  have hd : (p.load wild data len).awaiting = p.m_encryptInfo.dataLen + len := by
    show p.m_encryptInfo.dataLen + len - p.m_encryptInfo.dataIndex = _
    rw [hs.dataIndex, Nat.sub_zero]
  rw [← decryptLoop_returns o wild hc _ (p.load wild data len) hs.packSize hd]
  constructor
  · rintro ⟨fuel, r, hr⟩
    rw [feedData_cipher o wild hcipher] at hr
    obtain ⟨t, ht, -⟩ := Option.map_eq_some_iff.mp hr
    exact ⟨fuel, t, ht⟩
  · rintro ⟨fuel, t, ht⟩
    exact ⟨fuel, _, by rw [feedData_cipher o wild hcipher, ht]; rfl⟩

end

/-- a chunk of two frames of nine bytes -/
theorem feedData_returns_iff_two :
    let p := NetPackageParser.fresh.setCipher (some (streamCipher 0x5a))
    let data := (streamMatching 0x5a).sealed [1] ++ (streamMatching 0x5a).sealed [2]
    (∃ fuel r, p.feedData .little (fun _ => 0) fuel data 18 = some r) ↔
      FramesEnd (0 + 18) ((p.load (fun _ => 0) data 18).frameWord .little fun _ => 0) :=
  feedData_returns_iff .little (fun _ => 0)
    (show run _ NetPackageParser.fresh [.setCipher (some (streamCipher 0x5a))] = some _ from rfl)
    rfl (streamCipher_obliging 0x5a) _ _

/-- **Five bytes of a frame of nine keep `feedData` from coming back.** -/
theorem feedData_cut : let p := NetPackageParser.fresh.setCipher (some (streamCipher 0x5a))
    (streamCipher 0x5a).Obliging ∧
      ∀ wild, ¬ ∃ fuel r, p.feedData .little wild fuel [0, 0, 0, 9, 0] 5 = some r := by
  refine ⟨streamCipher_obliging 0x5a, fun wild => ?_⟩
  rintro ⟨fuel, r, hr⟩
  have h : NetPackageParser.feedData .little wild fuel _ [0, 0, 0, 9, 0] 5 = none :=
    feedData_stuck wild (opened_fresh (streamCipher 0x5a)) [0, 0, 0, 9, 0] (by simp) (by decide) fuel
  rw [h] at hr
  cases hr

end Netwb
