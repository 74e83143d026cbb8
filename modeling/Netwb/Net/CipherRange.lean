import Netwb.Lib.Simulation
import Netwb.Net.CipherLoop

/-!
# What the loop of `feedData` touches

Each round of the loop reads a length word, reads the length of the block, gives a range of the
buffer to the cipher and hands a number of decrypted bytes to `feedPack` (`Access`).  The rounds are
the ones of `decryptLoop` (`rounds_fed`), listed also when the loop never ends.

The cipher is given `packSize` bytes from behind the eight bytes of the header, and `packSize`
counts those eight; the length word is read at `m_dataIndex`; and the length of the block is used
unchecked.  So a round stays within the received bytes only if eight more have arrived
(`EachInRange`), and over runs the calls are in range exactly under `InRange`.
-/

namespace Netwb
open Wire Machine

inductive Access where
  | lengthWord (pos : Nat)
  | realLen (pos : Nat)
  | source (pos n : Nat)
  | feed (len decrypted : Nat)
deriving DecidableEq, Repr

/-- within the received bytes from `dataIndex` on, and no more fed than decrypted -/
def Access.InRange (dataIndex dataLen : Nat) : Access → Prop
  | .lengthWord pos => dataIndex ≤ pos ∧ pos + 4 ≤ dataLen
  | .realLen pos => dataIndex ≤ pos ∧ pos + 4 ≤ dataLen
  | .source pos n => dataIndex ≤ pos ∧ pos + n ≤ dataLen
  | .feed len decrypted => len ≤ decrypted

instance (i n : Nat) : ∀ a, Decidable (Access.InRange i n a)
  | .lengthWord _ => inferInstanceAs (Decidable (_ ∧ _))
  | .realLen _ => inferInstanceAs (Decidable (_ ∧ _))
  | .source _ _ => inferInstanceAs (Decidable (_ ∧ _))
  | .feed _ _ => inferInstanceAs (Decidable (_ ≤ _))

def Access.fedLen : Access → Option Nat
  | .feed len _ => some len
  | _ => none

/-- one round of the outer loop -/
structure Round where
  dataIndex : Nat
  dataLen : Nat
  accesses : List Access
deriving DecidableEq, Repr

structure Round.Safe (r : Round) : Prop where
  index_le : r.dataIndex ≤ r.dataLen
  inRange : ∀ a ∈ r.accesses, a.InRange r.dataIndex r.dataLen

section
variable (o : ByteOrder) (wild : Int → BYTE)

/-- the length of the block in the frame at a position of the cipher buffer -/
def blockLen (dataBuf : ByteArray) (pos : Nat) : Nat :=
  (hton32 o (read32 o wild dataBuf (pos + 4 : Nat))).toNat

/-- what the cipher is given of a frame of `n` bytes at a position -/
def frameSource (dataBuf : ByteArray) (pos n : Nat) : ByteArray :=
  Vec.peeks wild dataBuf (pos + 2 * 4 : Nat) n

/-- the inner loop, by the room it offers the cipher -/
def attempts (cipher : BaseCipher) (e : EncrytInfo) : Nat → Nat → List Access
  | 0, _ => []
  | fuel + 1, room =>
    let (ret, out) := cipher.decrypt (frameSource wild e.dataBuf e.dataIndex e.packSize) room
    .realLen (e.dataIndex + 4) :: .source (e.dataIndex + 2 * 4) e.packSize ::
      match ret with
      | .OK => [.feed (blockLen o wild e.dataBuf e.dataIndex) out.length]
      | .BUFFER_ERROR => attempts cipher e fuel (room * 2)
      | .UNKNOWN_ERROR => []

/-- the rounds of `decryptLoop` -/
def rounds (cipher : BaseCipher) : Nat → NetPackageParser → List Round
  | 0, _ => []
  | fuel + 1, p =>
    let e := p.m_encryptInfo
    if e.packSize = 0 ∧ ¬ 4 ≤ p.awaiting then [⟨e.dataIndex, e.dataLen, []⟩]
    else
      let packSize := p.frameSize o wild
      let word : List Access := if e.packSize = 0 then [.lengthWord p.m_dataIndex] else []
      if packSize ≤ p.awaiting then
        let q := p.sized o wild
        ⟨e.dataIndex, e.dataLen,
          word ++ attempts o wild cipher q.m_encryptInfo (fuel + 1) (packSize * 2)⟩ ::
          match decryptFrame o wild cipher q (fuel + 1) (List.replicate (packSize * 2) 0) with
          | some r => rounds cipher fuel (r.1.advance packSize)
          | none => []
      else ⟨e.dataIndex, e.dataLen, word⟩ :: rounds cipher fuel (p.sized o wild)

/-! ## the rounds are those of the loop -/

def fedLens (rs : List Round) : List Nat := rs.flatMap fun r => r.accesses.filterMap Access.fedLen

variable {c : BaseCipher}

theorem attempts_fed {p : NetPackageParser} {fuel : Nat} {bytes : ByteArray}
    {r : NetPackageParser × List ByteArray}
    (h : decryptFrame o wild c p fuel bytes = some r) :
    (attempts o wild c p.m_encryptInfo fuel bytes.length).filterMap Access.fedLen
      = r.2.map List.length := by
  induction fuel generalizing bytes with
  | zero => cases h
  | succ fuel ih =>
    rcases hd : c.decrypt (frameSource wild p.m_encryptInfo.dataBuf p.m_encryptInfo.dataIndex
      p.m_encryptInfo.packSize) bytes.length with ⟨ret, out⟩
    have hd' := hd
    rw [frameSource] at hd'
    rw [decryptFrame, hd'] at h
    rw [attempts, hd]
    cases ret with
    | OK =>
      injection h with h
      rw [← h]
      show [blockLen o wild p.m_encryptInfo.dataBuf p.m_encryptInfo.dataIndex] = [_]
      rw [Vec.peeks_length]
      rfl
    | BUFFER_ERROR =>
      have hih := ih h
      rw [Vec.resize_length, Vec.memcpy_length] at hih
      exact hih
    | UNKNOWN_ERROR =>
      injection h with h
      rw [← h]
      rfl

/-- **What the rounds hand to `feedPack` is what the loop hands to it.** -/
theorem rounds_fed {p : NetPackageParser} {fuel : Nat} {r : NetPackageParser × List ByteArray}
    (h : decryptLoop o wild c fuel p = some r) :
    fedLens (rounds o wild c fuel p) = r.2.map List.length := by
  induction fuel generalizing p r with
  | zero => cases h
  | succ fuel ih =>
    have hword : (if p.m_encryptInfo.packSize = 0 then [Access.lengthWord p.m_dataIndex]
        else []).filterMap Access.fedLen = [] := by
      split <;> rfl
    rw [decryptLoop_succ] at h
    rw [rounds]
    dsimp only
    split at h
    · rename_i hend
      injection h with h
      rw [if_pos hend, ← h]
      rfl
    · rename_i hend
      rw [if_neg hend]
      split at h
      · rename_i hopen
        obtain ⟨f, hf, h⟩ := Option.bind_eq_some_iff.mp h
        obtain ⟨t, ht, h⟩ := Option.map_eq_some_iff.mp h
        have hat := attempts_fed o wild hf
        rw [List.length_replicate] at hat
        rw [if_pos hopen, hf, ← h, List.map_append, ← ih ht, ← hat]
        show List.filterMap _ (_ ++ _) ++ _ = _
        rw [List.filterMap_append, hword]
        rfl
      · rename_i hwait
        rw [if_neg hwait, ← ih h]
        show List.filterMap _ _ ++ _ = _
        rw [hword]
        rfl

/-! ## frames in range -/

/-- whenever the cipher ends well, after any number of doublings of the room, the block is no
longer than what it gave -/
def FedWithin (c : BaseCipher) (raw : ByteArray) (len room : Nat) : Prop :=
  ∀ j, (∀ i < j, (c.decrypt raw (room * 2 ^ i)).1 = .BUFFER_ERROR) →
    (c.decrypt raw (room * 2 ^ j)).1 = .OK → len ≤ (c.decrypt raw (room * 2 ^ j)).2.length

theorem fedWithin_double {raw : ByteArray} {len room : Nat} (h : FedWithin c raw len room)
    (hbuf : (c.decrypt raw room).1 = .BUFFER_ERROR) : FedWithin c raw len (room * 2) := by
  intro j hj hok
  have hpow : ∀ i, room * 2 * 2 ^ i = room * 2 ^ (i + 1) := by
    intro i
    rw [Nat.pow_succ, Nat.mul_assoc, Nat.mul_comm 2]
  rw [hpow] at hok ⊢
  refine h (j + 1) (fun i hi => ?_) hok
  cases i with
  | zero => rwa [Nat.pow_zero, Nat.mul_one]
  | succ i => rw [← hpow]; exact hj i (by omega)

/-- with a cipher that does not ask for more room only the first attempt matters -/
theorem fedWithin_obliging (hc : c.Obliging) {raw : ByteArray} {len room : Nat}
    (hroom : raw.length ≤ room) : FedWithin c raw len room ↔ len ≤ (c.decrypt raw room).2.length := by
  have hok := hc raw room hroom
  constructor
  · intro h
    have h0 := h 0 (fun i hi => absurd hi (Nat.not_lt_zero i))
    rw [Nat.pow_zero, Nat.mul_one] at h0
    exact h0 hok
  · intro hle j hj _
    cases j with
    | zero => rwa [Nat.pow_zero, Nat.mul_one]
    | succ j =>
      have h0 := hj 0 (by omega)
      rw [Nat.pow_zero, Nat.mul_one, hok] at h0
      cases h0

/-- the attempts at a frame that has eight more bytes behind it -/
theorem attempts_inRange {e : EncrytInfo} (h8 : e.dataIndex + 8 + e.packSize ≤ e.dataLen)
    (fuel : Nat) : ∀ room, FedWithin c (frameSource wild e.dataBuf e.dataIndex e.packSize)
      (blockLen o wild e.dataBuf e.dataIndex) room →
      ∀ a ∈ attempts o wild c e fuel room, a.InRange e.dataIndex e.dataLen := by
  induction fuel with
  | zero => exact fun _ _ => List.forall_mem_nil _
  | succ fuel ih =>
    intro room hfed
    rcases hd : c.decrypt (frameSource wild e.dataBuf e.dataIndex e.packSize) room with ⟨ret, out⟩
    rw [attempts, hd]
    refine List.forall_mem_cons.mpr ⟨?_, List.forall_mem_cons.mpr ⟨?_, ?_⟩⟩
    · show _ ≤ _ ∧ _ ≤ _
      omega
    · show _ ≤ _ ∧ _ ≤ _
      omega
    · cases ret with
      | OK =>
        have h0 := hfed 0 (fun i hi => absurd hi (Nat.not_lt_zero i))
        rw [Nat.pow_zero, Nat.mul_one, hd] at h0
        exact List.forall_mem_singleton.mpr (h0 rfl)
      | BUFFER_ERROR => exact ih _ (fedWithin_double hfed (by rw [hd]))
      | UNKNOWN_ERROR => exact List.forall_mem_nil _

/-! ## one call -/

/-- the block of the `k`-th frame of the loaded buffer is within what the cipher makes of it -/
def FrameFits (c : BaseCipher) (q : NetPackageParser) (k : Nat) : Prop :=
  let w := q.frameWord o wild
  FedWithin c (frameSource wild q.m_encryptInfo.dataBuf (k * w) w)
    (blockLen o wild q.m_encryptInfo.dataBuf (k * w)) (w * 2)

/-- each frame, with its length word at or before `m_dataIndex`, has eight bytes more -/
def EachInRange (c : BaseCipher) (q : NetPackageParser) : Prop :=
  let d := q.m_encryptInfo.dataLen
  let w := q.frameWord o wild
  ∀ k, k * w + 4 ≤ d → k * w ≤ q.m_dataIndex ∧ q.m_dataIndex + 4 ≤ d ∧
    ((k + 1) * w ≤ d → (k + 1) * w + 8 ≤ d ∧ FrameFits o wild c q k)

/-- the loaded parser in front of its `k`-th frame -/
structure AtFrame (q : NetPackageParser) (k : Nat) (p : NetPackageParser) : Prop where
  dataBuf : p.m_encryptInfo.dataBuf = q.m_encryptInfo.dataBuf
  dataLen : p.m_encryptInfo.dataLen = q.m_encryptInfo.dataLen
  dataIndex : p.m_encryptInfo.dataIndex = k * q.frameWord o wild
  packSize : p.m_encryptInfo.packSize = 0
  m_dataIndex : p.m_dataIndex = q.m_dataIndex

variable {q p : NetPackageParser} {k : Nat}

theorem atFrame_zero (h : q.Settled) : AtFrame o wild q 0 q :=
  ⟨rfl, rfl, by rw [Nat.zero_mul, h.dataIndex], h.packSize, rfl⟩

theorem atFrame_size (h : AtFrame o wild q k p) : p.frameSize o wild = q.frameWord o wild := by
  rw [frameSize_unknown o wild h.packSize, NetPackageParser.frameWord, h.dataBuf, h.m_dataIndex]
  rfl

theorem atFrame_awaiting (h : AtFrame o wild q k p) :
    p.awaiting = q.m_encryptInfo.dataLen - k * q.frameWord o wild := by
  rw [NetPackageParser.awaiting, h.dataLen, h.dataIndex]

/-- an opened frame leads to the next one -/
theorem atFrame_next (h : AtFrame o wild q k p) {fuel : Nat} {bytes : ByteArray}
    {r : NetPackageParser × List ByteArray}
    (hr : decryptFrame o wild c (p.sized o wild) fuel bytes = some r) :
    AtFrame o wild q (k + 1) (r.1.advance (p.frameSize o wild)) := by
  obtain ⟨h1, h2⟩ := decryptFrame_frame o wild hr
  refine ⟨?_, ?_, ?_, rfl, h2.trans h.m_dataIndex⟩
  · show r.1.m_encryptInfo.dataBuf = _
    rw [h1]
    exact h.dataBuf
  · show r.1.m_encryptInfo.dataLen = _
    rw [h1]
    exact h.dataLen
  · show r.1.m_encryptInfo.dataIndex + _ = _
    rw [h1, atFrame_size o wild h, Nat.succ_mul]
    exact congrArg (· + _) h.dataIndex

/-- waiting for a long frame touches nothing -/
theorem rounds_waiting (fuel : Nat) : ∀ p : NetPackageParser, p.m_encryptInfo.packSize ≠ 0 →
    ¬ p.m_encryptInfo.packSize ≤ p.awaiting →
    p.m_encryptInfo.dataIndex ≤ p.m_encryptInfo.dataLen →
    ∀ r ∈ rounds o wild c fuel p, r.Safe := by
  induction fuel with
  | zero => exact fun _ _ _ _ => List.forall_mem_nil _
  | succ fuel ih =>
    intro p h0 hlong hi
    have hsize : p.frameSize o wild = p.m_encryptInfo.packSize := if_neg h0
    have hsame : p.sized o wild = p := by
      rw [NetPackageParser.sized, hsize]
    rw [rounds]
    dsimp only
    rw [if_neg (fun hend => h0 hend.1), if_neg (hsize ▸ hlong), hsame, if_neg h0]
    exact List.forall_mem_cons.mpr ⟨⟨hi, List.forall_mem_nil _⟩, ih p h0 hlong hi⟩

/-- **Frames in range keep every round within the received bytes**, whatever the cipher is. -/
theorem rounds_safe (hq : EachInRange o wild c q) (fuel : Nat) :
    ∀ k p, AtFrame o wild q k p → k * q.frameWord o wild ≤ q.m_encryptInfo.dataLen →
      ∀ r ∈ rounds o wild c fuel p, r.Safe := by
  induction fuel with
  | zero => exact fun _ _ _ _ => List.forall_mem_nil _
  | succ fuel ih =>
    intro k p hp hk
    have hsize := atFrame_size o wild hp
    have hleft := atFrame_awaiting o wild hp
    have hindex := hp.dataIndex
    have hlen := hp.dataLen
    have h0 := hp.packSize
    have hle : p.m_encryptInfo.dataIndex ≤ p.m_encryptInfo.dataLen := by omega
    rw [rounds]
    dsimp only
    by_cases h4 : 4 ≤ p.awaiting
    · obtain ⟨hm, hm4, hopen⟩ := hq k (by omega)
      have hword : Access.InRange p.m_encryptInfo.dataIndex p.m_encryptInfo.dataLen
          (.lengthWord p.m_dataIndex) := by
        show _ ≤ _ ∧ _ ≤ _
        rw [hindex, hlen, hp.m_dataIndex]
        exact ⟨hm, hm4⟩
      rw [if_neg (fun hend => hend.2 h4), if_pos h0]
      by_cases hw : p.frameSize o wild ≤ p.awaiting
      · -- the frame is opened
        have hnext : (k + 1) * q.frameWord o wild ≤ q.m_encryptInfo.dataLen := by
          rw [Nat.succ_mul]
          omega
        obtain ⟨h8, hfits⟩ := hopen hnext
        rw [Nat.succ_mul] at h8
        have hat := attempts_inRange o wild (c := c) (e := (p.sized o wild).m_encryptInfo)
          (by
            show p.m_encryptInfo.dataIndex + 8 + p.frameSize o wild ≤ p.m_encryptInfo.dataLen
            omega)
          (fuel + 1) (p.frameSize o wild * 2)
          (by
            show FedWithin c (frameSource wild p.m_encryptInfo.dataBuf p.m_encryptInfo.dataIndex
              (p.frameSize o wild)) (blockLen o wild p.m_encryptInfo.dataBuf
              p.m_encryptInfo.dataIndex) _
            rw [hindex, hsize, hp.dataBuf]
            exact hfits)
        rw [if_pos hw]
        refine List.forall_mem_cons.mpr ⟨⟨hle, ?_⟩, ?_⟩
        · exact List.forall_mem_cons.mpr ⟨hword, hat⟩
        · split
          · rename_i r hr
            exact ih (k + 1) _ (atFrame_next o wild hp hr) hnext
          · exact List.forall_mem_nil _
      · -- it is waited for
        rw [if_neg hw]
        refine List.forall_mem_cons.mpr ⟨⟨hle, List.forall_mem_singleton.mpr hword⟩, ?_⟩
        refine rounds_waiting o wild fuel _ ?_ hw hle
        show p.frameSize o wild ≠ 0
        omega
    · rw [if_pos ⟨h0, h4⟩]
      exact List.forall_mem_singleton.mpr ⟨hle, List.forall_mem_nil _⟩

/-! ## with a cipher that does not ask for more room -/

theorem rounds_open (hp : AtFrame o wild q k p) (h4 : 4 ≤ p.awaiting)
    (hw : p.frameSize o wild ≤ p.awaiting) (fuel : Nat) :
    rounds o wild c (fuel + 1) p
      = ⟨p.m_encryptInfo.dataIndex, p.m_encryptInfo.dataLen, .lengthWord p.m_dataIndex ::
          attempts o wild c (p.sized o wild).m_encryptInfo (fuel + 1) (p.frameSize o wild * 2)⟩ ::
        match decryptFrame o wild c (p.sized o wild) (fuel + 1)
          (List.replicate (p.frameSize o wild * 2) 0) with
        | some r => rounds o wild c fuel (r.1.advance (p.frameSize o wild))
        | none => [] := by
  rw [rounds]
  dsimp only
  rw [if_neg (fun hend => hend.2 h4), if_pos hp.packSize, if_pos hw]
  rfl

/-- every frame is reached, and the rounds from there on are among those from the start -/
theorem rounds_reach (hc : c.Obliging) (hq : q.Settled)
    (h : ∀ fuel, ∀ r ∈ rounds o wild c fuel q, r.Safe) :
    ∀ k, k * q.frameWord o wild + 4 ≤ q.m_encryptInfo.dataLen →
      ∃ p, AtFrame o wild q k p ∧ ∀ fuel, ∀ r ∈ rounds o wild c fuel p, r.Safe := by
  intro k
  induction k with
  | zero => exact fun _ => ⟨q, atFrame_zero o wild hq, h⟩
  | succ k ih =>
    intro hk
    rw [Nat.succ_mul] at hk
    obtain ⟨p, hp, hsafe⟩ := ih (by omega)
    have hsize := atFrame_size o wild hp
    have hleft := atFrame_awaiting o wild hp
    obtain ⟨r, hr⟩ := decryptFrame_obliging o wild hc (p.sized o wild)
      (List.replicate (p.frameSize o wild * 2) 0)
      (by rw [List.length_replicate]; exact Nat.le_mul_of_pos_right _ (by omega))
    refine ⟨_, atFrame_next o wild hp (hr 0), fun fuel => ?_⟩
    have hall := hsafe (fuel + 1)
    rw [rounds_open o wild hp (by omega) (by omega), hr fuel] at hall
    exact (List.forall_mem_cons.mp hall).2

theorem eachInRange_of_rounds (hc : c.Obliging) (hq : q.Settled)
    (h : ∀ fuel, ∀ r ∈ rounds o wild c fuel q, r.Safe) : EachInRange o wild c q := by
  intro k hk
  obtain ⟨p, hp, hsafe⟩ := rounds_reach o wild hc hq h k hk
  have hsize := atFrame_size o wild hp
  have hleft := atFrame_awaiting o wild hp
  by_cases hw : p.frameSize o wild ≤ p.awaiting
  · -- the frame is opened: look at its accesses
    have hround := hsafe 1
    rw [rounds_open o wild hp (by omega) hw] at hround
    obtain ⟨hword, hat⟩ := List.forall_mem_cons.mp (List.forall_mem_cons.mp hround).1.inRange
    have hok := hc (frameSource wild p.m_encryptInfo.dataBuf p.m_encryptInfo.dataIndex
      (p.frameSize o wild)) (p.frameSize o wild * 2)
      (by rw [frameSource, Vec.peeks_length]; omega)
    rcases hd : c.decrypt (frameSource wild p.m_encryptInfo.dataBuf p.m_encryptInfo.dataIndex
      (p.frameSize o wild)) (p.frameSize o wild * 2) with ⟨ret, out⟩
    rw [hd] at hok
    have hret : ret = .OK := hok
    have hd' : c.decrypt (frameSource wild (p.sized o wild).m_encryptInfo.dataBuf
      (p.sized o wild).m_encryptInfo.dataIndex (p.sized o wild).m_encryptInfo.packSize)
      (p.frameSize o wild * 2) = (.OK, out) := hret ▸ hd
    rw [attempts, hd'] at hat
    obtain ⟨-, hat⟩ := List.forall_mem_cons.mp hat
    obtain ⟨hsource, hat⟩ := List.forall_mem_cons.mp hat
    have hfeed : blockLen o wild p.m_encryptInfo.dataBuf p.m_encryptInfo.dataIndex ≤ out.length :=
      hat _ (List.mem_singleton.mpr rfl)
    have hsource2 : p.m_encryptInfo.dataIndex + 2 * 4 + p.frameSize o wild
        ≤ p.m_encryptInfo.dataLen := hsource.2
    have hword' : p.m_encryptInfo.dataIndex ≤ p.m_dataIndex ∧
        p.m_dataIndex + 4 ≤ p.m_encryptInfo.dataLen := hword
    rw [hp.dataIndex, hp.dataLen, hp.m_dataIndex] at hword'
    rw [hp.dataIndex, hp.dataLen] at hsource2
    refine ⟨hword'.1, hword'.2, fun _ => ⟨?_, ?_⟩⟩
    · rw [Nat.succ_mul]
      omega
    · rw [hp.dataBuf, hp.dataIndex] at hfeed hd
      rw [hsize] at hd
      refine (fedWithin_obliging hc (by rw [frameSource, Vec.peeks_length]; omega)).mpr ?_
      rw [hd]
      exact hfeed
  · -- only the length word is read
    have hround := hsafe 1
    rw [rounds] at hround
    dsimp only at hround
    rw [if_neg (fun hend => hend.2 (by omega)), if_pos hp.packSize, if_neg hw] at hround
    have hword := List.forall_mem_singleton.mp (List.forall_mem_cons.mp hround).1.inRange
    have hword' : p.m_encryptInfo.dataIndex ≤ p.m_dataIndex ∧
        p.m_dataIndex + 4 ≤ p.m_encryptInfo.dataLen := hword
    rw [hp.dataIndex, hp.dataLen, hp.m_dataIndex] at hword'
    refine ⟨hword'.1, hword'.2, fun hle => ?_⟩
    rw [Nat.succ_mul] at hle
    omega

/-! ## the condition -/

/-- less than a length word is there; or the word that is read lies in the received bytes, and it
is longer than they are, or it is 0 and a header is there, or the frames it cuts off leave eight
bytes and none starts behind it; and every opened block is within what the cipher makes of it -/
def ChunkInRange (c : BaseCipher) (q : NetPackageParser) : Prop :=
  let d := q.m_encryptInfo.dataLen
  let w := q.frameWord o wild
  d < 4 ∨ q.m_dataIndex + 4 ≤ d ∧
    (d < w ∨ w = 0 ∧ 8 ≤ d ∧ FrameFits o wild c q 0 ∨
      0 < w ∧ d / w * w ≤ q.m_dataIndex ∧ 8 ≤ d % w ∧ ∀ k < d / w, FrameFits o wild c q k)

theorem eachInRange_of_chunk (h : ChunkInRange o wild c q) : EachInRange o wild c q := by
  intro k hk
  rcases h with hlt | ⟨hm, hshort | ⟨hz, h8, hfits⟩ | ⟨hpos, hm', h8, hfits⟩⟩
  · omega
  · -- no frame is complete
    have hk0 : k = 0 := by
      by_contra hne
      have := Nat.le_mul_of_pos_left (q.frameWord o wild) (Nat.pos_of_ne_zero hne)
      omega
    rw [hk0, Nat.zero_mul, Nat.zero_add, Nat.one_mul]
    exact ⟨Nat.zero_le _, hm, fun hle => by omega⟩
  · -- the frames have no bytes
    have hkw : ∀ i, i * q.frameWord o wild = 0 := fun i => by rw [hz, Nat.mul_zero]
    rw [hkw, hkw, Nat.zero_add]
    refine ⟨Nat.zero_le _, hm, fun _ => ⟨h8, ?_⟩⟩
    have hsame : FrameFits o wild c q k = FrameFits o wild c q 0 := by
      rw [FrameFits, FrameFits, hkw, hkw]
    rw [hsame]
    exact hfits
  · have hkd : k ≤ q.m_encryptInfo.dataLen / q.frameWord o wild :=
      (Nat.le_div_iff_mul_le hpos).mpr (by omega)
    refine ⟨(Nat.mul_le_mul_right _ hkd).trans hm', hm, fun hle => ?_⟩
    have hlt := (Nat.le_div_iff_mul_le hpos).mpr hle
    refine ⟨?_, hfits k hlt⟩
    have hdiv := Nat.div_add_mod' q.m_encryptInfo.dataLen (q.frameWord o wild)
    have hmul := Nat.mul_le_mul_right (q.frameWord o wild) hlt
    omega

theorem chunk_of_eachInRange (h : EachInRange o wild c q) : ChunkInRange o wild c q := by
  by_cases h4 : q.m_encryptInfo.dataLen < 4
  · exact .inl h4
  · obtain ⟨-, hm, hfirst⟩ := h 0 (by omega)
    rw [Nat.zero_add, Nat.one_mul] at hfirst
    refine .inr ⟨hm, ?_⟩
    rcases Nat.lt_or_ge q.m_encryptInfo.dataLen (q.frameWord o wild) with hshort | hle
    · exact .inl hshort
    rcases Nat.eq_zero_or_pos (q.frameWord o wild) with hz | hpos
    · obtain ⟨h8, hfits⟩ := hfirst hle
      exact .inr (.inl ⟨hz, by omega, hfits⟩)
    · -- the last frame of which a length word is read has eight bytes behind it
      have hw4 : 4 ≤ q.frameWord o wild := by
        by_contra hw
        have hdiv := Nat.div_mul_le_self (q.m_encryptInfo.dataLen - 4) (q.frameWord o wild)
        have hlast := Nat.lt_div_mul_add (a := q.m_encryptInfo.dataLen - 4) hpos
        have hnext := (h ((q.m_encryptInfo.dataLen - 4) / q.frameWord o wild) (by omega)).2.2
        rw [Nat.succ_mul] at hnext
        obtain ⟨h8, -⟩ := hnext (by omega)
        omega
      have hdiv := Nat.div_add_mod' q.m_encryptInfo.dataLen (q.frameWord o wild)
      have hstep : ∀ k < q.m_encryptInfo.dataLen / q.frameWord o wild,
          (k + 1) * q.frameWord o wild ≤ q.m_encryptInfo.dataLen := fun k hk =>
        (Nat.mul_le_mul_right _ hk).trans (Nat.div_mul_le_self _ _)
      have hopen : ∀ k < q.m_encryptInfo.dataLen / q.frameWord o wild,
          (k + 1) * q.frameWord o wild + 8 ≤ q.m_encryptInfo.dataLen ∧
            FrameFits o wild c q k := by
        intro k hk
        have hin := hstep k hk
        exact (h k (by rw [Nat.succ_mul] at hin; omega)).2.2 hin
      have hq1 : 1 ≤ q.m_encryptInfo.dataLen / q.frameWord o wild :=
        (Nat.le_div_iff_mul_le hpos).mpr (by omega)
      have h8 := (hopen (q.m_encryptInfo.dataLen / q.frameWord o wild - 1) (by omega)).1
      rw [Nat.sub_add_cancel hq1] at h8
      refine .inr (.inr ⟨hpos, ?_, by omega, fun k hk => (hopen k hk).2⟩)
      exact (h (q.m_encryptInfo.dataLen / q.frameWord o wild) (by omega)).1

/-! ## runs -/

/-- every round of a call is within the received bytes -/
def NetPackageParser.RoundsSafe (p : NetPackageParser) : ParserEvent → Prop
  | .feedData _ data len => ∀ c, p.m_encryptInfo.cipher = some c →
      ∀ fuel, ∀ r ∈ rounds o wild c fuel (p.load wild data len), r.Safe
  | _ => True

/-- a chunk that comes with a cipher set is in range -/
def NetPackageParser.CallInRange (p : NetPackageParser) : ParserEvent → Prop
  | .feedData _ data len => ∀ c, p.m_encryptInfo.cipher = some c →
      ChunkInRange o wild c (p.load wild data len)
  | _ => True

theorem load_settled (h : p.Settled) (data : ByteArray) (len : Nat) :
    (p.load wild data len).Settled := ⟨h.packSize, h.dataIndex⟩

theorem roundsSafe_of_inRange (h : p.Settled) {ev : ParserEvent}
    (hr : p.CallInRange o wild ev) : p.RoundsSafe o wild ev := by
  cases ev with
  | setCipher cipher => trivial
  | nextPackage => trivial
  | feedData n data len =>
    intro c hc fuel
    refine rounds_safe o wild (eachInRange_of_chunk o wild (hr c hc)) fuel 0 _
      (atFrame_zero o wild (load_settled wild h data len)) ?_
    rw [Nat.zero_mul]
    exact Nat.zero_le _

theorem inRange_of_roundsSafe (h : p.Settled)
    (hob : ∀ c, p.m_encryptInfo.cipher = some c → c.Obliging) {ev : ParserEvent}
    (hr : p.RoundsSafe o wild ev) : p.CallInRange o wild ev := by
  cases ev with
  | setCipher cipher => trivial
  | nextPackage => trivial
  | feedData n data len =>
    intro c hc
    exact chunk_of_eachInRange o wild
      (eachInRange_of_rounds o wild (hob c hc) (load_settled wild h data len) (hr c hc))

/-- the ciphers that an event sets do not ask for more room than they need -/
def ParserEvent.Obliging : ParserEvent → Prop
  | .setCipher (some c) => c.Obliging
  | _ => True

theorem act_cipher {p' : NetPackageParser} {ev : ParserEvent} (h : p.Settled)
    (hob : ∀ c, p.m_encryptInfo.cipher = some c → c.Obliging) (hev : ev.Obliging)
    (hs : p.act o wild ev = some p') : ∀ c, p'.m_encryptInfo.cipher = some c → c.Obliging := by
  intro c hc
  cases ev with
  | setCipher cipher =>
    injection hs with hs
    have hset : cipher = some c := by
      rw [← hs] at hc
      exact hc
    rw [hset] at hev
    exact hev
  | nextPackage =>
    injection hs with hs
    rw [← hs, nextPackage_encryptInfo o wild p] at hc
    exact hob c hc
  | feedData fuel data len =>
    obtain ⟨r, hr, rfl⟩ := Option.map_eq_some_iff.mp hs
    rw [(feedData_frame o wild h hr).2] at hc
    exact hob c hc

/-- **A run whose chunks are all in range touches nothing outside the received bytes**, whatever its
ciphers are; and with ciphers that do not ask for more room than they need, no other run does. -/
theorem feedData_inRange (es : List ParserEvent) :
    (Along (NetPackageParser.act o wild) (NetPackageParser.CallInRange o wild) .fresh es →
      Along (NetPackageParser.act o wild) (NetPackageParser.RoundsSafe o wild) .fresh es) ∧
    ((∀ ev ∈ es, ev.Obliging) →
      Along (NetPackageParser.act o wild) (NetPackageParser.RoundsSafe o wild) .fresh es →
      Along (NetPackageParser.act o wild) (NetPackageParser.CallInRange o wild) .fresh es) := by
  have hfresh : NetPackageParser.fresh.Settled := ⟨rfl, rfl⟩
  refine ⟨fun h => ?_, fun hob h => ?_⟩
  · exact along_inv NetPackageParser.Settled (fun s e s' hI _ hs => act_settled o wild hI hs)
      (fun s e hI hr => roundsSafe_of_inRange o wild hI hr) hfresh h
  · refine along_inv
      (fun s => s.Settled ∧ ∀ c, s.m_encryptInfo.cipher = some c → c.Obliging) ?_ ?_
      ⟨hfresh, fun c hc => by cases hc⟩ (along_and h (along_events _ hob))
    · rintro s e s' ⟨hI, hcs⟩ ⟨-, hev⟩ hs
      exact ⟨act_settled o wild hI hs, act_cipher o wild hI hcs hev hs⟩
    · rintro s e ⟨hI, hcs⟩ ⟨hr, -⟩
      exact inRange_of_roundsSafe o wild hI hcs hr

end

/-- a package of sixteen bytes; and twenty-four bytes that begin with a frame of sixteen, in which there
is a block of three -/
def wholePackage : ByteArray := [0, 0, 0, 16, 0, 0, 0, 0, 0, 1, 0, 0, 0, 0, 0, 0]

def frameAndMore : ByteArray :=
  [0, 0, 0, 0, 0, 0, 0, 3, 1, 2, 3, 4, 5, 6, 7, 8, 0, 0, 0, 16, 0, 0, 0, 0]

/-- once the package is taken, the length word of the frame is read behind the frame -/
def openedRun : List ParserEvent :=
  [.feedData 1 wholePackage 16, .nextPackage] ++
    [.setCipher (some (streamCipher 0x5a)), .feedData 1 frameAndMore 24]

/-- with the cipher set, the chunk is in range, and its frame is opened -/
theorem frameAndMore_inRange : ∃ p,
    run (NetPackageParser.act .little fun _ => 0) .fresh (openedRun.take 2) = some p ∧
    ChunkInRange .little (fun _ => 0) (streamCipher 0x5a)
      ((p.setCipher (some (streamCipher 0x5a))).load (fun _ => 0) frameAndMore 24) ∧
    rounds .little (fun _ => 0) (streamCipher 0x5a) 2
      ((p.setCipher (some (streamCipher 0x5a))).load (fun _ => 0) frameAndMore 24) =
      [⟨0, 24, [.lengthWord 16, .realLen 4, .source 8 16, .feed 3 16]⟩,
        ⟨16, 24, [.lengthWord 16]⟩] := by
  have hrun : (run (NetPackageParser.act .little fun _ => 0) .fresh (openedRun.take 2)).any (fun p =>
      let q := (p.setCipher (some (streamCipher 0x5a))).load (fun _ => 0) frameAndMore 24
      let raw := frameSource (fun _ => 0) q.m_encryptInfo.dataBuf (0 * 16) 16
      decide ((q.m_dataIndex = 16 ∧ q.m_encryptInfo.dataLen = 24 ∧
        q.frameWord .little (fun _ => 0) = 16) ∧ raw.length ≤ 16 * 2 ∧
        blockLen .little (fun _ => 0) q.m_encryptInfo.dataBuf (0 * 16)
          ≤ ((streamCipher 0x5a).decrypt raw (16 * 2)).2.length ∧
        rounds .little (fun _ => 0) (streamCipher 0x5a) 2 q =
          [⟨0, 24, [.lengthWord 16, .realLen 4, .source 8 16, .feed 3 16]⟩,
            ⟨16, 24, [.lengthWord 16]⟩])) = true := by
    decide +kernel
  obtain ⟨p, hp, hs⟩ := Option.any_eq_true _ _ |>.mp hrun
  obtain ⟨⟨hindex, hlen, hword⟩, hraw, hblock, hrounds⟩ := of_decide_eq_true hs
  refine ⟨p, hp, .inr ⟨by omega, .inr (.inr ?_)⟩, hrounds⟩
  rw [hindex, hlen, hword]
  refine ⟨by decide, by decide, by decide, fun k hk => ?_⟩
  obtain rfl : k = 0 := Nat.lt_one_iff.mp hk
  rw [FrameFits, hword]
  exact (fedWithin_obliging (streamCipher_obliging 0x5a) hraw).mpr hblock

/-- a length word is read, and a frame opened -/
theorem feedData_inRange_opened :
    Along (NetPackageParser.act .little fun _ => 0)
      (NetPackageParser.RoundsSafe .little fun _ => 0) .fresh openedRun ∧
    ∃ p, run (NetPackageParser.act .little fun _ => 0) .fresh (openedRun.take 2) = some p ∧
      rounds .little (fun _ => 0) (streamCipher 0x5a) 2
        ((p.setCipher (some (streamCipher 0x5a))).load (fun _ => 0) frameAndMore 24) =
        [⟨0, 24, [.lengthWord 16, .realLen 4, .source 8 16, .feed 3 16]⟩,
          ⟨16, 24, [.lengthWord 16]⟩] := by
  obtain ⟨p, hp, hin, hrounds⟩ := frameAndMore_inRange
  refine ⟨(feedData_inRange .little (fun _ => 0) _).1 ((along_append hp).mpr ⟨⟨?_, ?_⟩, ?_⟩), p, hp,
    hrounds⟩
  · exact fun c hc => nomatch hc
  · split
    · exact ⟨trivial, by split <;> trivial⟩
    · trivial
  · refine ⟨trivial, fun c hc => ?_, by split <;> trivial⟩
    cases hc
    exact hin

/-- **The frame of a block of one byte, as the sender writes it, is read eight bytes too far.** -/
theorem sealed_outside :
    ¬ Along (NetPackageParser.act .little fun _ => 0)
      (NetPackageParser.RoundsSafe .little fun _ => 0) .fresh
      [.setCipher (some (streamCipher 0x5a)), .feedData 2 ((streamMatching 0x5a).sealed [1]) 9] := by
  rintro ⟨-, hsafe, -⟩
  have hob : ∀ c, (NetPackageParser.fresh.setCipher
      (some (streamCipher 0x5a))).m_encryptInfo.cipher = some c → c.Obliging := by
    intro c hc
    injection hc with hc
    exact hc ▸ streamCipher_obliging 0x5a
  have hchunk := inRange_of_roundsSafe .little (fun _ => 0) ⟨rfl, rfl⟩ hob hsafe _ rfl
  have hword : NetPackageParser.frameWord .little (fun _ => 0) (NetPackageParser.load
      (fun _ => 0) (NetPackageParser.fresh.setCipher (some (streamCipher 0x5a)))
      ((streamMatching 0x5a).sealed [1]) 9) = 9 := by decide
  have hlen : (NetPackageParser.load (fun _ => 0) (NetPackageParser.fresh.setCipher
      (some (streamCipher 0x5a))) ((streamMatching 0x5a).sealed [1]) 9).m_encryptInfo.dataLen
      = 9 := rfl
  rw [ChunkInRange, hword, hlen] at hchunk
  omega

end Netwb
