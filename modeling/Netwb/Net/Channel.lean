import Netwb.Net.Parser
import Netwb.Lib.Framing

/-!
# The encrypted channel

The sender seals each block of plaintext into a frame (`BaseCipher.Matching.sealed`); the receiver
passes what arrives to `feedData`, whose cipher is set.

* `feedData_frames`   a chunk that consists of whole frames of one length is opened, frame by
                      frame, and leaves nothing behind;
* `feedData_channel`  so over any chunks of this kind exactly the blocks arrive;
* `feedData_stuck`    a chunk that ends inside a frame keeps the loop of `feedData` running.

The length word of every frame is read at `m_dataIndex`, the place of the first one; this is where
the one length is needed.  It is copied to the front of a `size_t`, so the host is little-endian.
-/

namespace Netwb
open Wire Framing

section
variable {c : BaseCipher} (m : c.Matching) (wild : Int → BYTE)

/-! ## reading words and ciphertext out of the buffer -/

theorem read32_be32 (o : ByteOrder) (buf : ByteArray) (k : Nat) (w : BitVec 32) (t : ByteArray)
    (h : buf.drop k = be32 w ++ t) : hton32 o (read32 o wild buf k) = w := by
  have hl := congrArg List.length h
  rw [List.length_drop, List.length_append, be32_length] at hl
  have hp : Vec.peeks wild buf k 4 = be32 w := by
    rw [Vec.peeks_inside wild buf k 4 (by omega), h]
    rfl
  simp only [Vec.peeks, be32, Int.add_assoc, Int.reduceAdd] at hp
  injection hp with h0 hp
  injection hp with h1 hp
  injection hp with h2 hp
  injection hp with h3 hp
  rw [read32, ntoh_load32, h0, h1, h2, h3, join32_byteAt]

theorem decryptFrame_sealed (o : ByteOrder) (p : NetPackageParser) (fuel : Nat) (b t : ByteArray)
    (hb : b.length + 8 < 2 ^ 32) (hs : p.m_encryptInfo.packSize = b.length + 8)
    (ht : p.m_encryptInfo.dataBuf.drop p.m_encryptInfo.dataIndex = m.sealed b ++ t) :
    ∃ p', decryptFrame o wild c p (fuel + 1) (List.replicate ((b.length + 8) * 2) 0)
        = some (p', [b]) ∧ p'.m_encryptInfo = p.m_encryptInfo ∧
      p'.m_dataIndex = p.m_dataIndex := by
  have hl := congrArg List.length ht
  rw [List.length_drop, List.length_append, sealed_length] at hl
  have ht4 : p.m_encryptInfo.dataBuf.drop (p.m_encryptInfo.dataIndex + 4)
      = be32 (BitVec.ofNat 32 b.length) ++ (m.cipherOf b ++ t) := by
    rw [← List.drop_drop, ht]
    rfl
  have ht8 : p.m_encryptInfo.dataBuf.drop (p.m_encryptInfo.dataIndex + 2 * 4)
      = m.cipherOf b ++ t := by
    rw [← List.drop_drop, ht]
    rfl
  have hreal : (hton32 o (read32 o wild p.m_encryptInfo.dataBuf
      (p.m_encryptInfo.dataIndex + 4 : Nat))).toNat = b.length := by
    rw [read32_be32 wild o _ _ _ _ ht4, BitVec.toNat_ofNat, Nat.mod_eq_of_lt (by omega)]
  obtain ⟨tail, htail, hraw⟩ : ∃ tail : ByteArray, tail.length = 8 ∧
      Vec.peeks wild p.m_encryptInfo.dataBuf (p.m_encryptInfo.dataIndex + 2 * 4 : Nat)
        (b.length + 8) = m.cipherOf b ++ tail := by
    refine ⟨Vec.peeks wild p.m_encryptInfo.dataBuf
      (((p.m_encryptInfo.dataIndex + 2 * 4 : Nat) : Int) + (b.length : Int)) 8,
      Vec.peeks_length wild _ _ 8, ?_⟩
    rw [Vec.peeks_append, Vec.peeks_inside wild _ _ b.length (by omega), ht8,
      List.take_left' (m.cipher_length b)]
  obtain ⟨rest, hdec⟩ := m.decrypt_ok b tail ((b.length + 8) * 2) (by omega)
  have hout : Vec.peeks wild (Vec.memcpy (List.replicate ((b.length + 8) * 2) 0) 0 (b ++ rest)) 0
      b.length = b := by
    rw [Vec.peeks_copied wild _ _ _ (by rw [List.length_replicate]; omega)
      (by rw [List.length_append]; omega), List.take_left]
  obtain ⟨f1, f2⟩ := feedPack_frame wild p
    (Vec.memcpy (List.replicate ((b.length + 8) * 2) 0) 0 (b ++ rest)) b.length
  refine ⟨_, ?_, f1, f2⟩
  rw [decryptFrame, hreal, hs, hraw, List.length_replicate, hdec]
  show some (_, [_]) = _
  rw [hout]

/-! ## the loop -/

/-- **Frames of one length are opened one after the other.** -/
theorem decryptLoop_sealed (n : Nat) (hn : n + 8 < 2 ^ 32) (w : ByteArray) (g : List ByteArray)
    (hg : ∀ b ∈ g, b.length = n) : ∀ (p : NetPackageParser) (fuel : Nat), g.length < fuel →
    p.m_encryptInfo.packSize = 0 → p.m_dataIndex = 0 →
    p.m_encryptInfo.dataLen = p.m_encryptInfo.dataIndex + (g.map m.sealed).flatten.length →
    (g ≠ [] → p.m_encryptInfo.dataBuf = be32 (BitVec.ofNat 32 (8 + n)) ++ w) →
    (g.map m.sealed).flatten <+: p.m_encryptInfo.dataBuf.drop p.m_encryptInfo.dataIndex →
    ∃ p', decryptLoop .little wild c fuel p = some (p', g) ∧
      p'.m_encryptInfo = { p.m_encryptInfo with dataIndex := p.m_encryptInfo.dataLen } ∧
      p'.m_dataIndex = 0 := by
  induction g with
  | nil =>
    intro p fuel hf h0 hi hlen _ _
    obtain ⟨k, rfl⟩ : ∃ k, fuel = k + 1 := ⟨fuel - 1, by simp at hf; omega⟩
    have hz : p.m_encryptInfo.dataLen = p.m_encryptInfo.dataIndex := by simpa using hlen
    refine ⟨p, ?_, ?_, hi⟩
    · rw [decryptLoop, if_pos ⟨h0, by omega⟩]
    · rw [hz]
  | cons b g ih =>
    intro p fuel hf h0 hi hlen hw hpre
    obtain ⟨k, rfl⟩ : ∃ k, fuel = k + 1 := ⟨fuel - 1, by simp at hf; omega⟩
    have hb := hg b (List.mem_cons_self ..)
    obtain ⟨t, ht⟩ := hpre
    rw [List.map_cons, List.flatten_cons, List.append_assoc] at ht
    rw [List.map_cons, List.flatten_cons, List.length_append, sealed_length] at hlen
    have hword : (hton32 .little (packSizeWord .little wild p.m_encryptInfo.dataBuf
        p.m_dataIndex)).toNat = n + 8 := by
      have h := read32_be32 wild .little p.m_encryptInfo.dataBuf 0 _ w (hw (by simp))
      rw [packSizeWord, hi]
      show (hton32 .little (read32 .little wild p.m_encryptInfo.dataBuf ((0 : Nat) : Int))).toNat = _
      rw [h, BitVec.toNat_ofNat, Nat.mod_eq_of_lt (by omega)]
      omega
    have hmore : ¬ (p.m_encryptInfo.packSize = 0 ∧
        ¬ 4 ≤ p.m_encryptInfo.dataLen - p.m_encryptInfo.dataIndex) := by
      omega
    obtain ⟨p1, e1, f1, i1⟩ := decryptFrame_sealed m wild .little
      { p with m_encryptInfo := { p.m_encryptInfo with packSize := n + 8 } } k b
      ((g.map m.sealed).flatten ++ t) (by omega) (by rw [hb]) ht.symm
    rw [hb] at e1
    obtain ⟨p2, e2, f2, i2⟩ := ih (fun x hx => hg x (List.mem_cons_of_mem _ hx))
      { p1 with m_encryptInfo :=
        { p1.m_encryptInfo with
          dataIndex := p1.m_encryptInfo.dataIndex + (n + 8), packSize := 0 } } k
      (by simp at hf; omega) rfl (i1.trans hi)
      (by
        rw [f1]
        show p.m_encryptInfo.dataLen = p.m_encryptInfo.dataIndex + (n + 8) + _
        omega)
      (fun _ => by
        rw [f1]
        exact hw (by simp))
      (by
        rw [f1]
        show _ <+: p.m_encryptInfo.dataBuf.drop (p.m_encryptInfo.dataIndex + (n + 8))
        refine ⟨t, ?_⟩
        rw [← List.drop_drop, ← ht, List.drop_left' (by rw [sealed_length]; omega)])
    refine ⟨p2, ?_, ?_, i2⟩
    · rw [decryptLoop, if_neg hmore, if_pos h0, hword]
      dsimp only
      rw [if_pos (by omega), e1]
      show (decryptLoop .little wild c k _).map _ = _
      rw [e2]
      rfl
    · rw [f2, f1]
      show EncrytInfo.mk _ _ _ 0 _ = EncrytInfo.mk _ _ _ _ _
      rw [h0]

/-! ## one chunk -/

/-- the receiving end between two chunks of whole frames -/
structure Opened (c : BaseCipher) (p : NetPackageParser) : Prop where
  cipher : p.m_encryptInfo.cipher = some c
  m_dataIndex : p.m_dataIndex = 0
  dataLen : p.m_encryptInfo.dataLen = 0
  dataIndex : p.m_encryptInfo.dataIndex = 0
  packSize : p.m_encryptInfo.packSize = 0

theorem opened_fresh (c : BaseCipher) : Opened c (NetPackageParser.fresh.setCipher (some c)) :=
  ⟨rfl, rfl, rfl, rfl, rfl⟩

theorem compact_opened (e : EncrytInfo) (hp : e.packSize = 0) (hi : e.dataIndex = e.dataLen) :
    (e.compact wild).dataLen = 0 ∧ (e.compact wild).dataIndex = 0 ∧
      (e.compact wild).packSize = 0 ∧ (e.compact wild).cipher = e.cipher := by
  unfold EncrytInfo.compact
  split
  · refine ⟨?_, rfl, hp, rfl⟩
    show e.dataLen - e.dataIndex = 0
    omega
  · exact ⟨by omega, by omega, hp, rfl⟩

/-- a chunk of whole frames, those of blocks of one length -/
def OneLength (ch : ByteArray) (g : List ByteArray) : Prop :=
  ch = (g.map m.sealed).flatten ∧ ∃ n, n + 8 < 2 ^ 32 ∧ ∀ b ∈ g, b.length = n

/-- between two such chunks a new one is put to the front of the cipher buffer -/
theorem feedData_load (o : ByteOrder) {p : NetPackageParser} (h : Opened c p) (ch : ByteArray)
    (fuel : Nat) : ∃ buf : ByteArray, p.feedData o wild fuel ch ch.length
      = (decryptLoop o wild c fuel
          { p with m_encryptInfo := ⟨ch ++ buf, ch.length, 0, 0, some c⟩ }).map fun r =>
        ({ r.1 with m_encryptInfo := r.1.m_encryptInfo.compact wild }, r.2) := by
  have hsrc : Vec.peeks wild ch 0 ch.length = ch := Vec.peeks_all wild ch
  obtain ⟨buf, hbuf, hbl⟩ : ∃ buf : ByteArray,
      (if p.m_encryptInfo.dataBuf.length < 0 + ch.length then
        Vec.resize p.m_encryptInfo.dataBuf (0 + ch.length) 0
      else p.m_encryptInfo.dataBuf) = buf ∧ ch.length ≤ buf.length := by
    split
    · exact ⟨_, rfl, by rw [Vec.resize_length]; omega⟩
    · exact ⟨_, rfl, by omega⟩
  have hmem : Vec.memcpy buf ((0 : Nat) : Int) ch = ch ++ buf.drop ch.length := by
    rw [Vec.memcpy_inside buf 0 ch (by omega), List.take_zero, List.nil_append, Nat.zero_add]
  refine ⟨buf.drop ch.length, ?_⟩
  rw [NetPackageParser.feedData, h.cipher]
  dsimp only
  rw [h.dataLen, h.dataIndex, h.packSize, hbuf, hsrc, hmem, Nat.zero_add, h.cipher]

/-- **A chunk of whole frames of one length hands their blocks over and leaves nothing behind.** -/
theorem feedData_frames {p : NetPackageParser} (h : Opened c p) {ch : ByteArray}
    {g : List ByteArray} (hg : OneLength m ch g) (fuel : Nat) (hf : g.length < fuel) :
    ∃ p', p.feedData .little wild fuel ch ch.length = some (p', g) ∧ Opened c p' := by
  obtain ⟨hch, n, hn, hlen⟩ := hg
  obtain ⟨buf, hload⟩ := feedData_load wild .little h ch fuel
  have hfront : g ≠ [] → ∃ w, ch = be32 (BitVec.ofNat 32 (8 + n)) ++ w := by
    intro hne
    cases g with
    | nil => exact absurd rfl hne
    | cons b g =>
      rw [List.map_cons, List.flatten_cons, BaseCipher.Matching.sealed, m.cipher_length,
        hlen b (List.mem_cons_self ..), List.append_assoc, List.append_assoc] at hch
      exact ⟨_, hch⟩
  obtain ⟨w, hw⟩ : ∃ w, g ≠ [] → ch ++ buf = be32 (BitVec.ofNat 32 (8 + n)) ++ w := by
    by_cases hne : g = []
    · exact ⟨[], fun h => absurd hne h⟩
    · obtain ⟨w, hw⟩ := hfront hne
      refine ⟨w ++ buf, fun _ => ?_⟩
      rw [← List.append_assoc, ← hw]
  obtain ⟨p1, e1, f1, i1⟩ := decryptLoop_sealed m wild n hn w g hlen
    { p with m_encryptInfo := ⟨ch ++ buf, ch.length, 0, 0, some c⟩ } fuel hf rfl h.m_dataIndex
    (by rw [hch, Nat.zero_add])
    hw
    (by
      rw [List.drop_zero, ← hch]
      exact List.prefix_append _ _)
  obtain ⟨q1, q2, q3, q4⟩ := compact_opened wild p1.m_encryptInfo (by rw [f1]) (by rw [f1])
  refine ⟨{ p1 with m_encryptInfo := p1.m_encryptInfo.compact wild }, ?_,
    ⟨q4.trans (by rw [f1]), i1, q1, q2, q3⟩⟩
  rw [hload, e1]
  rfl

/-- a frame that is not complete keeps the loop running -/
theorem decryptLoop_waits (o : ByteOrder) (p : NetPackageParser) (h0 : p.m_encryptInfo.packSize ≠ 0)
    (h : ¬ p.m_encryptInfo.packSize ≤ p.m_encryptInfo.dataLen - p.m_encryptInfo.dataIndex)
    (fuel : Nat) : decryptLoop o wild c fuel p = none := by
  induction fuel with
  | zero => rfl
  | succ fuel ih =>
    rw [decryptLoop, if_neg (fun hc => h0 hc.1), if_neg h0]
    exact (if_neg h).trans ih

/-- **A chunk that ends inside its first frame never comes back from `feedData`.** -/
theorem feedData_stuck {p : NetPackageParser} (h : Opened c p) (ch : ByteArray)
    (h4 : 4 ≤ ch.length) (hshort : ch.length < lengthWord ch) (fuel : Nat) :
    p.feedData .little wild fuel ch ch.length = none := by
  obtain ⟨buf, hload⟩ := feedData_load wild .little h ch fuel
  have hword : (hton32 .little (read32 .little wild (ch ++ buf) ((0 : Nat) : Int))).toNat
      = lengthWord ch := by
    match ch, h4 with
    | b0 :: b1 :: b2 :: b3 :: t, _ =>
      have hd : ((b0 :: b1 :: b2 :: b3 :: t) ++ buf).drop 0
          = be32 (join32 b0 b1 b2 b3) ++ (t ++ buf) := by
        obtain ⟨e0, e1, e2, e3⟩ := byteAt_join32 b0 b1 b2 b3
        rw [be32, e0, e1, e2, e3]
        rfl
      rw [read32_be32 wild .little _ 0 _ _ hd]
      rfl
  rw [hload]
  cases fuel with
  | zero => rfl
  | succ fuel =>
    have hz : ¬ ((0 : Nat) = 0 ∧ ¬ 4 ≤ ch.length - 0) := by omega
    have hw : (hton32 .little (packSizeWord .little wild (ch ++ buf) p.m_dataIndex)).toNat
        = lengthWord ch := by
      rw [h.m_dataIndex]
      exact hword
    rw [decryptLoop, if_neg hz, if_pos rfl, hw]
    dsimp only
    rw [if_neg (by omega), decryptLoop_waits wild .little]
    · rfl
    · show lengthWord ch ≠ 0
      omega
    · show ¬ lengthWord ch ≤ ch.length - 0
      omega

/-! ## any number of chunks -/

/-- `feedData` once a chunk: the blocks that each call hands to `feedPack`, and the parser -/
def feedDataAll (o : ByteOrder) (fuel : Nat) : NetPackageParser → List ByteArray →
    Option (List (List ByteArray) × NetPackageParser)
  | p, [] => some ([], p)
  | p, ch :: chs =>
    (p.feedData o wild fuel ch ch.length).bind fun r =>
    (feedDataAll o fuel r.1 chs).map fun t => (r.2 :: t.1, t.2)

theorem feedDataAll_frames {p : NetPackageParser} (h : Opened c p) (fuel : Nat)
    {chs : List ByteArray} {gs : List (List ByteArray)} (hg : List.Forall₂ (OneLength m) chs gs)
    (hf : ∀ g ∈ gs, g.length < fuel) :
    ∃ p', feedDataAll wild .little fuel p chs = some (gs, p') ∧ Opened c p' := by
  induction hg generalizing p with
  | nil => exact ⟨p, rfl, h⟩
  | @cons ch g chs gs h1 _ ih =>
    obtain ⟨p1, e1, o1⟩ := feedData_frames m wild h h1 fuel (hf g (List.mem_cons_self ..))
    obtain ⟨p2, e2, o2⟩ := ih o1 fun x hx => hf x (List.mem_cons_of_mem _ hx)
    refine ⟨p2, ?_, o2⟩
    rw [feedDataAll, e1]
    show (feedDataAll wild .little fuel p1 chs).map _ = _
    rw [e2]
    rfl

end

/-! ## frames are told apart by their length words -/

def frameLook (xs : ByteArray) : Look :=
  if xs.length < 4 then .more
  else if lengthWord xs = 0 then .bad
  else if lengthWord xs ≤ xs.length then .msg (lengthWord xs)
  else .more

theorem frameLook_msg {xs : ByteArray} {n : Nat} (h : frameLook xs = .msg n) :
    n = lengthWord xs ∧ 0 < n ∧ n ≤ xs.length ∧ 4 ≤ xs.length := by
  unfold frameLook at h
  split at h
  · cases h
  · split at h
    · cases h
    · split at h
      · injection h with h
        omega
      · cases h

theorem frameLook_bad {xs : ByteArray} (h : frameLook xs = .bad) :
    4 ≤ xs.length ∧ lengthWord xs = 0 := by
  unfold frameLook at h
  split at h
  · cases h
  · split at h
    · exact ⟨by omega, by assumption⟩
    · split at h <;> cases h

/-- the frames of the encrypted stream -/
def frames : Decoder BYTE where
  look := frameLook
  look_nil := rfl
  msg_pos := by
    intro xs n h
    exact (frameLook_msg h).2.1
  msg_le := by
    intro xs n h
    exact (frameLook_msg h).2.2.1
  msg_append := by
    intro xs n ys h
    obtain ⟨h1, h2, h3, h4⟩ := frameLook_msg h
    have hw := lengthWord_append xs ys h4
    have hl : (xs ++ ys).length = xs.length + ys.length := List.length_append
    rw [frameLook, hw, ← h1, if_neg (by omega), if_neg (by omega), if_pos (by omega)]
  bad_append := by
    intro xs ys h
    obtain ⟨h1, h2⟩ := frameLook_bad h
    have hw := lengthWord_append xs ys h1
    have hl : (xs ++ ys).length = xs.length + ys.length := List.length_append
    rw [frameLook, hw, if_neg (by omega), if_pos h2]

section
variable {c : BaseCipher} (m : c.Matching)

theorem look_sealed (b : ByteArray) (hb : b.length + 8 < 2 ^ 32) :
    frames.look (m.sealed b) = .msg (m.sealed b).length := by
  have hl := sealed_length m b
  have hw : lengthWord (m.sealed b) = (m.sealed b).length := by
    show (join32 _ _ _ _).toNat = _
    rw [join32_byteAt, BitVec.toNat_ofNat, m.cipher_length, Nat.mod_eq_of_lt (by omega), hl]
  show frameLook (m.sealed b) = _
  rw [frameLook, hw, if_neg (by omega), if_neg (by omega), if_pos (Nat.le_refl _)]

theorem sealed_unique {gs bs : List ByteArray} (hg : ∀ b ∈ gs, b.length + 8 < 2 ^ 32)
    (hb : ∀ b ∈ bs, b.length + 8 < 2 ^ 32)
    (h : (gs.map m.sealed).flatten = (bs.map m.sealed).flatten) : gs = bs := by
  have hdrain : ∀ xs : List ByteArray, (∀ b ∈ xs, b.length + 8 < 2 ^ 32) →
      (drain frames (xs.map m.sealed).flatten).frames = xs.map m.sealed := by
    intro xs hxs
    rw [drain_flatten_frames frames]
    intro f hf
    obtain ⟨b, hb', rfl⟩ := List.mem_map.mp hf
    exact look_sealed m b (hxs b hb')
  have hmap : gs.map m.sealed = bs.map m.sealed := by rw [← hdrain gs hg, h, hdrain bs hb]
  exact List.map_injective_iff.mpr (fun _ _ => sealed_injective m) hmap

/-- chunks of whole frames are a stream of frames -/
theorem oneLength_flatten {chs : List ByteArray} {gs : List (List ByteArray)}
    (h : List.Forall₂ (OneLength m) chs gs) :
    chs.flatten = (gs.flatten.map m.sealed).flatten ∧ ∀ b ∈ gs.flatten, b.length + 8 < 2 ^ 32 := by
  induction h with
  | nil => exact ⟨rfl, fun b hb => by cases hb⟩
  | cons h1 _ ih =>
    obtain ⟨hch, n, hn, hlen⟩ := h1
    refine ⟨?_, ?_⟩
    · rw [List.flatten_cons, List.flatten_cons, List.map_append, List.flatten_append, ← hch, ih.1]
    · intro b hb
      rw [List.flatten_cons] at hb
      rcases List.mem_append.mp hb with hb' | hb'
      · rw [hlen b hb']
        exact hn
      · exact ih.2 b hb'

theorem oneLength_groups {chs : List ByteArray} (h : ∀ ch ∈ chs, ∃ g, OneLength m ch g) :
    ∃ gs, List.Forall₂ (OneLength m) chs gs := by
  induction chs with
  | nil => exact ⟨[], .nil⟩
  | cons ch chs ih =>
    obtain ⟨g, hg⟩ := h ch (List.mem_cons_self ..)
    obtain ⟨gs, hgs⟩ := ih fun x hx => h x (List.mem_cons_of_mem _ hx)
    exact ⟨g :: gs, .cons hg hgs⟩

/-- **Over chunks of whole frames, those of a chunk of one length, exactly the blocks arrive.** -/
theorem feedData_channel (wild : Int → BYTE) (blocks : List ByteArray)
    (hlen : ∀ b ∈ blocks, b.length + 8 < 2 ^ 32) (chunks : List ByteArray)
    (hcut : chunks.flatten = (blocks.map m.sealed).flatten)
    (hwhole : ∀ ch ∈ chunks, ∃ g, OneLength m ch g) (fuel : Nat) (hf : blocks.length < fuel) :
    ∃ calls p', feedDataAll wild .little fuel (NetPackageParser.fresh.setCipher (some c)) chunks
        = some (calls, p') ∧ calls.flatten.flatten = blocks.flatten := by
  obtain ⟨gs, hgs⟩ := oneLength_groups m hwhole
  obtain ⟨hflat, hsmall⟩ := oneLength_flatten m hgs
  have hblocks : gs.flatten = blocks := sealed_unique m hsmall hlen (hflat.symm.trans hcut)
  obtain ⟨p', e, _⟩ := feedDataAll_frames m wild (opened_fresh c) fuel hgs fun g hg => by
    have := (List.sublist_flatten_of_mem hg).length_le
    rw [hblocks] at this
    omega
  exact ⟨gs, p', e, by rw [hblocks]⟩

end

/-! ## a cipher -/

/-- the exclusive or with a key stream, as a stream cipher does within its first block -/
def streamCipher (key : BYTE) : BaseCipher where
  encrypt raw room := if room < raw.length then (.BUFFER_ERROR, []) else (.OK, raw.map (· ^^^ key))
  decrypt raw room := if room < raw.length then (.BUFFER_ERROR, []) else (.OK, raw.map (· ^^^ key))

def streamMatching (key : BYTE) : (streamCipher key).Matching where
  cipherOf p := p.map (· ^^^ key)
  cipher_length p := List.length_map _
  encrypt_ok p room h := if_neg (by omega)
  decrypt_ok p tail room h := by
    refine ⟨tail.map (· ^^^ key), ?_⟩
    have hp : (p.map (· ^^^ key)).map (· ^^^ key) = p := by
      rw [List.map_map]
      conv_rhs => rw [← List.map_id p]
      refine List.map_congr_left fun x _ => ?_
      show (x ^^^ key) ^^^ key = x
      rw [BitVec.xor_assoc, BitVec.xor_self, BitVec.xor_zero]
    show (if _ then _ else _) = _
    rw [if_neg (by rw [List.length_append, List.length_map]; omega), List.map_append, hp]

/-- two blocks in one chunk, and an empty chunk -/
theorem feedData_channel_two : let m := streamMatching 0x5a
    ∃ calls p', feedDataAll (fun _ => 0) .little 3
        (NetPackageParser.fresh.setCipher (some (streamCipher 0x5a)))
        [m.sealed [1] ++ m.sealed [2], []] = some (calls, p') ∧
      calls.flatten.flatten = [[1], [2]].flatten := by
  intro m
  refine feedData_channel m (fun _ => 0) [[1], [2]] (by decide) _ (by decide) ?_ 3 (by decide)
  intro ch hch
  rcases List.mem_cons.mp hch with rfl | hch'
  · exact ⟨[[1], [2]], by decide, 1, by decide, by decide⟩
  · rw [List.mem_singleton.mp hch']
    exact ⟨[], rfl, 0, by decide, by decide⟩

/-- one block of one byte, its frame cut into five bytes and four -/
theorem feedData_channel_cut : let m := streamMatching 0x5a
    let chunks := [(m.sealed [1]).take 5, (m.sealed [1]).drop 5]
    chunks.flatten = ([[1]].map m.sealed).flatten ∧
      ∀ wild fuel, feedDataAll wild .little fuel
        (NetPackageParser.fresh.setCipher (some (streamCipher 0x5a))) chunks = none := by
  intro m chunks
  refine ⟨by decide, fun wild fuel => ?_⟩
  have h := feedData_stuck wild (opened_fresh (streamCipher 0x5a)) ((m.sealed [1]).take 5)
    (by decide) (by decide) fuel
  show (NetPackageParser.feedData .little wild fuel _ ((m.sealed [1]).take 5) _).bind _ = none
  rw [h]
  rfl

end Netwb
