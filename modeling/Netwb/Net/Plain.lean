import Netwb.Net.Parser
import Netwb.Lib.Framing

/-!
# The parser without a cipher

The bytes between `m_dataIndex` and `m_dataLen` are the `live` ones; `Good` says that the two
indices lie in the buffer in this order.  Seen through `live` the parser is the frame decoder
`plain`: `feedPack` appends (`feedPack_live`), `nextPackage` is one look (`nextPackage_look`), and
the loop of `onDataReceived` drains (`packages_drain`), so a run over chunks is `Framing.run`
(`receive_run`).  What is proved about the loop goes by `good_ind`, along the packages in front.

What is handed over for a frame is `readAt` at its place in the buffer.  That is the package of the
frame (`readAt_frame`) as long as the positions that `decode` computes there are `r_int32` values
(`Fits`), that is, up to two gigabytes into the buffer.
-/

namespace Netwb
open Wire Framing

/-- one look at the live bytes -/
def plainLook (xs : ByteArray) : Look :=
  if xs.length < NET_PACKAGE_HEADER_LENGTH then .more
  else if lengthWord xs < NET_PACKAGE_HEADER_LENGTH ∨
      NET_PACKAGE_INVALID_LENGTH < lengthWord xs then .bad
  else if lengthWord xs ≤ xs.length then .msg (lengthWord xs)
  else .more

theorem plainLook_msg {xs : ByteArray} {n : Nat} (h : plainLook xs = .msg n) :
    n = lengthWord xs ∧ 12 ≤ n ∧ n ≤ NET_PACKAGE_INVALID_LENGTH ∧ n ≤ xs.length ∧
      12 ≤ xs.length := by
  unfold plainLook at h
  split at h
  · cases h
  · split at h
    · cases h
    · split at h
      · injection h with h
        simp only [NET_PACKAGE_HEADER_LENGTH] at *
        omega
      · cases h

theorem plainLook_bad {xs : ByteArray} (h : plainLook xs = .bad) :
    12 ≤ xs.length ∧ (lengthWord xs < 12 ∨ NET_PACKAGE_INVALID_LENGTH < lengthWord xs) := by
  unfold plainLook at h
  split at h
  · cases h
  · split at h
    · rename_i h1 h2
      simp only [NET_PACKAGE_HEADER_LENGTH] at *
      exact ⟨by omega, h2⟩
    · split at h <;> cases h

theorem plainLook_msg_append {xs : ByteArray} {n : Nat} (ys : ByteArray)
    (h : plainLook xs = .msg n) : plainLook (xs ++ ys) = .msg n := by
  obtain ⟨h1, h2, h3, h4, h5⟩ := plainLook_msg h
  have hw := lengthWord_append xs ys (by omega)
  have hl : (xs ++ ys).length = xs.length + ys.length := List.length_append
  rw [plainLook, hw, ← h1, if_neg (by show ¬ _ < 12; omega),
    if_neg (by simp only [NET_PACKAGE_HEADER_LENGTH]; omega), if_pos (by omega)]

theorem plainLook_bad_append {xs : ByteArray} (ys : ByteArray) (h : plainLook xs = .bad) :
    plainLook (xs ++ ys) = .bad := by
  obtain ⟨h1, h2⟩ := plainLook_bad h
  have hw := lengthWord_append xs ys (by omega)
  have hl : (xs ++ ys).length = xs.length + ys.length := List.length_append
  rw [plainLook, hw, if_neg (by show ¬ _ < 12; omega),
    if_pos (show _ < NET_PACKAGE_HEADER_LENGTH ∨ _ from h2)]

/-- the frames of the plain stream: the length word, header included, between 12 bytes and
512 megabytes -/
def plain : Decoder BYTE where
  look := plainLook
  look_nil := rfl
  msg_pos := fun h => lt_of_lt_of_le (by norm_num) (plainLook_msg h).2.1
  msg_le := fun h => (plainLook_msg h).2.2.2.1
  msg_append := plainLook_msg_append
  bad_append := plainLook_bad_append

/-! ## the live bytes -/

namespace NetPackageParser

/-- the bytes fed and not yet taken -/
def live (p : NetPackageParser) : ByteArray := (p.m_dataBuf.take p.m_dataLen).drop p.m_dataIndex

structure Good (p : NetPackageParser) : Prop where
  index_le : p.m_dataIndex ≤ p.m_dataLen
  len_le : p.m_dataLen ≤ p.m_dataBuf.length

end NetPackageParser

open NetPackageParser

theorem live_length {p : NetPackageParser} (h : p.Good) :
    p.live.length = p.m_dataLen - p.m_dataIndex := by
  rw [live, List.length_drop, List.length_take, Nat.min_eq_left h.len_le]

theorem good_fresh : NetPackageParser.fresh.Good := ⟨Nat.le_refl _, Nat.zero_le _⟩

theorem live_fresh : NetPackageParser.fresh.live = [] := rfl

theorem good_reset (p : NetPackageParser) : p.reset.Good := ⟨Nat.le_refl _, Nat.zero_le _⟩

theorem live_reset (p : NetPackageParser) : p.reset.live = [] := by
  simp [live, reset]

theorem isInitStatus_of_live {p : NetPackageParser} (h : p.Good) (h0 : p.m_dataIndex = 0)
    (hl : p.live = []) : p.isInitStatus = true := by
  have := live_length h
  rw [hl, h0] at this
  have hz : p.m_dataLen = 0 := by simpa using this.symm
  simp [isInitStatus, h0, hz]

section
variable (o : ByteOrder) (wild : Int → BYTE)

theorem live_take (p : NetPackageParser) (n : Nat)
    (hn : n ≤ p.m_dataLen - p.m_dataIndex) :
    p.live.take n = (p.m_dataBuf.drop p.m_dataIndex).take n := by
  rw [live, List.drop_take, List.take_take, Nat.min_eq_left hn]

theorem feedPack_live {p : NetPackageParser} (h : p.Good) (data : ByteArray) (len : Nat)
    (hlen : len ≤ data.length) :
    (p.feedPack wild data len).Good ∧
      (p.feedPack wild data len).live = p.live ++ data.take len ∧
      (p.feedPack wild data len).m_dataIndex = p.m_dataIndex := by
  by_cases h0 : len = 0
  · rw [feedPack, if_pos h0, h0]
    exact ⟨h, by simp, rfl⟩
  · have hsrc : Vec.peeks wild data 0 len = data.take len := Vec.peeks_front wild data len hlen
    have hsl : (data.take len).length = len := by rw [List.length_take]; omega
    rw [feedPack, if_neg h0, hsrc]
    have hgrow : ∃ buf : ByteArray, (if p.m_dataBuf.length < p.m_dataLen + len then
        Vec.resize p.m_dataBuf (p.m_dataBuf.length + len) 0 else p.m_dataBuf) = buf ∧
        p.m_dataLen + len ≤ buf.length ∧ buf.take p.m_dataLen = p.m_dataBuf.take p.m_dataLen := by
      have hle := h.len_le
      split
      · refine ⟨_, rfl, ?_, ?_⟩
        · rw [Vec.resize_length]; omega
        · exact Vec.resize_take _ _ _ (by omega) _ hle
      · exact ⟨_, rfl, by omega, rfl⟩
    obtain ⟨buf, hb, hbl, hbt⟩ := hgrow
    rw [hb]
    have hi := h.index_le
    refine ⟨⟨?_, ?_⟩, ?_, rfl⟩
    · show p.m_dataIndex ≤ p.m_dataLen + len
      omega
    · show p.m_dataLen + len ≤ (Vec.memcpy buf p.m_dataLen (data.take len)).length
      rw [Vec.memcpy_length]; omega
    · show ((Vec.memcpy buf p.m_dataLen (data.take len)).take (p.m_dataLen + len)).drop _ = _
      have ht := Vec.memcpy_take_src buf p.m_dataLen (data.take len) (by omega)
      rw [hsl] at ht
      rw [ht, hbt, List.drop_append_of_le_length
        (by rw [List.length_take, Nat.min_eq_left h.len_le]; exact hi)]
      rfl

theorem fed_fresh (bytes : ByteArray) :
    (NetPackageParser.fresh.feedPack wild bytes bytes.length).Good ∧
      (NetPackageParser.fresh.feedPack wild bytes bytes.length).live = bytes ∧
      (NetPackageParser.fresh.feedPack wild bytes bytes.length).m_dataIndex = 0 := by
  obtain ⟨hg, hlive, hidx⟩ := feedPack_live wild good_fresh bytes bytes.length (Nat.le_refl _)
  rw [live_fresh, List.nil_append, List.take_length] at hlive
  exact ⟨hg, hlive, hidx⟩

theorem ajust_live {p : NetPackageParser} (h : p.Good) :
    (p.ajust wild).Good ∧ (p.ajust wild).live = p.live ∧ (p.ajust wild).m_dataIndex = 0 := by
  have hi := h.index_le
  have hl := h.len_le
  have hll := live_length h
  unfold ajust
  by_cases h0 : p.m_dataIndex > 0
  · rw [if_pos h0]
    by_cases h1 : p.m_dataLen - p.m_dataIndex > 0
    · have hsrc : Vec.peeks wild p.m_dataBuf p.m_dataIndex (p.m_dataLen - p.m_dataIndex)
          = p.live := by
        rw [Vec.peeks_inside _ _ _ _ (by omega), ← live_take p _ (Nat.le_refl _),
          List.take_of_length_le (by omega)]
      rw [if_pos h1, hsrc]
      have ht := Vec.memcpy_take_src p.m_dataBuf 0 p.live (by omega)
      rw [Nat.zero_add, hll, List.take_zero, List.nil_append] at ht
      refine ⟨⟨Nat.zero_le _, ?_⟩, ?_, rfl⟩
      · show p.m_dataLen - p.m_dataIndex ≤ (Vec.memcpy p.m_dataBuf 0 p.live).length
        rw [Vec.memcpy_length]; omega
      · show ((Vec.memcpy p.m_dataBuf 0 p.live).take (p.m_dataLen - p.m_dataIndex)).drop 0 = _
        rw [List.drop_zero]
        exact ht
    · rw [if_neg h1]
      refine ⟨⟨Nat.zero_le _, ?_⟩, ?_, rfl⟩
      · show p.m_dataLen - p.m_dataIndex ≤ p.m_dataBuf.length
        omega
      · have hz : p.m_dataLen - p.m_dataIndex = 0 := by omega
        have hnil : p.live = [] := List.eq_nil_of_length_eq_zero (by omega)
        rw [hnil]
        simp [live, hz]
  · have hz : p.m_dataIndex = 0 := by omega
    rw [if_neg h0]
    refine ⟨⟨?_, ?_⟩, ?_, hz⟩
    · show p.m_dataIndex ≤ p.m_dataLen - p.m_dataIndex
      omega
    · show p.m_dataLen - p.m_dataIndex ≤ p.m_dataBuf.length
      omega
    · simp [live, hz]

/-! ## one package -/

/-- what `nextPackage` hands over for a frame of `n` bytes at position `i` of the buffer -/
def readAt (buf : ByteArray) (i n : Nat) : NetPackage :=
  let (header, nPos) := NetPackageHeader.decode o wild buf (toInt32 i)
  ⟨header, Vec.peeks wild buf nPos (n - NET_PACKAGE_HEADER_LENGTH)⟩

/-- `decode` at this position computes `r_int32` values, and the content too starts at one -/
def Fits (i n : Nat) : Prop := i + 12 < 2147483648 ∨ (i + 10 < 2147483648 ∧ n = 12)

instance (i n : Nat) : Decidable (Fits i n) := inferInstanceAs (Decidable (_ ∨ _))

theorem readAt_frame (buf : ByteArray) (i n : Nat) (hn : 12 ≤ n) (hb : i + n ≤ buf.length)
    (hf : Fits i n) : readAt o wild buf i n = .ofBytes ((buf.drop i).take n) := by
  have h10 : i + 10 < 2147483648 := by rcases hf with h | h <;> omega
  have hi : toInt32 (i : Int) = (i : Int) := toInt32_eq (by omega) (by omega)
  have hd := header_decode o wild buf i (by omega) h10
  have ht : ((buf.drop i).take n).take 12 = (buf.drop i).take 12 := by
    rw [List.take_take, Nat.min_eq_left hn]
  have hc : Vec.peeks wild buf (toInt32 ((i + 12 : Nat) : Int)) (n - 12)
      = ((buf.drop i).take n).drop 12 := by
    rcases hf with h | ⟨_, h⟩
    · rw [toInt32_eq (by omega) (by omega), Vec.peeks_inside wild buf (i + 12) (n - 12) (by omega),
        List.drop_take, List.drop_drop]
    · have hl : ((buf.drop i).take n).length ≤ 12 := by rw [List.length_take]; omega
      rw [h, List.drop_of_length_le (by rwa [h] at hl)]
      rfl
  show NetPackage.mk (NetPackageHeader.decode o wild buf (toInt32 i)).1
    (Vec.peeks wild buf (NetPackageHeader.decode o wild buf (toInt32 i)).2 (n - 12)) = _
  rw [hi, hd, NetPackage.ofBytes, ht, hc]

/-- the length word that `nextPackage` copies out of the buffer -/
theorem read32_live {p : NetPackageParser} (h : p.Good) (h12 : 12 ≤ p.live.length) :
    (hton32 o (read32 o wild p.m_dataBuf p.m_dataIndex)).toNat = lengthWord p.live := by
  have hll := live_length h
  have hle := h.len_le
  have ht := live_take p 4 (by omega)
  rw [← Vec.peeks_inside wild p.m_dataBuf p.m_dataIndex 4 (by omega)] at ht
  have hw : lengthWord p.live = lengthWord (p.live.take 4) := by
    have := lengthWord_append (p.live.take 4) (p.live.drop 4) (by rw [List.length_take]; omega)
    rwa [List.take_append_drop] at this
  rw [hw, ht]
  simp only [read32, ntoh_load32, Vec.peeks, lengthWord, Int.add_assoc, Int.reduceAdd]

/-- **`nextPackage` is one look at the live bytes.** -/
theorem nextPackage_look {p : NetPackageParser} (h : p.Good) :
    match plainLook p.live with
    | .more => ∃ p', p.nextPackage o wild = (p', none, false) ∧ p'.Good ∧ p'.live = p.live ∧
        p'.m_dataIndex = 0
    | .bad => p.nextPackage o wild = (p.reset, none, true)
    | .msg n => p.nextPackage o wild = ({ p with m_dataIndex := p.m_dataIndex + n },
        some (readAt o wild p.m_dataBuf p.m_dataIndex n), false) := by
  have hll := live_length h
  have hmore : ∃ p', ((if p.m_dataIndex > 0 then p.ajust wild else p, none, false) :
      NetPackageParser × Option NetPackage × Bool) = (p', none, false) ∧ p'.Good ∧
      p'.live = p.live ∧ p'.m_dataIndex = 0 := by
    by_cases h0 : p.m_dataIndex > 0
    · rw [if_pos h0]
      obtain ⟨a, b, c⟩ := ajust_live wild h
      exact ⟨_, rfl, a, b, c⟩
    · rw [if_neg h0]
      exact ⟨_, rfl, h, rfl, by omega⟩
  by_cases h12 : p.live.length < NET_PACKAGE_HEADER_LENGTH
  · have hlook : plainLook p.live = .more := by rw [plainLook, if_pos h12]
    rw [hlook, nextPackage, if_neg (by omega)]
    exact hmore
  · have hw := read32_live o wild h (by simp only [NET_PACKAGE_HEADER_LENGTH] at h12; omega)
    have h12' : NET_PACKAGE_HEADER_LENGTH ≤ p.m_dataLen - p.m_dataIndex := by omega
    by_cases hbad : lengthWord p.live < NET_PACKAGE_HEADER_LENGTH ∨
        NET_PACKAGE_INVALID_LENGTH < lengthWord p.live
    · have hlook : plainLook p.live = .bad := by rw [plainLook, if_neg h12, if_pos hbad]
      rw [hlook, nextPackage, if_pos h12']
      dsimp only
      rw [hw, if_pos hbad]
    · by_cases hle : lengthWord p.live ≤ p.live.length
      · have hlook : plainLook p.live = .msg (lengthWord p.live) := by
          rw [plainLook, if_neg h12, if_neg hbad, if_pos hle]
        rw [hlook, nextPackage, if_pos h12']
        dsimp only
        rw [hw, if_neg hbad, if_pos (by omega)]
        rfl
      · have hlook : plainLook p.live = .more := by
          rw [plainLook, if_neg h12, if_neg hbad, if_neg hle]
        rw [hlook, nextPackage, if_pos h12']
        dsimp only
        rw [hw, if_neg hbad, if_neg (by omega)]
        exact hmore

theorem taken_good {p : NetPackageParser} (h : p.Good) {n : Nat} (hn : n ≤ p.live.length) :
    ({ p with m_dataIndex := p.m_dataIndex + n } : NetPackageParser).Good ∧
      ({ p with m_dataIndex := p.m_dataIndex + n } : NetPackageParser).live = p.live.drop n := by
  have hll := live_length h
  have hi := h.index_le
  refine ⟨⟨?_, h.len_le⟩, ?_⟩
  · show p.m_dataIndex + n ≤ p.m_dataLen
    omega
  · show (p.m_dataBuf.take p.m_dataLen).drop (p.m_dataIndex + n) = _
    rw [live, List.drop_drop]

/-- what `nextPackage` does to a parser, and what it answers -/
inductive Looked (p : NetPackageParser) : NetPackageParser × Option NetPackage × Bool → Prop
  | more {p' : NetPackageParser} (hlook : plainLook p.live = .more) (g : p'.Good)
      (hlive : p'.live = p.live) (hindex : p'.m_dataIndex = 0) : Looked p (p', none, false)
  | bad (hlook : plainLook p.live = .bad) : Looked p (p.reset, none, true)
  | msg {n : Nat} {p' : NetPackageParser} (hlook : plainLook p.live = .msg n)
      (htaken : p' = { p with m_dataIndex := p.m_dataIndex + n }) (g : p'.Good)
      (hlive : p'.live = p.live.drop n) :
      Looked p (p', some (readAt o wild p.m_dataBuf p.m_dataIndex n), false)

theorem nextPackage_looked {p : NetPackageParser} (h : p.Good) :
    Looked o wild p (p.nextPackage o wild) := by
  have hn := nextPackage_look o wild h
  cases hl : plainLook p.live with
  | more =>
    rw [hl] at hn
    obtain ⟨p', e, g, hlive, hindex⟩ := hn
    rw [e]
    exact .more hl g hlive hindex
  | bad =>
    rw [hl] at hn
    rw [show _ = _ from hn]
    exact .bad hl
  | msg n =>
    rw [hl] at hn
    rw [show _ = _ from hn]
    obtain ⟨g, hlive⟩ := taken_good h (plain.msg_le hl)
    exact .msg hl rfl g hlive

/-! ## the loop -/

/-- what the loop hands over for the frames from position `i` of the buffer on -/
def readsFrom (buf : ByteArray) : Nat → List ByteArray → List NetPackage
  | _, [] => []
  | i, f :: fs => readAt o wild buf i f.length :: readsFrom buf (i + f.length) fs

theorem packages_none {p p' : NetPackageParser} {b : Bool} (throws : Nat → Bool) (k : Nat)
    (h : p.nextPackage o wild = (p', none, b)) :
    p.packages o wild throws k = (p', [], false) := by
  rw [NetPackageParser.packages]
  split
  · rename_i e
    rw [h] at e
    injection e with e1 _
    rw [e1]
  · rename_i e
    rw [h] at e
    cases e

theorem packages_some {p p' : NetPackageParser} {pkg : NetPackage} {b : Bool}
    (throws : Nat → Bool) (k : Nat) (h : p.nextPackage o wild = (p', some pkg, b)) :
    p.packages o wild throws k
      = if throws k then (p', [pkg], true)
        else ((p'.packages o wild throws (k + 1)).1,
          pkg :: (p'.packages o wild throws (k + 1)).2.1,
          (p'.packages o wild throws (k + 1)).2.2) := by
  rw [NetPackageParser.packages]
  split
  · rename_i e
    rw [h] at e
    cases e
  · rename_i e
    rw [h] at e
    cases e
    rfl

/-- **Induction along the packages at the front of the live bytes.**  Either one look ends the loop,
or it takes a package, and the claim holds of what is left. -/
theorem good_ind {motive : (p : NetPackageParser) → p.Good → Prop}
    (more : ∀ (p p' : NetPackageParser) (h : p.Good), plain.look p.live = .more →
      p.nextPackage o wild = (p', none, false) → p'.Good → p'.live = p.live →
      p'.m_dataIndex = 0 → motive p h)
    (bad : ∀ (p : NetPackageParser) (h : p.Good), plain.look p.live = .bad →
      p.nextPackage o wild = (p.reset, none, true) → motive p h)
    (msg : ∀ (p p' : NetPackageParser) (n : Nat) (h : p.Good) (g : p'.Good),
      plain.look p.live = .msg n → p' = { p with m_dataIndex := p.m_dataIndex + n } →
      p.nextPackage o wild = (p', some (readAt o wild p.m_dataBuf p.m_dataIndex n), false) →
      p'.live = p.live.drop n → motive p' g → motive p h) :
    ∀ (p : NetPackageParser) (h : p.Good), motive p h := by
  intro p h
  induction hk : p.live.length using Nat.strong_induction_on generalizing p with
  | _ k ih =>
    have hlooked := nextPackage_looked o wild h
    rcases hnext : p.nextPackage o wild with ⟨p', pkg, b⟩
    rw [hnext] at hlooked
    cases hlooked with
    | more hlook g hlive hindex => exact more p p' h hlook hnext g hlive hindex
    | bad hlook => exact bad p h hlook hnext
    | @msg n _ hlook htaken g hlive =>
      have h0 := plain.msg_pos hlook
      have hle := plain.msg_le hlook
      have hshort : p'.live.length < k := by
        rw [hlive, List.length_drop]
        omega
      exact msg p p' n h g hlook htaken hnext hlive (ih _ hshort p' g rfl)

/-- **With a handler that returns normally the loop drains the live bytes.** -/
theorem packages_drain : ∀ {p : NetPackageParser} (_ : p.Good) (k : Nat),
    (p.packages o wild (fun _ => false) k).1.Good ∧
      (p.packages o wild (fun _ => false) k).1.live = (drain plain p.live).rest ∧
      (p.packages o wild (fun _ => false) k).1.m_dataIndex = 0 ∧
      (p.packages o wild (fun _ => false) k).2
        = (readsFrom o wild p.m_dataBuf p.m_dataIndex (drain plain p.live).frames, false) := by
  intro p h
  induction p, h using good_ind o wild with
  | more p p' h hl hnext g hlive hindex =>
    intro k
    rw [packages_none o wild _ k hnext, drain_more plain hl]
    exact ⟨g, hlive, hindex, rfl⟩
  | bad p h hl hnext =>
    intro k
    rw [packages_none o wild _ k hnext, drain_bad plain hl]
    exact ⟨good_reset p, live_reset p, rfl, rfl⟩
  | msg p p' n h g hl htaken hnext hlive ih =>
    intro k
    obtain ⟨i1, i2, i3, i4⟩ := ih (k + 1)
    have hlen := frame_length plain hl
    rw [packages_some o wild _ k hnext, drain_msg plain hl, ← hlive]
    refine ⟨i1, i2, i3, ?_⟩
    show (_ :: _, _) = (readAt o wild _ _ (p.live.take n).length ::
      readsFrom o wild _ (p.m_dataIndex + (p.live.take n).length) _, false)
    rw [i4, hlen, htaken]

end

end Netwb
