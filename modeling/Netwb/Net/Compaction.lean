import Netwb.Net.Delivery

/-!
# Compaction

`ajust` moves what is left in the buffer to its front with `memcpy`, which is defined for ranges
that have no cell in common.  They have none exactly if what is left is no longer than what has been
taken from in front of it; how long the two are is up to the stream and to its pieces.

A handler that throws leaves the loop, so that nothing is moved then, and what has been taken is
still counted when the next piece comes.

* `packages_copies`           the moves of a loop are all that it does to the buffer;
* `loop_disjoint_iff`         when no move of a loop overlaps itself;
* `compaction_disjoint_iff`   the same for the calls of every run.
-/

namespace Netwb
open Wire Framing Vec

namespace NetPackageParser

/-- the `memcpy` of `ajust` -/
def ajustCopies (p : NetPackageParser) : List Copy :=
  let m_dataLen := p.m_dataLen - p.m_dataIndex
  if p.m_dataIndex > 0 then
    if m_dataLen > 0 then [⟨0, p.m_dataIndex, m_dataLen⟩] else []
  else []

section
variable (o : ByteOrder) (wild : Int → BYTE)

/-- what `nextPackage` copies within the buffer -/
def nextPackageCopies (p : NetPackageParser) : List Copy :=
  if NET_PACKAGE_HEADER_LENGTH ≤ p.m_dataLen - p.m_dataIndex then
    let pkgLength := (hton32 o (read32 o wild p.m_dataBuf p.m_dataIndex)).toNat
    if pkgLength < NET_PACKAGE_HEADER_LENGTH ∨ NET_PACKAGE_INVALID_LENGTH < pkgLength then []
    else if pkgLength ≤ p.m_dataLen - p.m_dataIndex then []
    else if p.m_dataIndex > 0 then p.ajustCopies else []
  else if p.m_dataIndex > 0 then p.ajustCopies else []

/-- what the loop of `onDataReceived` copies within the buffer -/
def packagesCopies (throws : Nat → Bool) (p : NetPackageParser) (k : Nat) : List Copy :=
  p.nextPackageCopies o wild ++
    match h : p.nextPackage o wild with
    | (_, none, _) => []
    | (p', some _, _) => if throws k then [] else packagesCopies throws p' (k + 1)
termination_by p.m_dataLen - p.m_dataIndex
decreasing_by exact nextPackage_lt o wild h

end

end NetPackageParser

open NetPackageParser

/-- a piece of the stream, and which calls of `onPackageReceived` throw -/
structure Arrival where
  chunk : Chunk
  throws : Nat → Bool

section
variable (o : ByteOrder) (wild : Int → BYTE)

/-- one call of `onDataReceived` -/
def arrive (p : NetPackageParser) (a : Arrival) : Option NetPackageParser :=
  (onDataReceived o wild 0 a.throws p a.chunk.bytes a.chunk.bytes.length).map (·.1)

/-- what it copies within the buffer -/
def arriveCopies (p : NetPackageParser) (a : Arrival) : List Copy :=
  ((p.feedData o wild 0 a.chunk.bytes (toSize a.chunk.bytes.length)).map
    fun r => r.1.packagesCopies o wild a.throws 0).getD []

/-- no `memcpy` of the call has a cell that it both reads and writes -/
def CopiesDisjoint (p : NetPackageParser) (a : Arrival) : Prop :=
  ∀ c ∈ arriveCopies o wild p a, c.Disjoint

/-! ## the copies of a loop -/

theorem packagesCopies_none {p p' : NetPackageParser} {b : Bool} (throws : Nat → Bool) (k : Nat)
    (h : p.nextPackage o wild = (p', none, b)) :
    p.packagesCopies o wild throws k = p.nextPackageCopies o wild := by
  rw [packagesCopies]
  split
  · exact List.append_nil _
  · rename_i e
    rw [h] at e
    cases e

theorem packagesCopies_some {p p' : NetPackageParser} {pkg : NetPackage} {b : Bool}
    (throws : Nat → Bool) (k : Nat) (h : p.nextPackage o wild = (p', some pkg, b)) :
    p.packagesCopies o wild throws k = p.nextPackageCopies o wild ++
      if throws k then [] else p'.packagesCopies o wild throws (k + 1) := by
  rw [packagesCopies]
  split
  · rename_i e
    rw [h] at e
    cases e
  · rename_i e
    rw [h] at e
    cases e
    rfl

theorem ajust_copies (p : NetPackageParser) :
    (p.ajust wild).m_dataBuf = p.ajustCopies.foldl (Copy.apply wild) p.m_dataBuf := by
  unfold ajust ajustCopies
  dsimp only
  split
  · split
    · rfl
    · rfl
  · rfl

theorem nextPackage_copies (p : NetPackageParser) :
    (p.nextPackage o wild).1.m_dataBuf
      = (p.nextPackageCopies o wild).foldl (Copy.apply wild) p.m_dataBuf := by
  have hmove : (if p.m_dataIndex > 0 then p.ajust wild else p).m_dataBuf
      = (if p.m_dataIndex > 0 then p.ajustCopies else []).foldl (Copy.apply wild) p.m_dataBuf := by
    split
    · exact ajust_copies wild p
    · rfl
  unfold nextPackage nextPackageCopies
  split
  · dsimp only
    split
    · rfl
    · split
      · rfl
      · exact hmove
  · exact hmove

/-- **The copies are all that the loop does to the buffer.** -/
theorem packages_copies (throws : Nat → Bool) (p : NetPackageParser) (k : Nat) :
    (p.packages o wild throws k).1.m_dataBuf
      = (p.packagesCopies o wild throws k).foldl (Copy.apply wild) p.m_dataBuf := by
  induction p, k using NetPackageParser.packages.induct o wild throws with
  | case1 p k p' b hnext =>
    rw [packages_none o wild throws k hnext, packagesCopies_none o wild throws k hnext,
      ← nextPackage_copies, hnext]
  | case2 p k p' pkg b hnext ht =>
    rw [packages_some o wild throws k hnext, packagesCopies_some o wild throws k hnext, if_pos ht,
      if_pos ht, List.append_nil, ← nextPackage_copies, hnext]
  | case3 p k p' pkg b hnext ht ih =>
    rw [packages_some o wild throws k hnext, packagesCopies_some o wild throws k hnext, if_neg ht,
      if_neg ht, List.foldl_append, ← nextPackage_copies, hnext]
    exact ih

/-! ## when they overlap -/

theorem ajustCopies_disjoint (p : NetPackageParser) :
    (∀ c ∈ p.ajustCopies, c.Disjoint) ↔
      p.m_dataIndex = 0 ∨ p.m_dataLen - p.m_dataIndex ≤ p.m_dataIndex := by
  unfold ajustCopies
  dsimp only
  split
  · split
    · rw [List.forall_mem_singleton, disjoint_front]
      omega
    · exact iff_of_true (List.forall_mem_nil _) (by omega)
  · exact iff_of_true (List.forall_mem_nil _) (by omega)

/-- `nextPackage` moves what is left when it neither takes a package nor resets the parser -/
theorem nextPackageCopies_eq (p : NetPackageParser) :
    p.nextPackageCopies o wild = match p.nextPackage o wild with
      | (_, none, false) => p.ajustCopies
      | _ => [] := by
  have hmove : (if p.m_dataIndex > 0 then p.ajustCopies else []) = p.ajustCopies := by
    unfold ajustCopies
    split
    · rfl
    · rfl
  unfold nextPackage nextPackageCopies
  split
  · dsimp only
    split
    · rfl
    · split
      · rfl
      · exact hmove
  · exact hmove

/-- a handler throws before the loop comes to its end, or nothing has been taken, or what is left
is no longer than what has been taken: `i` bytes and the packages of the loop -/
def Slack (throws : Nat → Bool) (k i : Nat) (d : Drained BYTE) : Prop :=
  (∃ j < d.frames.length, throws (k + j) = true) ∨ i + d.frames.flatten.length = 0 ∨
    d.rest.length ≤ i + d.frames.flatten.length

theorem slack_push (throws : Nat → Bool) (k i : Nat) (f : ByteArray) (d : Drained BYTE) :
    Slack throws k i (d.push f) ↔ throws k = true ∨ Slack throws (k + 1) (i + f.length) d := by
  have htaken : i + (d.push f).frames.flatten.length
      = i + f.length + d.frames.flatten.length := by
    show i + (f ++ d.frames.flatten).length = _
    rw [List.length_append, Nat.add_assoc]
  have hthrows : (∃ j < (d.push f).frames.length, throws (k + j) = true) ↔
      throws k = true ∨ ∃ j < d.frames.length, throws (k + 1 + j) = true := by
    constructor
    · rintro ⟨j, hj, ht⟩
      cases j with
      | zero => exact .inl ht
      | succ j =>
        refine .inr ⟨j, Nat.lt_of_succ_lt_succ hj, ?_⟩
        rw [Nat.add_assoc, Nat.add_comm 1 j]
        exact ht
    · rintro (ht | ⟨j, hj, ht⟩)
      · exact ⟨0, Nat.zero_lt_succ _, ht⟩
      · refine ⟨j + 1, Nat.succ_lt_succ hj, ?_⟩
        rw [Nat.add_comm j 1, ← Nat.add_assoc]
        exact ht
  unfold Slack
  rw [htaken, hthrows, or_assoc]
  rfl

/-- **No move of a loop overlaps itself if and only if there is slack.** -/
theorem loop_disjoint_iff (throws : Nat → Bool) : ∀ {p : NetPackageParser} (_ : p.Good) (k : Nat),
    (∀ c ∈ p.packagesCopies o wild throws k, c.Disjoint) ↔
      Slack throws k p.m_dataIndex (drain plain p.live) := by
  intro p h
  induction p, h using good_ind o wild with
  | more p p' h hl hnext _ _ _ =>
    intro k
    have hnone : ¬ ∃ j < 0, throws (k + j) = true := fun ⟨j, hj, _⟩ => Nat.not_lt_zero j hj
    rw [packagesCopies_none o wild throws k hnext, nextPackageCopies_eq, hnext, drain_more plain hl]
    dsimp only
    rw [ajustCopies_disjoint, Slack, live_length h]
    exact (or_iff_right hnone).symm
  | bad p h hl hnext =>
    intro k
    rw [packagesCopies_none o wild throws k hnext, nextPackageCopies_eq, hnext, drain_bad plain hl]
    exact iff_of_true (List.forall_mem_nil _) (.inr (.inr (Nat.zero_le _)))
  | msg p p' n h g hl htaken hnext hlive ih =>
    intro k
    have hindex : p'.m_dataIndex = p.m_dataIndex + n := by rw [htaken]
    rw [packagesCopies_some o wild throws k hnext, nextPackageCopies_eq, hnext, drain_msg plain hl,
      slack_push, frame_length plain hl, ← hlive, ← hindex]
    dsimp only
    rw [List.nil_append]
    cases ht : throws k with
    | true =>
      rw [if_pos rfl]
      exact iff_of_true (List.forall_mem_nil _) (.inl rfl)
    | false =>
      rw [if_neg Bool.false_ne_true, or_iff_right Bool.false_ne_true]
      exact ih (k + 1)

/-! ## runs -/

/-- the parser of a connection without a cipher -/
structure NetPackageParser.Bare (p : NetPackageParser) : Prop where
  good : p.Good
  noCipher : p.m_encryptInfo.cipher = none

theorem bare_fresh : NetPackageParser.fresh.Bare := ⟨good_fresh, rfl⟩

/-- the slack of the call, from the parser before it and the piece -/
def HasSlack (p : NetPackageParser) (a : Arrival) : Prop :=
  Slack a.throws 0 p.m_dataIndex (drain plain (p.live ++ a.chunk.bytes))

theorem arrive_bare {p p' : NetPackageParser} (h : p.Bare) {a : Arrival}
    (hs : arrive o wild p a = some p') : p'.Bare := by
  rw [arrive, onDataReceived_fed o wild 0 a.throws h.noCipher a.chunk] at hs
  cases hs
  obtain ⟨hfed, -⟩ := feedPack_live wild h.good a.chunk.bytes a.chunk.bytes.length (Nat.le_refl _)
  refine ⟨packages_good o wild a.throws hfed 0, ?_⟩
  rw [packages_encryptInfo, (feedPack_frame wild p a.chunk.bytes a.chunk.bytes.length).1]
  exact h.noCipher

theorem copies_disjoint_iff {p : NetPackageParser} (h : p.Bare) (a : Arrival) :
    CopiesDisjoint o wild p a ↔ HasSlack p a := by
  obtain ⟨hfed, hlive, hindex⟩ :=
    feedPack_live wild h.good a.chunk.bytes a.chunk.bytes.length (Nat.le_refl _)
  rw [List.take_length] at hlive
  have hcopies : arriveCopies o wild p a
      = (p.feedPack wild a.chunk.bytes a.chunk.bytes.length).packagesCopies o wild a.throws 0 := by
    rw [arriveCopies, toSize_chunk, feedData, h.noCipher]
    rfl
  rw [CopiesDisjoint, hcopies, loop_disjoint_iff o wild a.throws hfed, hlive, hindex, HasSlack]

/-- **No `memcpy` of any call of a run overlaps itself if and only if there is slack in every
call.** -/
theorem compaction_disjoint_iff (as : List Arrival) :
    Machine.Along (arrive o wild) (CopiesDisjoint o wild) .fresh as ↔
      Machine.Along (arrive o wild) HasSlack .fresh as :=
  Machine.along_iff (W := fun _ => True) NetPackageParser.Bare
    (fun _ _ _ h _ _ hs => arrive_bare o wild h hs)
    (fun _ a h _ => copies_disjoint_iff o wild h a) bare_fresh fun _ _ => trivial

end

/-- a package of 12 bytes, and 13 of the 14 bytes of the next one -/
def partBehind : ByteArray :=
  [0, 0, 0, 12, 0, 0, 0, 0, 0, 0, 0, 0] ++ [0, 0, 0, 14, 0, 0, 0, 0, 0, 0, 0, 0, 0]

theorem compaction_overlaps : ¬ Machine.Along (arrive .little fun _ => 0)
    (CopiesDisjoint .little fun _ => 0) .fresh
    [⟨⟨partBehind, by decide⟩, fun _ => false⟩] := by
  rintro ⟨hdisjoint, -⟩
  have hslack := (copies_disjoint_iff .little (fun _ => 0) bare_fresh _).mp hdisjoint
  rw [HasSlack, live_fresh, List.nil_append] at hslack
  have hdrain : drain plain partBehind
      = ⟨[partBehind.take 12], partBehind.drop 12, false⟩ := by
    decide
  rw [hdrain] at hslack
  rcases hslack with ⟨j, -, ht⟩ | htaken | hleft
  · exact Bool.false_ne_true ht
  · cases htaken
  · exact absurd hleft (by decide)

end Netwb
