import Netwb.Net.Plain

/-!
# Receiving packages in pieces

`onDataReceived` on a fresh parser without a cipher, called once a chunk.  Between two calls the
parser is `Ready`: nothing is consumed, and what is buffered is not yet a package.

* `receive_run`            a run over chunks is `Framing.run` of the plain decoder; each call hands
                           over what `readsFrom` finds for the frames it took;
* `receive_packages_iff`   encoded packages, cut anywhere, come out again with the call that
                           supplies their last byte, exactly when each stands at a place of the
                           buffer that `decode` can address (`InReach`);
* `receive_packages_small` in particular when no chunk is larger than 1.5 gigabytes;
* `receive_segmentation`   for arbitrary bytes: the packages before the first invalid length word
                           are delivered first, and if there is none the cuts do not matter.
-/

namespace Netwb
open Wire Framing NetPackageParser

/-- the parser between two calls -/
structure NetPackageParser.Ready (p : NetPackageParser) : Prop where
  good : p.Good
  index_zero : p.m_dataIndex = 0
  plain : p.m_encryptInfo.cipher = none
  waiting : plainLook p.live = .more

theorem ready_fresh : NetPackageParser.fresh.Ready := ⟨good_fresh, rfl, rfl, rfl⟩

theorem waiting_length {xs : ByteArray} (h : plainLook xs = .more) :
    xs.length < NET_PACKAGE_INVALID_LENGTH := by
  unfold plainLook at h
  split at h
  · simp only [NET_PACKAGE_HEADER_LENGTH, NET_PACKAGE_INVALID_LENGTH] at *
    omega
  · split at h
    · cases h
    · split at h
      · cases h
      · omega

section
variable (o : ByteOrder) (wild : Int → BYTE)

theorem nextPackage_encryptInfo (p : NetPackageParser) :
    (p.nextPackage o wild).1.m_encryptInfo = p.m_encryptInfo := by
  have ha : (if p.m_dataIndex > 0 then p.ajust wild else p).m_encryptInfo = p.m_encryptInfo := by
    unfold ajust
    split <;> rfl
  unfold nextPackage
  split
  · dsimp only
    split
    · rfl
    · split
      · rfl
      · exact ha
  · exact ha

theorem packages_encryptInfo (throws : Nat → Bool) (p : NetPackageParser) (k : Nat) :
    (p.packages o wild throws k).1.m_encryptInfo = p.m_encryptInfo := by
  induction p, k using NetPackageParser.packages.induct o wild throws with
  | case1 p k p' b hnext =>
    rw [packages_none o wild throws k hnext, ← nextPackage_encryptInfo o wild p, hnext]
  | case2 p k p' pkg b hnext ht =>
    rw [packages_some o wild throws k hnext, if_pos ht, ← nextPackage_encryptInfo o wild p, hnext]
  | case3 p k p' pkg b hnext ht ih =>
    rw [packages_some o wild throws k hnext, if_neg ht, ← nextPackage_encryptInfo o wild p, hnext]
    exact ih

/-! ## one call -/

/-- the packages of one call, as they stand in some buffer behind each other -/
def ReadOff (r : List NetPackage) (fs : List ByteArray) : Prop :=
  ∃ buf : ByteArray, fs.flatten <+: buf ∧ r = readsFrom o wild buf 0 fs

theorem toSize_chunk (c : Chunk) : toSize (c.bytes.length : Int) = c.bytes.length := by
  have hfit := c.fits
  unfold INT32_MAX at hfit
  rw [toSize_eq (by omega) (by omega), Int.toNat_natCast]

/-- without a cipher the bytes of a chunk are fed, and the loop runs -/
theorem onDataReceived_fed (fuel : Nat) (throws : Nat → Bool) {p : NetPackageParser}
    (hc : p.m_encryptInfo.cipher = none) (c : Chunk) :
    onDataReceived o wild fuel throws p c.bytes c.bytes.length
      = some ((p.feedPack wild c.bytes c.bytes.length).packages o wild throws 0) := by
  rw [onDataReceived, toSize_chunk, feedData, hc]
  rfl

/-- **One call takes the packages off what is buffered and what is new.** -/
theorem onDataReceived_ready (fuel : Nat) {p : NetPackageParser} (h : p.Ready) (c : Chunk) :
    ∃ p' r, onDataReceived o wild fuel (fun _ => false) p c.bytes c.bytes.length
        = some (p', r, false) ∧ p'.Ready ∧
      p'.live = (drain plain (p.live ++ c.bytes)).rest ∧
      ReadOff o wild r (drain plain (p.live ++ c.bytes)).frames := by
  obtain ⟨g, hl, hi⟩ := feedPack_live wild h.good c.bytes c.bytes.length (Nat.le_refl _)
  rw [List.take_length] at hl
  obtain ⟨q1, q2, q3, q4⟩ := packages_drain o wild g 0
  rw [hl] at q2 q4
  rw [hi, h.index_zero] at q4
  have he := packages_encryptInfo o wild (fun _ => false) (p.feedPack wild c.bytes c.bytes.length) 0
  have hfeed := (feedPack_frame wild p c.bytes c.bytes.length).1
  have hcall := onDataReceived_fed o wild fuel (fun _ => false) h.plain c
  refine ⟨_, _, hcall.trans (congrArg some (Prod.ext rfl q4)), ⟨q1, q3, ?_, ?_⟩, q2, _, ?_, rfl⟩
  · rw [he, hfeed, h.plain]
  · rw [q2]
    exact look_rest plain _
  · apply (drain_frames_front plain _).trans
    rw [← hl, live, hi, h.index_zero, List.drop_zero]
    exact List.take_prefix _ _

/-! ## a run -/

/-- **A run over chunks is the run of the frame decoder.** -/
theorem receive_run (fuel : Nat) {p : NetPackageParser} (h : p.Ready) (cs : List Chunk) :
    ∃ rs p', receive o wild fuel p cs = some (rs, p') ∧ p'.Ready ∧
      p'.live = (run plain p.live (cs.map Chunk.bytes)).2 ∧
      List.Forall₂ (ReadOff o wild) rs (run plain p.live (cs.map Chunk.bytes)).1 := by
  induction cs generalizing p with
  | nil => exact ⟨[], p, rfl, h, rfl, .nil⟩
  | cons c cs ih =>
    obtain ⟨p1, r, e, h1, hl, hr⟩ := onDataReceived_ready o wild fuel h c
    obtain ⟨rs, p2, e2, h2, hl2, hrs⟩ := ih h1
    refine ⟨r :: rs, p2, ?_, h2, ?_, ?_⟩
    · rw [receive, e]
      show (receive o wild fuel p1 cs).map _ = _
      rw [e2]
      rfl
    · rw [hl2, hl]
      rfl
    · rw [hl] at hrs
      exact .cons hr hrs

/-! ## places that `decode` can address -/

/-- packages of these sizes, from this place on -/
def FitsFrom : Nat → List Nat → Prop
  | _, [] => True
  | i, n :: ns => Fits i n ∧ FitsFrom (i + n) ns

instance decidableFitsFrom : ∀ i ns, Decidable (FitsFrom i ns)
  | _, [] => .isTrue trivial
  | i, n :: ns => @instDecidableAnd _ _ _ (decidableFitsFrom (i + n) ns)

/-- the packages that each call completes, by their sizes, start within reach of `decode` -/
def InReach (calls : List (List Nat)) : Prop := ∀ sizes ∈ calls, FitsFrom 0 sizes

instance (calls : List (List Nat)) : Decidable (InReach calls) :=
  inferInstanceAs (Decidable (∀ sizes ∈ calls, FitsFrom 0 sizes))

theorem fitsFrom_small (i : Nat) (ns : List Nat) (h12 : ∀ n ∈ ns, 12 ≤ n)
    (h : i + ns.sum ≤ 2147483648) : FitsFrom i ns := by
  induction ns generalizing i with
  | nil => trivial
  | cons n ns ih =>
    have hn := h12 n (List.mem_cons_self ..)
    rw [List.sum_cons] at h
    refine ⟨?_, ih (i + n) (fun m hm => h12 m (List.mem_cons_of_mem _ hm)) (by omega)⟩
    by_cases hi : i + 12 < 2147483648
    · exact .inl hi
    · exact .inr ⟨by omega, by omega⟩

theorem frame_sizes (xs : ByteArray) : ∀ f ∈ (drain plain xs).frames, 12 ≤ f.length := by
  intro f hf
  obtain ⟨ys, h⟩ := look_frame plain xs f hf
  exact (plainLook_msg h).2.1

theorem readsFrom_fits (buf : ByteArray) (i : Nat) (fs : List ByteArray)
    (h12 : ∀ f ∈ fs, 12 ≤ f.length) (hb : fs.flatten <+: buf.drop i) (hi : i ≤ buf.length)
    (hf : FitsFrom i (fs.map List.length)) :
    readsFrom o wild buf i fs = fs.map NetPackage.ofBytes := by
  induction fs generalizing i with
  | nil => rfl
  | cons f fs ih =>
    obtain ⟨t, ht⟩ := hb
    rw [List.flatten_cons, List.append_assoc] at ht
    have hlen := congrArg List.length ht
    rw [List.length_append, List.length_drop] at hlen
    have hfi : (buf.drop i).take f.length = f := by rw [← ht, List.take_left]
    have hrest : fs.flatten <+: buf.drop (i + f.length) := by
      refine ⟨t, ?_⟩
      rw [← List.drop_drop, ← ht, List.drop_left]
    rw [readsFrom, readAt_frame o wild buf i f.length (h12 f (List.mem_cons_self ..)) (by omega)
      hf.1, hfi, ih (i + f.length) (fun g hg => h12 g (List.mem_cons_of_mem _ hg)) hrest (by omega)
      hf.2]
    rfl

theorem reads_fits {rs : List (List NetPackage)} {calls : List (List ByteArray)}
    (h : List.Forall₂ (ReadOff o wild) rs calls) (h12 : ∀ fs ∈ calls, ∀ f ∈ fs, 12 ≤ f.length)
    (hf : InReach (calls.map (·.map List.length))) : rs = calls.map (·.map NetPackage.ofBytes) := by
  induction h with
  | nil => rfl
  | cons h1 _ ih =>
    obtain ⟨buf, hb, rfl⟩ := h1
    have hh := readsFrom_fits o wild buf 0 _ (h12 _ (List.mem_cons_self ..)) hb (Nat.zero_le _)
      (hf _ (List.mem_cons_self ..))
    rw [hh, ih (fun fs hfs => h12 fs (List.mem_cons_of_mem _ hfs))
      (fun sizes hs => hf sizes (List.mem_cons_of_mem _ hs))]
    rfl

theorem run_sizes (buf : ByteArray) (cs : List ByteArray) :
    ∀ fs ∈ (run plain buf cs).1, ∀ f ∈ fs, 12 ≤ f.length := by
  induction cs generalizing buf with
  | nil => intro fs h; cases h
  | cons c cs ih =>
    intro fs h
    rcases List.mem_cons.mp h with rfl | h'
    · exact frame_sizes _
    · exact ih _ fs h'

/-! ## places out of reach -/

theorem toInt32_add (x y : Int) : toInt32 (toInt32 x + y) = toInt32 (x + y) := by
  unfold toInt32
  omega

/-- two contents of the memory before the buffer, told apart by a package out of reach -/
theorem readAt_stray (buf buf' : ByteArray) (i n : Nat) (h12 : 12 ≤ n)
    (hi : i + 12 < 4294967296) (hf : ¬ Fits i n) :
    readAt o (fun _ => 0) buf i n ≠ readAt o (fun _ => 255) buf' i n := by
  intro h
  have e8 : toInt32 ((i : Int) + 8 + 2) = toInt32 ((i : Int) + 10) := by rw [Int.add_assoc]; rfl
  have e10 : toInt32 ((i : Int) + 4 + 4) = toInt32 ((i : Int) + 8) := by rw [Int.add_assoc]; rfl
  have e12 : toInt32 ((i : Int) + 10 + 2) = toInt32 ((i : Int) + 12) := by rw [Int.add_assoc]; rfl
  by_cases h10 : i + 10 < 2147483648
  · -- the header is inside, the first byte of the content is not
    have hn : 12 < n := by
      by_contra hn
      exact hf (.inr ⟨h10, by omega⟩)
    have hneg : toInt32 ((i : Int) + 12) < 0 := by
      have : ¬ i + 12 < 2147483648 := fun h => hf (.inl h)
      unfold toInt32
      omega
    obtain ⟨m, hm⟩ : ∃ m, n - NET_PACKAGE_HEADER_LENGTH = m + 1 :=
      ⟨n - 13, by simp only [NET_PACKAGE_HEADER_LENGTH]; omega⟩
    have hc := congrArg (fun p => p.m_pkgContent.head?) h
    simp only [readAt, NetPackageHeader.decode, toInt32_add, e8, e10, e12, hm, Vec.peeks,
      List.head?_cons, Vec.peek_neg _ _ _ hneg] at hc
    exact absurd hc (by decide)
  · -- the flag word is outside
    have hneg : toInt32 ((i : Int) + 10) < 0 ∧ toInt32 ((i : Int) + 10) + 1 < 0 := by
      unfold toInt32
      omega
    have hc := congrArg (fun p => p.m_pkgHeader.m_flag) h
    simp only [readAt, NetPackageHeader.decode, toInt32_add, e8, e10, read16, ntoh_load16,
      Vec.peek_neg _ _ _ hneg.1, Vec.peek_neg _ _ _ hneg.2] at hc
    exact absurd hc (by decide)

theorem fitsFrom_of_reads (buf buf' : ByteArray) (i : Nat) (fs : List ByteArray)
    (h12 : ∀ f ∈ fs, 12 ≤ f.length) (hi : i + fs.flatten.length < 4294967296)
    (h : readsFrom o (fun _ => 0) buf i fs = readsFrom o (fun _ => 255) buf' i fs) :
    FitsFrom i (fs.map List.length) := by
  induction fs generalizing i with
  | nil => trivial
  | cons f fs ih =>
    have hf := h12 f (List.mem_cons_self ..)
    rw [List.flatten_cons, List.length_append] at hi
    simp only [readsFrom] at h
    injection h with h1 h2
    refine ⟨?_, ih (i + f.length) (fun g hg => h12 g (List.mem_cons_of_mem _ hg)) (by omega) h2⟩
    by_contra hn
    exact readAt_stray o buf buf' i f.length hf (by omega) hn h1

theorem readsFrom_length (wild : Int → BYTE) (buf : ByteArray) (i : Nat) (fs : List ByteArray) :
    (readsFrom o wild buf i fs).length = fs.length := by
  induction fs generalizing i with
  | nil => rfl
  | cons f fs ih => exact congrArg (· + 1) (ih _)

theorem inReach_of_reads {rs rs' : List (List NetPackage)} {calls : List (List ByteArray)}
    (h : List.Forall₂ (ReadOff o fun _ => 0) rs calls)
    (h' : List.Forall₂ (ReadOff o fun _ => 255) rs' calls)
    (h12 : ∀ fs ∈ calls, ∀ f ∈ fs, 12 ≤ f.length)
    (hlen : ∀ fs ∈ calls, fs.flatten.length < 4294967296) (he : rs.flatten = rs'.flatten) :
    InReach (calls.map (·.map List.length)) := by
  induction h generalizing rs' with
  | nil => intro sizes hs; cases hs
  | cons h1 _ ih =>
    cases h' with
    | cons h1' h' =>
      obtain ⟨buf, _, rfl⟩ := h1
      obtain ⟨buf', _, rfl⟩ := h1'
      rw [List.flatten_cons, List.flatten_cons] at he
      obtain ⟨e1, e2⟩ := List.append_inj he (by rw [readsFrom_length, readsFrom_length])
      have hhead := fitsFrom_of_reads o buf buf' 0 _ (h12 _ (List.mem_cons_self ..))
        (by have := hlen _ (List.mem_cons_self ..); omega) e1
      have htail := ih h' (fun fs hfs => h12 fs (List.mem_cons_of_mem _ hfs))
        (fun fs hfs => hlen fs (List.mem_cons_of_mem _ hfs)) e2
      intro sizes hs
      rcases List.mem_cons.mp hs with rfl | hs'
      · exact hhead
      · exact htail sizes hs'

end

/-- what one call takes off is less than two and a half gigabytes -/
theorem run_call_length (buf : ByteArray) (cs : List ByteArray) (hb : plainLook buf = .more)
    (n : Nat) (hc : ∀ c ∈ cs, c.length ≤ n) :
    ∀ fs ∈ (run plain buf cs).1, fs.flatten.length ≤ NET_PACKAGE_INVALID_LENGTH + n := by
  induction cs generalizing buf with
  | nil => intro fs h; cases h
  | cons c cs ih =>
    intro fs h
    rcases List.mem_cons.mp h with rfl | h'
    · have hp := (drain_frames_front plain (buf ++ c)).length_le
      have hw := waiting_length hb
      have hcl := hc c (List.mem_cons_self ..)
      rw [List.length_append] at hp
      omega
    · exact ih _ (look_rest plain _) (fun d hd => hc d (List.mem_cons_of_mem _ hd)) fs h'

/-- chunks of at most 1.5 gigabytes keep every package within reach -/
theorem inReach_small (buf : ByteArray) (cs : List ByteArray) (hb : plainLook buf = .more)
    (hc : ∀ c ∈ cs, c.length ≤ 1610612736) :
    InReach ((run plain buf cs).1.map (·.map List.length)) := by
  intro sizes hs
  obtain ⟨fs, hfs, rfl⟩ := List.mem_map.mp hs
  have hl := run_call_length buf cs hb _ hc fs hfs
  refine fitsFrom_small 0 _ ?_ ?_
  · intro n hn
    obtain ⟨f, hf, rfl⟩ := List.mem_map.mp hn
    exact run_sizes buf cs fs hfs f hf
  · rw [← List.length_flatten]
    simp only [NET_PACKAGE_INVALID_LENGTH] at hl
    omega

/-! ## arbitrary bytes -/

/-- the packages before the first invalid length word -/
def leadingPackages (xs : ByteArray) : List NetPackage :=
  (drain plain xs).frames.map NetPackage.ofBytes

/-- the packages that each call completes, by their sizes, for arbitrary bytes -/
def framesPerCall (cs : List Chunk) : List (List Nat) :=
  (run plain [] (cs.map Chunk.bytes)).1.map (·.map List.length)

section
variable (o : ByteOrder) (wild : Int → BYTE) (fuel : Nat)

theorem receive_inReach (cs : List Chunk) (h : InReach (framesPerCall cs)) :
    ∃ p', receive o wild fuel .fresh cs
        = some ((run plain [] (cs.map Chunk.bytes)).1.map (·.map NetPackage.ofBytes), p') ∧
      p'.Ready ∧ p'.live = (run plain [] (cs.map Chunk.bytes)).2 := by
  obtain ⟨calls, p', e, hr, hl, hreads⟩ := receive_run o wild fuel ready_fresh cs
  rw [live_fresh] at hl hreads
  rw [reads_fits o wild hreads (run_sizes [] _) h] at e
  exact ⟨p', e, hr, hl⟩

/-- **However the bytes are cut, the packages before the first invalid length word are handed over
first, and without such a word the cuts do not matter.** -/
theorem receive_segmentation (cs ds : List Chunk)
    (hcut : (cs.map Chunk.bytes).flatten = (ds.map Chunk.bytes).flatten)
    (hc : InReach (framesPerCall cs)) (hd : InReach (framesPerCall ds)) :
    ∃ rc pc rd pd, receive o wild fuel .fresh cs = some (rc, pc) ∧
      receive o wild fuel .fresh ds = some (rd, pd) ∧
      leadingPackages (cs.map Chunk.bytes).flatten <+: rc.flatten ∧
      leadingPackages (cs.map Chunk.bytes).flatten <+: rd.flatten ∧
      ((drain plain (cs.map Chunk.bytes).flatten).failed = false → rc.flatten = rd.flatten) := by
  obtain ⟨pc, ec, _, _⟩ := receive_inReach o wild fuel cs hc
  obtain ⟨pd, ed, _, _⟩ := receive_inReach o wild fuel ds hd
  have hpc := run_prefix plain [] (cs.map Chunk.bytes) rfl
  have hpd := run_prefix plain [] (ds.map Chunk.bytes) rfl
  refine ⟨_, pc, _, pd, ec, ed, ?_, ?_, fun hf => ?_⟩
  · rw [← List.map_flatten]
    exact hpc.map _
  · rw [← List.map_flatten, hcut]
    exact hpd.map _
  · have hfd := hcut ▸ hf
    rw [← List.map_flatten, ← List.map_flatten, (run_clean plain [] _ rfl hf).1,
      (run_clean plain [] _ rfl hfd).1, List.nil_append, List.nil_append, hcut]

end

/-- a package and the beginning of the next, cut in two ways -/
theorem receive_segmentation_two :
    let cs : List Chunk :=
      [⟨[0, 0, 0, 12, 0, 0, 0, 2, 0, 8, 0, 0, 0], by decide⟩, ⟨[0], by decide⟩]
    let ds : List Chunk :=
      [⟨[0, 0, 0, 12, 0, 0], by decide⟩, ⟨[0, 2, 0, 8, 0, 0, 0, 0], by decide⟩]
    ∃ rc pc rd pd, receive .little (fun _ => 0) 0 .fresh cs = some (rc, pc) ∧
      receive .little (fun _ => 0) 0 .fresh ds = some (rd, pd) ∧
      leadingPackages (cs.map Chunk.bytes).flatten <+: rc.flatten ∧
      leadingPackages (cs.map Chunk.bytes).flatten <+: rd.flatten ∧
      ((drain plain (cs.map Chunk.bytes).flatten).failed = false → rc.flatten = rd.flatten) :=
  receive_segmentation .little (fun _ => 0) 0 _ _ (by decide) (by decide) (by decide)

/-- twelve zero bytes before a package: in one chunk with it they are its end, in a chunk of their
own they are not -/
theorem receive_reset_drops :
    let zero : ByteArray := List.replicate 12 0
    let pkg : ByteArray := [0, 0, 0, 12, 0, 0, 0, 2, 0, 8, 0, 0]
    let cs : List Chunk := [⟨zero ++ pkg, by decide⟩]
    let ds : List Chunk := [⟨zero, by decide⟩, ⟨pkg, by decide⟩]
    (cs.map Chunk.bytes).flatten = (ds.map Chunk.bytes).flatten ∧
      (receive .little (fun _ => 0) 0 .fresh cs).map (·.1.flatten) = some [] ∧
      (receive .little (fun _ => 0) 0 .fresh ds).map (·.1.flatten) = some [.ofBytes pkg] := by
  intro zero pkg cs ds
  obtain ⟨_, ec, _⟩ := receive_inReach .little (fun _ => 0) 0 cs (by decide)
  obtain ⟨_, ed, _⟩ := receive_inReach .little (fun _ => 0) 0 ds (by decide)
  have hc : ((run plain [] (cs.map Chunk.bytes)).1.map (·.map NetPackage.ofBytes)).flatten = [] := by
    decide
  have hd : ((run plain [] (ds.map Chunk.bytes)).1.map (·.map NetPackage.ofBytes)).flatten
      = [.ofBytes pkg] := by
    decide
  refine ⟨by decide, ?_, ?_⟩
  · rw [ec]
    exact congrArg some hc
  · rw [ed]
    exact congrArg some hd

/-! ## encoded packages -/

/-- the encoded size -/
def NetPackage.size (p : NetPackage) : Nat := NET_PACKAGE_HEADER_LENGTH + p.m_pkgContent.length

theorem look_bytes (p : NetPackage) (hp : p.size ≤ NET_PACKAGE_INVALID_LENGTH) :
    plain.look p.bytes = .msg p.bytes.length := by
  have hl := package_bytes_length p
  have hs : p.size = p.bytes.length := hl.symm
  have hw : lengthWord p.bytes = p.bytes.length := by
    rw [hl]
    show (join32 _ _ _ _).toNat = _
    rw [join32_byteAt]
    show (BitVec.ofNat 32 p.size).toNat = p.size
    simp only [NET_PACKAGE_INVALID_LENGTH] at hp
    rw [BitVec.toNat_ofNat, Nat.mod_eq_of_lt (by omega)]
  have h12 : ¬ p.bytes.length < NET_PACKAGE_HEADER_LENGTH := by
    simp only [NET_PACKAGE_HEADER_LENGTH]
    omega
  show plainLook p.bytes = _
  rw [plainLook, hw, if_neg h12, if_neg (by omega), if_pos (Nat.le_refl _)]

/-- the whole receiving side does what it is for: each call hands over the packages that end within
it, with the header fields and the content that were sent, and nothing stays behind -/
def RoundTrip (o : ByteOrder) (wild : Int → BYTE) (fuel : Nat) (pkgs : List NetPackage)
    (cs : List Chunk) : Prop :=
  ∃ calls p', receive o wild fuel .fresh cs = some (calls, p') ∧ calls.length = cs.length ∧
    (∀ k, (calls.take k).flatten = (completed NetPackage.size pkgs
      ((cs.take k).map fun c => c.bytes.length).sum).map NetPackage.sent) ∧
    p'.isInitStatus = true

/-- the packages that each call completes, by their sizes -/
def sizesPerCall (pkgs : List NetPackage) (cs : List Chunk) : List (List Nat) :=
  arrivals id (pkgs.map NetPackage.size) 0 (cs.map fun c => c.bytes.length)

section
variable (o : ByteOrder) (fuel : Nat) (pkgs : List NetPackage)
  (hsize : ∀ p ∈ pkgs, p.size ≤ NET_PACKAGE_INVALID_LENGTH)
  (cs : List Chunk)
  (hcut : (cs.map Chunk.bytes).flatten = (pkgs.map (NetPackage.encodeArr o)).flatten)
include hsize

theorem encodeArr_bytes : pkgs.map (NetPackage.encodeArr o) = pkgs.map NetPackage.bytes := by
  refine List.map_congr_left fun p hp => package_encodeArr o p ?_
  have := hsize p hp
  have hl := package_bytes_length p
  simp only [NetPackage.size, NET_PACKAGE_HEADER_LENGTH, NET_PACKAGE_INVALID_LENGTH] at this
  omega

include hcut

theorem chunks_total : (cs.map fun c => c.bytes.length).sum = (pkgs.map NetPackage.size).sum := by
  have h := congrArg List.length hcut
  rw [encodeArr_bytes o pkgs hsize, List.length_flatten, List.length_flatten, List.map_map,
    List.map_map, show List.length ∘ NetPackage.bytes = NetPackage.size from
      funext package_bytes_length] at h
  exact h

theorem run_packages :
    (run plain [] (cs.map Chunk.bytes)).1
        = (arrivals NetPackage.size pkgs 0 (cs.map fun c => c.bytes.length)).map
            (·.map NetPackage.bytes) ∧
      (run plain [] (cs.map Chunk.bytes)).2 = [] := by
  have hlook : ∀ f ∈ pkgs.map NetPackage.bytes, plain.look f = .msg f.length := by
    intro f hf
    obtain ⟨p, hp, rfl⟩ := List.mem_map.mp hf
    exact look_bytes p (hsize p hp)
  obtain ⟨h1, h2⟩ := run_arrivals plain _ hlook [] (cs.map Chunk.bytes)
    (by rw [List.nil_append, hcut, encodeArr_bytes o pkgs hsize]) rfl
  have hs : (fun p : NetPackage => p.bytes.length) = NetPackage.size :=
    funext package_bytes_length
  refine ⟨?_, h2⟩
  rw [h1, arrivals_map, hs, List.map_map]
  rfl

theorem run_packages_sizes :
    framesPerCall cs = sizesPerCall pkgs cs := by
  have hs : List.length ∘ NetPackage.bytes = NetPackage.size := funext package_bytes_length
  rw [framesPerCall, (run_packages o pkgs hsize cs hcut).1, sizesPerCall, arrivals_map, List.map_map]
  refine List.map_congr_left fun now _ => ?_
  show (now.map NetPackage.bytes).map List.length = _
  rw [List.map_map, hs]

variable (hseq : ∀ p ∈ pkgs, p.m_pkgHeader.m_seq.toNat < 2 ^ 36)
include hseq

theorem roundTrip_of_inReach (h : InReach (sizesPerCall pkgs cs)) (wild : Int → BYTE) :
    RoundTrip o wild fuel pkgs cs := by
  rw [← run_packages_sizes o pkgs hsize cs hcut] at h
  obtain ⟨p', e, hr, hl⟩ := receive_inReach o wild fuel cs h
  obtain ⟨h1, h2⟩ := run_packages o pkgs hsize cs hcut
  have hsent : (run plain [] (cs.map Chunk.bytes)).1.map (·.map NetPackage.ofBytes)
      = (arrivals NetPackage.size pkgs 0 (cs.map fun c => c.bytes.length)).map
          (·.map NetPackage.sent) := by
    rw [h1, List.map_map]
    refine List.map_congr_left fun now hnow => ?_
    show (now.map NetPackage.bytes).map NetPackage.ofBytes = _
    rw [List.map_map]
    exact List.map_congr_left fun p hp =>
      package_ofBytes_bytes p (hseq p (arrivals_mem _ pkgs 0 _ now hnow p hp))
  refine ⟨_, p', e, ?_, ?_, isInitStatus_of_live hr.good hr.index_zero (by rw [hl, h2])⟩
  · rw [hsent, List.length_map, arrivals_length, List.length_map]
  · intro k
    have h0 : completed NetPackage.size pkgs 0 = [] := by
      cases pkgs with
      | nil => rfl
      | cons p ps => exact if_neg (by simp only [NetPackage.size, NET_PACKAGE_HEADER_LENGTH]; omega)
    rw [hsent, ← List.map_take, ← List.map_flatten, arrivals_take _ pkgs 0 _ k h0, Nat.zero_add,
      List.map_take]

omit hseq in
theorem inReach_of_roundTrip (h : ∀ wild, RoundTrip o wild fuel pkgs cs) :
    InReach (sizesPerCall pkgs cs) := by
  have hall : ∀ wild, ∃ calls p', receive o wild fuel .fresh cs = some (calls, p') ∧
      List.Forall₂ (ReadOff o wild) calls (run plain [] (cs.map Chunk.bytes)).1 ∧
      calls.flatten = pkgs.map NetPackage.sent := by
    intro wild
    obtain ⟨calls, p', e, hlen, htake, _⟩ := h wild
    obtain ⟨calls', p'', e', _, _, hreads⟩ := receive_run o wild fuel ready_fresh cs
    rw [e] at e'
    cases e'
    refine ⟨calls, p', e, hreads, ?_⟩
    have hk := htake cs.length
    rw [← hlen, List.take_length, hlen, List.take_length] at hk
    rw [hk, completed_all _ _ _ (Nat.le_of_eq (chunks_total o pkgs hsize cs hcut).symm)]
  obtain ⟨c0, _, _, r0, e0⟩ := hall fun _ => 0
  obtain ⟨c1, _, _, r1, e1⟩ := hall fun _ => 255
  rw [← run_packages_sizes o pkgs hsize cs hcut]
  refine inReach_of_reads o r0 r1 (run_sizes [] _) ?_ (e0.trans e1.symm)
  intro fs hfs
  have hl := run_call_length [] (cs.map Chunk.bytes) rfl 2147483647 ?_ fs hfs
  · simp only [NET_PACKAGE_INVALID_LENGTH] at hl
    omega
  · intro c hc
    obtain ⟨k, _, rfl⟩ := List.mem_map.mp hc
    have := k.fits
    unfold INT32_MAX at this
    omega

end

/-- **Encoded packages come out again as they were sent, whatever the memory outside the buffer
holds, exactly when every package starts at a place that `decode` can address.** -/
theorem receive_packages_iff (o : ByteOrder) (fuel : Nat) (pkgs : List NetPackage)
    (hsize : ∀ p ∈ pkgs, p.size ≤ NET_PACKAGE_INVALID_LENGTH)
    (hseq : ∀ p ∈ pkgs, p.m_pkgHeader.m_seq.toNat < 2 ^ 36) (cs : List Chunk)
    (hcut : (cs.map Chunk.bytes).flatten = (pkgs.map (NetPackage.encodeArr o)).flatten) :
    (∀ wild, RoundTrip o wild fuel pkgs cs) ↔ InReach (sizesPerCall pkgs cs) :=
  ⟨inReach_of_roundTrip o fuel pkgs hsize cs hcut,
    fun h wild => roundTrip_of_inReach o fuel pkgs hsize cs hcut hseq h wild⟩

/-- two packages, the first cut in its header and joined to the second -/
theorem receive_packages_iff_two :
    let pkgs : List NetPackage := [⟨.make 7 1 0 0, [1, 2]⟩, ⟨.make 8 2 0 0, []⟩]
    let cs : List Chunk :=
      [⟨[0, 0, 0, 14, 0], by decide⟩, ⟨[], by decide⟩,
       ⟨[0, 0, 1, 0, 7, 0, 0, 1, 2, 0, 0, 0, 12, 0, 0, 0, 2, 0, 8, 0, 0], by decide⟩]
    (∀ wild, RoundTrip .little wild 0 pkgs cs) ↔ InReach (sizesPerCall pkgs cs) :=
  receive_packages_iff .little 0 _ (by decide) (by decide) _ (by decide)

/-- in particular when no chunk is larger than 1.5 gigabytes, as those that `handleRecvData` gets
from the socket -/
theorem receive_packages_small (o : ByteOrder) (fuel : Nat) (pkgs : List NetPackage)
    (hsize : ∀ p ∈ pkgs, p.size ≤ NET_PACKAGE_INVALID_LENGTH)
    (hseq : ∀ p ∈ pkgs, p.m_pkgHeader.m_seq.toNat < 2 ^ 36) (cs : List Chunk)
    (hcut : (cs.map Chunk.bytes).flatten = (pkgs.map (NetPackage.encodeArr o)).flatten)
    (hc : ∀ c ∈ cs, c.bytes.length ≤ 1610612736) (wild : Int → BYTE) :
    RoundTrip o wild fuel pkgs cs := by
  refine roundTrip_of_inReach o fuel pkgs hsize cs hcut hseq ?_ wild
  rw [← run_packages_sizes o pkgs hsize cs hcut]
  refine inReach_small [] _ rfl fun b hb => ?_
  obtain ⟨c, h, rfl⟩ := List.mem_map.mp hb
  exact hc c h

/-! ### a package that starts two gigabytes into the buffer -/

/-- four packages with the same content and an empty one -/
def fourAndOne (content : ByteArray) : List NetPackage :=
  [⟨.make 1 0 0 0, content⟩, ⟨.make 1 0 0 0, content⟩, ⟨.make 1 0 0 0, content⟩,
   ⟨.make 1 0 0 0, content⟩, ⟨.make 1 0 0 0, []⟩]

/-- the bytes they are sent as, on a little-endian host -/
def fourAndOneBytes (content : ByteArray) : ByteArray :=
  ((fourAndOne content).map (NetPackage.encodeArr .little)).flatten

section
variable {content : ByteArray} (hc : content.length = 536870900)
include hc

theorem fourAndOne_size : (fourAndOne content).map NetPackage.size
    = [536870912, 536870912, 536870912, 536870912, 12] := by
  have h : NetPackage.size ⟨.make 1 0 0 0, content⟩ = 536870912 := by
    show 12 + content.length = _
    rw [hc]
  show [NetPackage.size _, NetPackage.size _, NetPackage.size _, NetPackage.size _, 12] = _
  rw [h]

theorem fourAndOne_le : ∀ p ∈ fourAndOne content, p.size ≤ NET_PACKAGE_INVALID_LENGTH := by
  intro p hp
  have h : p.size ∈ (fourAndOne content).map NetPackage.size := List.mem_map_of_mem hp
  rw [fourAndOne_size hc] at h
  simp only [List.mem_cons, List.not_mem_nil, or_false] at h
  show p.size ≤ 536870912
  omega

theorem fourAndOneBytes_length : (fourAndOneBytes content).length = 2147483660 := by
  have hb : List.length ∘ NetPackage.bytes = NetPackage.size := funext package_bytes_length
  rw [fourAndOneBytes, encodeArr_bytes .little _ (fourAndOne_le hc), List.length_flatten,
    List.map_map, hb, fourAndOne_size hc]
  rfl

end

theorem fourAndOne_seq (content : ByteArray) :
    ∀ p ∈ fourAndOne content, p.m_pkgHeader.m_seq.toNat < 2 ^ 36 := by
  intro p hp
  have h : p.m_pkgHeader ∈ (fourAndOne content).map NetPackage.m_pkgHeader :=
    List.mem_map_of_mem hp
  have hp : p.m_pkgHeader = .make 1 0 0 0 := by simpa [fourAndOne] using h
  rw [hp]
  decide

/-- all but the last byte of the first package, and the rest -/
def oneByteShort {content : ByteArray} (hc : content.length = 536870900) : List Chunk :=
  [⟨(fourAndOneBytes content).take 536870911, by
      rw [List.length_take, fourAndOneBytes_length hc]
      decide⟩,
   ⟨(fourAndOneBytes content).drop 536870911, by
      rw [List.length_drop, fourAndOneBytes_length hc]
      decide⟩]

/-- the last package starts at `2 ^ 31`, out of reach -/
theorem fourAndOne_stray {content : ByteArray} (hc : content.length = 536870900) :
    ((oneByteShort hc).map Chunk.bytes).flatten
        = ((fourAndOne content).map (NetPackage.encodeArr .little)).flatten ∧
      ¬ ∀ wild, RoundTrip .little wild 0 (fourAndOne content) (oneByteShort hc) := by
  have hcut : ((oneByteShort hc).map Chunk.bytes).flatten
      = ((fourAndOne content).map (NetPackage.encodeArr .little)).flatten := by
    show (fourAndOneBytes content).take 536870911 ++ ((fourAndOneBytes content).drop 536870911
      ++ []) = fourAndOneBytes content
    rw [List.append_nil, List.take_append_drop]
  refine ⟨hcut, fun h => ?_⟩
  have hr := inReach_of_roundTrip .little 0 _ (fourAndOne_le hc) (oneByteShort hc) hcut h
  have hlens : (oneByteShort hc).map (fun c => c.bytes.length) = [536870911, 1610612749] := by
    show [((fourAndOneBytes content).take 536870911).length,
      ((fourAndOneBytes content).drop 536870911).length] = _
    rw [List.length_take, List.length_drop, fourAndOneBytes_length hc]
    rfl
  rw [sizesPerCall, fourAndOne_size hc, hlens] at hr
  exact absurd hr (by decide)

/-- the largest content, all zero -/
def zeroes : ByteArray := List.replicate 536870900 0

theorem zeroes_length : zeroes.length = 536870900 := List.length_replicate

theorem receive_packages_stray :
    (∀ p ∈ fourAndOne zeroes, p.size ≤ NET_PACKAGE_INVALID_LENGTH) ∧
    (∀ p ∈ fourAndOne zeroes, p.m_pkgHeader.m_seq.toNat < 2 ^ 36) ∧
    ((oneByteShort zeroes_length).map Chunk.bytes).flatten
      = ((fourAndOne zeroes).map (NetPackage.encodeArr .little)).flatten ∧
    ¬ ∀ wild, RoundTrip .little wild 0 (fourAndOne zeroes) (oneByteShort zeroes_length) :=
  ⟨fourAndOne_le zeroes_length, fourAndOne_seq zeroes, fourAndOne_stray zeroes_length⟩

end Netwb
