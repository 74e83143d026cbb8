import Netwb.Net.SessionRuns
import Netwb.Net.Receive

/-!
# Handlers that throw

`handleRecvData` catches what `onPackageReceived` throws, and the exception has left the loop of
`onDataReceived` by then.  The packages behind the one whose handler threw stay in the parser.

* `packages_throws`       a loop whose handler throws hands over the packages up to the first call
                          that does, and the rest is still in the parser;
* `handler_throws_iff`    on a connection without a cipher, after any events: a chunk leaves no
                          complete package behind exactly when no call throws but the one for the
                          last package.
-/

namespace Netwb
open Wire Framing

/-! ## the loop -/

/-- how many of `n` packages are handed over when the first call has number `k` -/
def callsMade (throws : Nat → Bool) : Nat → Nat → Nat
  | _, 0 => 0
  | k, n + 1 => if throws k then 1 else callsMade throws (k + 1) n + 1

theorem callsMade_eq_iff (throws : Nat → Bool) (k n : Nat) :
    callsMade throws k n = n ↔ ∀ j, j + 1 < n → throws (k + j) = false := by
  induction n generalizing k with
  | zero => exact ⟨fun _ j hj => absurd hj (Nat.not_lt_zero _), fun _ => rfl⟩
  | succ n ih =>
    rw [callsMade]
    cases ht : throws k with
    | true =>
      rw [if_pos rfl]
      refine ⟨fun e j hj => absurd hj (by omega), fun h => ?_⟩
      by_contra hne
      have := h 0 (by omega)
      rw [Nat.add_zero, ht] at this
      cases this
    | false =>
      rw [if_neg Bool.false_ne_true]
      refine ⟨fun e j hj => ?_, fun h => ?_⟩
      · cases j with
        | zero => exact ht
        | succ j =>
          have := (ih (k + 1)).mp (by omega) j (by omega)
          rwa [Nat.add_assoc, Nat.add_comm 1 j] at this
      · have := (ih (k + 1)).mpr fun j hj => by
          rw [Nat.add_assoc, Nat.add_comm 1 j]
          exact h (j + 1) (by omega)
        omega

theorem callsMade_le (throws : Nat → Bool) (k n : Nat) : callsMade throws k n ≤ n := by
  induction n generalizing k with
  | zero => exact Nat.le_refl _
  | succ n ih =>
    rw [callsMade]
    split
    · omega
    · have := ih (k + 1)
      omega

section
variable (o : ByteOrder) (wild : Int → BYTE)

theorem readAt_size (buf : ByteArray) (i n : Nat) (h12 : 12 ≤ n) :
    (readAt o wild buf i n).size = n := by
  show 12 + (Vec.peeks wild buf _ (n - 12)).length = n
  rw [Vec.peeks_length]
  omega

/-- the loop leaves the indices in the buffer, whatever is thrown -/
theorem packages_good (throws : Nat → Bool) : ∀ {p : NetPackageParser} (_ : p.Good) (k : Nat),
    (p.packages o wild throws k).1.Good := by
  intro p h
  induction p, h using good_ind o wild with
  | more p p' h hl hnext g _ _ =>
    intro k
    rw [packages_none o wild throws k hnext]
    exact g
  | bad p h hl hnext =>
    intro k
    rw [packages_none o wild throws k hnext]
    exact good_reset p
  | msg p p' n h g hl htaken hnext hlive ih =>
    intro k
    rw [packages_some o wild throws k hnext]
    split
    · exact g
    · exact ih (k + 1)

/-- **A loop whose handler throws hands over the packages up to the first call that does; the
others stay in the parser.** -/
theorem packages_throws (throws : Nat → Bool) : ∀ {p : NetPackageParser} (_ : p.Good) (k : Nat),
    (drain plain p.live).failed = false →
    (p.packages o wild throws k).2.1.map NetPackage.size
        = ((drain plain p.live).frames.take
            (callsMade throws k (drain plain p.live).frames.length)).map List.length ∧
      drain plain (p.packages o wild throws k).1.live
        = ⟨(drain plain p.live).frames.drop
            (callsMade throws k (drain plain p.live).frames.length),
          (drain plain p.live).rest, false⟩ := by
  intro p h
  induction p, h using good_ind o wild with
  | more p p' h hl hnext _ hlive _ =>
    intro k _
    rw [packages_none o wild throws k hnext, drain_more plain hl]
    dsimp only
    rw [hlive, drain_more plain hl]
    exact ⟨rfl, rfl⟩
  | bad p h hl hnext =>
    intro k hf
    rw [drain_bad plain hl] at hf
    cases hf
  | msg p p' n h g hl htaken hnext hlive ih =>
    intro k hf
    have h12 := (plainLook_msg hl).2.1
    have hlen := frame_length plain hl
    have hsize := readAt_size o wild p.m_dataBuf p.m_dataIndex n h12
    rw [drain_msg plain hl, ← hlive] at hf ⊢
    obtain ⟨i1, i2⟩ := ih (k + 1) hf
    rw [packages_some o wild throws k hnext]
    simp only [Drained.push, List.length_cons, callsMade]
    split
    · dsimp only
      rw [List.take_succ_cons, List.take_zero, List.map_singleton, List.map_singleton, hsize, hlen]
      refine ⟨rfl, ?_⟩
      show drain plain _ = ⟨(drain plain _).frames, (drain plain _).rest, false⟩
      rw [← hf]
      rfl
    · dsimp only
      rw [List.map_cons, i1, i2, List.take_succ_cons, List.map_cons, hsize, hlen]
      exact ⟨rfl, rfl⟩

end

/-! ## what a step brings to the parser -/

namespace NetConnection

/-- the parser, and the packages it has handed over -/
def inbox (s : NetConnection) : NetPackageParser × List NetPackage := (s.m_pkgParser, s.received)

theorem cancelKeepAlive_inbox (s : NetConnection) : s.cancelKeepAlive.inbox = s.inbox := by
  unfold cancelKeepAlive
  split <;> rfl

theorem cancelTimeout_inbox (s : NetConnection) : s.cancelTimeout.inbox = s.inbox := by
  unfold cancelTimeout
  split <;> rfl

theorem recvData_inbox (s : NetConnection) (b : Bool) : (s.recvData b).inbox = s.inbox := by
  unfold recvData
  split <;> rfl

theorem doClose_inbox (s : NetConnection) : s.doClose.inbox = s.inbox := by
  show ({ s with m_bConnected := false, isOpen := false } :
    NetConnection).cancelKeepAlive.cancelTimeout.inbox = s.inbox
  rw [cancelTimeout_inbox, cancelKeepAlive_inbox]
  rfl

theorem handleConnectionError_inbox (s : NetConnection) :
    s.handleConnectionError.inbox = s.inbox := by
  unfold handleConnectionError
  split
  · exact doClose_inbox s
  · rfl

theorem sendDataAsync_inbox {s s' : NetConnection} {c : Choice} {data : ByteArray} {len : Int}
    {b : Bool} (h : s.sendDataAsync c data len = some (s', b)) : s'.inbox = s.inbox := by
  unfold sendDataAsync at h
  split at h
  · split at h
    · obtain ⟨r, _, he⟩ := Option.map_eq_some_iff.mp h
      split at he <;> cases he <;> rfl
    · cases h
      rfl
  · cases h
    rfl

theorem doSendKeepAlive_inbox {s s' : NetConnection} {t : Turn} {err : Bool}
    (h : s.doSendKeepAlive t err = some s') : s'.inbox = s.inbox := by
  unfold doSendKeepAlive at h
  split at h
  · cases h
    rfl
  · obtain ⟨s1, h1, rfl⟩ := Option.map_eq_some_iff.mp h
    show s1.cancelKeepAlive.inbox = s.inbox
    rw [cancelKeepAlive_inbox]
    split at h1
    · obtain ⟨⟨s2, b⟩, h2, rfl⟩ := Option.map_eq_some_iff.mp h1
      exact sendDataAsync_inbox h2
    · cases h1
      rfl

/-- the bytes of a read that has ended well, when its handler runs -/
def incoming (s : NetConnection) : Event → ByteArray
  | .run i _ =>
    match s.posted[i]? with
    | some (.handleRecvData false data) => data
    | _ => []
  | _ => []

theorem incoming_failing {s : NetConnection} {i : Nat} {t : Turn} {h : Handler}
    (hi : s.posted[i]? = some h) (hf : s.failing t h = true) : s.incoming (.run i t) = [] := by
  rw [incoming, hi]
  cases h with
  | handleRecvData err data =>
    cases hf
    rfl
  | _ => rfl

/-- **Only a chunk that is handled changes the parser.** -/
theorem step_inbox {s s' : NetConnection} {e : Event} (h : s.step e = some s') :
    s'.inbox = s.inbox ∧ s.incoming e = [] ∨
      ∃ (t : Turn) (data : ByteArray) (r : NetPackageParser × List NetPackage × Bool),
        s.incoming e = data ∧ onDataReceived t.order t.wild t.fuel t.throws s.m_pkgParser data
          data.length = some r ∧ s'.inbox = (r.1, s.received ++ r.2.1) := by
  cases step_does h with
  | sendDataAsync h1 => exact .inl ⟨sendDataAsync_inbox h1, rfl⟩
  | sendDataSync throws =>
    refine .inl ⟨?_, rfl⟩
    unfold sendDataSync
    split
    · split <;> rfl
    · rfl
  | close => exact .inl ⟨rfl, rfl⟩
  | removeConnection => exact .inl ⟨rfl, rfl⟩
  | readEnds err data => exact .inl ⟨rfl, rfl⟩
  | writeEnds i err => exact .inl ⟨rfl, rfl⟩
  | keepAliveExpires _ => exact .inl ⟨rfl, rfl⟩
  | timeoutExpires _ => exact .inl ⟨rfl, rfl⟩
  | doClose t hi => exact .inl ⟨doClose_inbox _, by rw [incoming, hi]⟩
  | fails hi hf => exact .inl ⟨handleConnectionError_inbox _, incoming_failing hi hf⟩
  | @receives i t data r hi hr =>
    exact .inr ⟨t, data, r, by rw [incoming, hi], hr, recvData_inbox _ _⟩
  | receivesNothing t hi => exact .inl ⟨recvData_inbox _ _, by rw [incoming, hi]⟩
  | sends hi hq => exact .inl ⟨rfl, by rw [incoming, hi]⟩
  | keepAliveAborted t hi => exact .inl ⟨rfl, by rw [incoming, hi]⟩
  | keepsAlive hi h1 =>
    have hk := doSendKeepAlive_inbox h1
    exact .inl ⟨hk, by rw [incoming, hi]⟩
  | timeoutAborted t hi => exact .inl ⟨rfl, by rw [incoming, hi]⟩
  | inTime hi hf => exact .inl ⟨cancelTimeout_inbox _, by rw [incoming, hi]⟩

/-! ## deliveries -/

/-- the parser and the packages handed over, after some bytes: those packages, and what the live
bytes still hold, are the frames of the bytes -/
structure Delivery (s : NetConnection) (bytes : ByteArray) : Prop where
  noCipher : s.m_pkgParser.m_encryptInfo.cipher = none
  good : s.m_pkgParser.Good
  frames : (drain plain bytes).failed = false → ∃ handed : List ByteArray,
    s.received.map NetPackage.size = handed.map List.length ∧
    drain plain bytes = ⟨handed ++ (drain plain s.m_pkgParser.live).frames,
      (drain plain s.m_pkgParser.live).rest, false⟩ ∧
    (drain plain s.m_pkgParser.live).failed = false

theorem Delivery.of_inbox {s s' : NetConnection} {bytes : ByteArray} (h : Delivery s bytes)
    (hi : s'.inbox = s.inbox) : Delivery s' bytes := by
  obtain ⟨hp, hr⟩ := Prod.ext_iff.mp hi
  have hp : s'.m_pkgParser = s.m_pkgParser := hp
  have hr : s'.received = s.received := hr
  refine ⟨by rw [hp]; exact h.noCipher, by rw [hp]; exact h.good, ?_⟩
  rw [hp, hr]
  exact h.frames

theorem onDataReceived_plain (t : Turn) {p : NetPackageParser}
    (hc : p.m_encryptInfo.cipher = none) {data : ByteArray} (hd : (data.length : Int) ≤ INT32_MAX) :
    onDataReceived t.order t.wild t.fuel t.throws p data data.length
      = some ((p.feedPack t.wild data data.length).packages t.order t.wild t.throws 0) :=
  onDataReceived_fed t.order t.wild t.fuel t.throws hc ⟨data, hd⟩

/-- **What a chunk delivers, and what it leaves in the parser.** -/
theorem chunk_delivery {s s' : NetConnection} {bytes data : ByteArray} (h : Delivery s bytes)
    (hd : (data.length : Int) ≤ INT32_MAX) (t : Turn)
    {r : NetPackageParser × List NetPackage × Bool}
    (hr : onDataReceived t.order t.wild t.fuel t.throws s.m_pkgParser data data.length = some r)
    (hi : s'.inbox = (r.1, s.received ++ r.2.1)) :
    Delivery s' (bytes ++ data) ∧ ((drain plain (bytes ++ data)).failed = false →
      (drain plain s'.m_pkgParser.live).frames
        = (drain plain (s.m_pkgParser.live ++ data)).frames.drop (callsMade t.throws 0
          (drain plain (s.m_pkgParser.live ++ data)).frames.length)) := by
  obtain ⟨hp, hrec⟩ := Prod.ext_iff.mp hi
  have hp : s'.m_pkgParser = r.1 := hp
  have hrec : s'.received = s.received ++ r.2.1 := hrec
  rw [onDataReceived_plain t h.noCipher hd] at hr
  obtain ⟨hfg, hfl, _⟩ := feedPack_live t.wild h.good data data.length (Nat.le_refl _)
  rw [List.take_length] at hfl
  have hcipher := packages_encryptInfo t.order t.wild t.throws
    (s.m_pkgParser.feedPack t.wild data data.length) 0
  have hgood := packages_good t.order t.wild t.throws hfg 0
  have hloop := packages_throws t.order t.wild t.throws hfg 0
  rw [hfl] at hloop
  injection hr with hr
  rw [hr] at hcipher hgood hloop
  -- what the bytes so far and the live ones have in common
  have hsplit : (drain plain (bytes ++ data)).failed = false → ∃ handed : List ByteArray,
      s.received.map NetPackage.size = handed.map List.length ∧
      drain plain (bytes ++ data) = ⟨handed ++ (drain plain (s.m_pkgParser.live ++ data)).frames,
        (drain plain (s.m_pkgParser.live ++ data)).rest, false⟩ ∧
      (drain plain (s.m_pkgParser.live ++ data)).failed = false := by
    intro hf
    obtain ⟨handed, h1, h2, h3⟩ := h.frames (drain_failed_of_append plain bytes data hf)
    obtain ⟨a1, a2, a3⟩ := drain_append plain bytes data (by rw [h2])
    obtain ⟨b1, b2, b3⟩ := drain_append plain s.m_pkgParser.live data h3
    rw [h2] at a1 a2 a3
    dsimp only at a1 a2 a3
    rw [hf] at a3
    refine ⟨handed, h1, ?_, by rw [b3, ← a3]⟩
    calc drain plain (bytes ++ data)
        = ⟨(drain plain (bytes ++ data)).frames, (drain plain (bytes ++ data)).rest,
            (drain plain (bytes ++ data)).failed⟩ := rfl
      _ = _ := by rw [a1, a2, hf, b1, b2, List.append_assoc]
  refine ⟨⟨?_, by rw [hp]; exact hgood, fun hf => ?_⟩, fun hf => ?_⟩
  · rw [hp, hcipher, (feedPack_frame t.wild s.m_pkgParser data data.length).1]
    exact h.noCipher
  · obtain ⟨handed, h1, h2, h3⟩ := hsplit hf
    obtain ⟨l1, l2⟩ := hloop h3
    refine ⟨handed ++ (drain plain (s.m_pkgParser.live ++ data)).frames.take (callsMade t.throws 0
      (drain plain (s.m_pkgParser.live ++ data)).frames.length), ?_, ?_, ?_⟩
    · rw [hrec, List.map_append, List.map_append, h1, l1]
    · rw [h2, hp, l2, List.append_assoc, List.take_append_drop]
    · rw [hp, l2]
  · obtain ⟨_, _, _, h3⟩ := hsplit hf
    rw [hp, (hloop h3).2]

/-- the length of a chunk is an `r_int32` -/
def Sized (s : NetConnection) (e : Event) : Prop := ((s.incoming e).length : Int) ≤ INT32_MAX

instance (s : NetConnection) (e : Event) : Decidable (Sized s e) :=
  inferInstanceAs (Decidable (_ ≤ _))

theorem step_delivery {s s' : NetConnection} {e : Event} {bytes : ByteArray}
    (h : Delivery s bytes) (hd : Sized s e) (hs : s.step e = some s') :
    Delivery s' (bytes ++ s.incoming e) := by
  rcases step_inbox hs with ⟨hi, hin⟩ | ⟨t, data, r, hin, hr, hi⟩
  · rw [hin, List.append_nil]
    exact h.of_inbox hi
  · rw [Sized, hin] at hd
    rw [hin]
    exact (chunk_delivery h hd t hr hi).1

theorem delivery_started (keepAlive timeout now : Int) (b : Bool) :
    Delivery (started none keepAlive timeout now b) [] := by
  have hi : (started none keepAlive timeout now b).inbox = (.fresh, []) := by
    unfold started start
    rw [recvData_inbox]
    dsimp only
    split <;> split <;> rfl
  have h0 : Delivery (accepted none keepAlive timeout) [] :=
    ⟨rfl, good_fresh, fun _ => ⟨[], rfl, rfl, rfl⟩⟩
  exact h0.of_inbox hi

/-- `onPackageReceived` has been called once for each complete package of the bytes, and none is
left in the parser -/
structure Delivered (s : NetConnection) (bytes : ByteArray) : Prop where
  once : s.received.map NetPackage.size = (drain plain bytes).frames.map List.length
  none_left : (drain plain s.m_pkgParser.live).frames = []

theorem delivered_iff {s : NetConnection} {bytes : ByteArray} (h : Delivery s bytes)
    (hv : (drain plain bytes).failed = false) :
    Delivered s bytes ↔ (drain plain s.m_pkgParser.live).frames = [] := by
  refine ⟨fun hd => hd.none_left, fun hnil => ⟨?_, hnil⟩⟩
  obtain ⟨handed, h1, h2, _⟩ := h.frames hv
  rw [h1, h2, hnil, List.append_nil]

/-- the handlers of all complete packages but the last one return normally; a chunk without bytes
finds none in the parser -/
def Spared (s : NetConnection) (t : Turn) (data : ByteArray) : Prop :=
  if data = [] then (drain plain s.m_pkgParser.live).frames = []
  else ∀ k, k + 1 < (drain plain (s.m_pkgParser.live ++ data)).frames.length →
    t.throws k = false

/-- one chunk, on a connection that has delivered or still holds everything -/
theorem chunk_iff {s : NetConnection} {bytes data : ByteArray} (h : Delivery s bytes) {i : Nat}
    (t : Turn) (hi : s.posted[i]? = some (.handleRecvData false data))
    (hd : (data.length : Int) ≤ INT32_MAX) (hv : (drain plain (bytes ++ data)).failed = false) :
    ∃ s', s.step (.run i t) = some s' ∧ (Delivered s' (bytes ++ data) ↔ Spared s t data) := by
  by_cases h0 : data = []
  · subst h0
    rw [List.append_nil] at hv ⊢
    refine ⟨_, by rw [step, hi]; rfl, ?_⟩
    have hin := recvData_inbox ({ s with
      posted := s.posted.eraseIdx i, m_lastRecvTime := t.now } : NetConnection) t.readThrows
    have hp := (Prod.ext_iff.mp hin).1
    rw [delivered_iff (h.of_inbox hin) hv, Spared, if_pos rfl]
    show (drain plain (NetConnection.inbox _).1.live).frames = [] ↔ _
    rw [hp]
    rfl
  · obtain ⟨r, hr⟩ : ∃ r, onDataReceived t.order t.wild t.fuel t.throws s.m_pkgParser data
        data.length = some r := ⟨_, onDataReceived_plain t h.noCipher hd⟩
    have hstep : s.step (.run i t) = some (({ s with
        posted := s.posted.eraseIdx i, m_lastRecvTime := t.now, m_pkgParser := r.1,
        received := s.received ++ r.2.1 } : NetConnection).recvData t.readThrows) := by
      rw [step, hi]
      dsimp only
      rw [handle, handleRecvData, if_neg Bool.false_ne_true]
      dsimp only
      rw [if_pos h0, hr]
      rfl
    obtain ⟨hdel, hleft⟩ := chunk_delivery h hd t hr (recvData_inbox ({ s with
        posted := s.posted.eraseIdx i, m_lastRecvTime := t.now, m_pkgParser := r.1,
        received := s.received ++ r.2.1 } : NetConnection) t.readThrows)
    have hle := callsMade_le t.throws 0 (drain plain (s.m_pkgParser.live ++ data)).frames.length
    have hiff := callsMade_eq_iff t.throws 0
      (drain plain (s.m_pkgParser.live ++ data)).frames.length
    refine ⟨_, hstep, ?_⟩
    rw [delivered_iff hdel hv, hleft hv, List.drop_eq_nil_iff, Spared, if_neg h0]
    refine ⟨fun hge k hk => ?_, fun hsp => ?_⟩
    · have := hiff.mp (Nat.le_antisymm hle hge) k hk
      rwa [Nat.zero_add] at this
    · apply Nat.le_of_eq
      symm
      apply hiff.mpr
      intro j hj
      rw [Nat.zero_add]
      exact hsp j hj

/-- **After any events, a chunk strands no complete package exactly when no handler throws but that
of the last one.** -/
theorem handler_throws_iff (keepAlive timeout now : Int) (b : Bool) {es : List Event}
    {s : NetConnection} (hsize : Machine.Along step Sized (started none keepAlive timeout now b) es)
    (h : Machine.run step (started none keepAlive timeout now b) es = some s) {i : Nat} (t : Turn)
    {data bytes : ByteArray} (hi : s.posted[i]? = some (.handleRecvData false data))
    (hd : (data.length : Int) ≤ INT32_MAX)
    (hb : bytes
      = Machine.collect step incoming (started none keepAlive timeout now b) es ++ data)
    (hv : (drain plain bytes).failed = false) :
    ∃ s', s.step (.run i t) = some s' ∧ (Delivered s' bytes ↔ Spared s t data) := by
  have hdel : Delivery s (Machine.collect step incoming (started none keepAlive timeout now b) es) :=
    Machine.run_collect Delivery (fun _ _ _ _ hJ hP hs => step_delivery hJ hP hs)
      (delivery_started keepAlive timeout now b) hsize h
  subst hb
  exact chunk_iff hdel t hi hd hv

/-- two packages without content -/
def twoHeaders : ByteArray :=
  [0, 0, 0, 12, 0, 0, 0, 1, 0, 7, 0, 0, 0, 0, 0, 12, 0, 0, 0, 2, 0, 7, 0, 0]

/-- a quiet environment in which the first call of `onPackageReceived` throws -/
def firstThrows : Turn := { calm with throws := fun k => k == 0 }

/-- the two packages come in, and the second call throws -/
theorem handler_throws_iff_second : ∃ s,
    Machine.run step (started none 0 0 0 false) [.readEnds false twoHeaders] = some s ∧
      ∃ s', s.step (.run 0 { calm with throws := fun k => k == 1 }) = some s' ∧
        (Delivered s' twoHeaders
          ↔ Spared s { calm with throws := fun k => k == 1 } twoHeaders) := by
  have hsized : Machine.Along step Sized (started none 0 0 0 false)
      [.readEnds false twoHeaders] := ⟨by decide, trivial⟩
  refine ⟨_, rfl, ?_⟩
  exact handler_throws_iff 0 0 0 false hsized rfl _ rfl (by decide) rfl (by decide)

/-- the first call throws: the second package stays in the parser -/
theorem second_package_stranded : ∃ s,
    Machine.run step (started none 0 0 0 false) [.readEnds false twoHeaders, .run 0 firstThrows]
      = some s ∧ (drain plain twoHeaders).failed = false ∧ ¬ Delivered s twoHeaders := by
  have hv : (drain plain ([] ++ twoHeaders)).failed = false := by decide
  have hdel := delivery_started 0 0 0 false
  obtain ⟨s1, h1⟩ : ∃ s1, (started none 0 0 0 false).step (.readEnds false twoHeaders) = some s1 :=
    ⟨_, rfl⟩
  have hdel1 : Delivery s1 [] := step_delivery hdel (by decide) h1
  obtain ⟨s', h2, hiff⟩ := chunk_iff hdel1 firstThrows (i := 0) (by cases h1; rfl) (by decide) hv
  refine ⟨s', by rw [Machine.run, h1, Option.bind_some, Machine.run, h2]; rfl, hv, fun hd => ?_⟩
  have hsp := hiff.mp hd
  cases h1
  exact absurd (hsp 0 (by decide)) (by decide)

end NetConnection

end Netwb
