import Netwb.Lib.Vec
import Netwb.Net.Sender

/-!
# The recorded sizes of the send buffers

`m_waitingBufLen` and `m_sendBufLen` against the blocks of the heap, in every run of sends,
completions and `setCipher` calls, whatever the cipher answers within the room it was told.

Three things break them.  After `BUFFER_ERROR` the size that is recorded is half as large again as
the one that `realloc` gets.  After `UNKNOWN_ERROR` the data stays in the waiting buffer, and the
averaging rule may halve the buffer below it.  And the sum of `sendDataAsync` may wrap around.
`SizesKept` says that none of them happens in a step; then

* `step_owned`     a step keeps the recorded sizes, and a buffer is not there or at least
                   `MIN_SEND_BUF_SIZE` large;
* `step_spans`     what the step copies, encrypts and writes is inside the blocks;
* `sizes_real`     both hold along every run.
-/

namespace Netwb
open Wire Memory

/-- every answer stays within the room it was told -/
def Choice.WithinRoom (c : Choice) : Prop :=
  ∀ e ∈ c.encrypts, ∀ p room, (e.answer p room).2.length ≤ room

namespace SendQueue

/-! ## what is touched -/

def waitingSpan (q : SendQueue) (start : Int) (len : Nat) : Vec.Span :=
  ⟨start, len, q.heap.size q.m_waitingBuf⟩

def sendSpan (q : SendQueue) (start : Int) (len : Nat) : Vec.Span :=
  ⟨start, len, q.heap.size q.m_sendBuf⟩

/-- the branch with a cipher: in each round what `encrypt` reads and the room it is told; at the end
the two lengths and the write -/
def cipherSpans (junk : Nat → BYTE) : SendQueue → List EncryptCall → List Vec.Span
  | _, [] => []
  | q, e :: es =>
    let q := q.makeSendBuf junk
    q.waitingSpan 0 (toSize q.m_waitingPos) :: q.sendSpan 8 (toSize (q.m_sendBufLen - 8)) ::
      match q.encrypt junk e with
      | (.OK, out, q) => [q.sendSpan 0 4, q.sendSpan 4 4, q.sendSpan 0 (8 + out.length)]
      | (.BUFFER_ERROR, _, q) => cipherSpans junk (q.growSendBuf junk e.moves) es
      | (.UNKNOWN_ERROR, _, _) => []

/-- what `doSendData` touches -/
def sendSpans (q : SendQueue) (c : Choice) : List Vec.Span :=
  if q.m_waitingPos = 0 then []
  else if q.m_cipher then cipherSpans c.junk q c.encrypts
  else [q.swap.sendSpan 0 (toSize q.m_waitingPos)]

/-- the answer is not `BUFFER_ERROR`, and with `UNKNOWN_ERROR` the averaging rule does not halve the
waiting buffer below what waits -/
def EndsWell (q : SendQueue) (c : Choice) : CIPHER_STATUS → Prop
  | .OK => True
  | .BUFFER_ERROR => False
  | .UNKNOWN_ERROR => Halves q c → q.m_waitingPos ≤ q.m_waitingBufLen / 2

instance (q : SendQueue) (c : Choice) : ∀ r, Decidable (EndsWell q c r)
  | .OK => .isTrue trivial
  | .BUFFER_ERROR => .isFalse id
  | .UNKNOWN_ERROR => inferInstanceAs (Decidable (_ → _))

/-- what `encrypt` answers first ends well -/
def Roomy (q : SendQueue) (c : Choice) : Prop :=
  q.m_waitingPos ≠ 0 → q.m_cipher = true → ∀ e ∈ c.encrypts.head?,
    EndsWell q c ((q.makeSendBuf c.junk).encrypt c.junk e).1

instance (q : SendQueue) (c : Choice) : Decidable (Roomy q c) :=
  inferInstanceAs (Decidable (_ → _ → ∀ e ∈ c.encrypts.head?, EndsWell q c _))

/-! ## blocks that are there -/

/-- the recorded sizes are real; a buffer is not there or at least `MIN_SEND_BUF_SIZE` large -/
structure Owned (q : SendQueue) : Prop where
  layout : Layout q
  waiting_made : q.m_waitingBufLen = 0 ∧ q.heap.blocks q.m_waitingBuf = none ∨
    MIN_SEND_BUF_SIZE ≤ q.m_waitingBufLen
  send_made : q.m_sendBufLen = 0 ∧ q.heap.blocks q.m_sendBuf = none ∨
    MIN_SEND_BUF_SIZE ≤ q.m_sendBufLen

theorem owned_init (m_cipher : Bool) : Owned (init m_cipher) :=
  ⟨layout_init m_cipher, .inl ⟨rfl, rfl⟩, .inl ⟨rfl, rfl⟩⟩

/-- it is about the buffers and the position only -/
theorem Owned.same {q : SendQueue} (h : Owned q) {pos : Int} (hp : 0 ≤ pos)
    (hpl : pos ≤ q.m_waitingBufLen) (m_cipher sending : Bool) (ave : Int) (ws : List Write)
    (wr : List ByteArray) (acc : ByteArray) (dropped : Bool) :
    Owned { q with
      m_cipher := m_cipher, m_waitingPos := pos, m_bSending := sending, m_sendAveSize := ave
      writes := ws, written := wr, accepted := acc, dropped := dropped } := by
  obtain ⟨l, w, s⟩ := h
  exact ⟨⟨l.waiting, l.send, l.apart, l.waiting_lt, l.send_lt, hp, hpl, l.waiting_le, l.send_le⟩,
    w, s⟩

theorem Owned.store {q : SendQueue} (h : Owned q) (a : Nat) (at' : Int) (src : ByteArray) :
    Owned { q with heap := q.heap.store a at' src } := by
  obtain ⟨l, w, s⟩ := h
  have hnone : ∀ x, q.heap.blocks x = none → (q.heap.store a at' src).blocks x = none :=
    fun x hx => q.heap.blocks_store_none hx a at' src
  refine ⟨⟨?_, ?_, l.apart.imp_right (hnone _), l.waiting_lt, l.send_lt, l.pos_nonneg, l.pos_le,
    l.waiting_le, l.send_le⟩, w.imp_left (And.imp_right (hnone _)),
    s.imp_left (And.imp_right (hnone _))⟩
  · show ((q.heap.store a at' src).size q.m_waitingBuf : Int) = _
    rw [Heap.size_store]
    exact l.waiting
  · show ((q.heap.store a at' src).size q.m_sendBuf : Int) = _
    rw [Heap.size_store]
    exact l.send

theorem Owned.rehome {q : SendQueue} (h : Owned q) {r : Heap BYTE × Nat} {size : Int}
    (hr : Heap.Resized q.heap q.m_waitingBuf r.1 r.2 size.toNat) (hpos : q.m_waitingPos ≤ size)
    (hmin : MIN_SEND_BUF_SIZE ≤ size) (hmax : size ≤ MAX_SEND_BUF_SIZE) :
    Owned (q.rehome r size) := by
  obtain ⟨s1, s2, _⟩ := rehome_spec h.layout hr hpos hmax
  refine ⟨s1, .inr hmin, h.send_made.imp_left (And.imp_right fun hnone => ?_)⟩
  exact s2.block.trans hnone

theorem Owned.room {q : SendQueue} (h : Owned q) (c : Choice) {n : Int}
    (hn : n ≤ MAX_SEND_BUF_SIZE) : Owned (q.room c n) ∧ n ≤ (q.room c n).m_waitingBufLen := by
  unfold SendQueue.room
  split
  · rename_i hmore
    have hl := h.layout
    have hw := hl.waiting
    have hp := hl.pos_le
    obtain ⟨g1, g2, g3⟩ := resizeLen_spec (n := n) (by omega) hn
    obtain ⟨r, hr, hsized⟩ := grow_rehome hl c (by omega) hn
    rw [hr]
    exact ⟨h.rehome hsized (by omega) g3 g2, g1⟩
  · exact ⟨h, by omega⟩

theorem Owned.taken {q : SendQueue} (h : Owned q) (c : Choice) (data : ByteArray) {len : Int}
    (h0 : 0 < len) (hfit : q.m_waitingPos + len ≤ INT32_MAX)
    (hacc : ¬ toInt32 (len + q.m_waitingPos) > MAX_SEND_BUF_SIZE) :
    Owned (q.taken c data len) ∧
      ((q.room c (toInt32 (len + q.m_waitingPos))).waitingSpan q.m_waitingPos
        (toSize len)).Inside := by
  have hp := h.layout.pos_nonneg
  unfold INT32_MAX at hfit
  have hneed : toInt32 (len + q.m_waitingPos) = q.m_waitingPos + len := by
    rw [toInt32_eq (by omega) (by omega)]
    omega
  obtain ⟨g1, g2⟩ := h.room c (n := toInt32 (len + q.m_waitingPos)) (by omega)
  have hpos := (room_same q c (toInt32 (len + q.m_waitingPos))).pos
  rw [hneed] at g2
  refine ⟨?_, .inr ⟨hp, ?_⟩⟩
  · unfold SendQueue.taken
    dsimp only
    rw [hneed] at g1 hpos ⊢
    rw [hpos, toInt32_eq (by omega) (by omega)]
    exact (g1.store _ _ _).same (by omega) g2 _ _ _ _ _ _ _
  · have hsize := g1.layout.waiting
    have hlen : toSize len = len.toNat := toSize_eq (by omega) (by omega)
    show q.m_waitingPos + (toSize len : Nat) ≤ ((q.room c _).heap.size _ : Nat)
    rw [hsize, hneed, hlen]
    omega

/-- **The send buffer is made before its first use.** -/
theorem Owned.makeSendBuf {q : SendQueue} (h : Owned q) (junk : Nat → BYTE) :
    Owned (q.makeSendBuf junk) ∧ MIN_SEND_BUF_SIZE ≤ (q.makeSendBuf junk).m_sendBufLen ∧
      (q.makeSendBuf junk).m_waitingPos = q.m_waitingPos ∧
      (q.makeSendBuf junk).m_waitingBufLen = q.m_waitingBufLen := by
  obtain ⟨l, w, s⟩ := h
  unfold SendQueue.makeSendBuf
  split
  · rename_i hz
    have hnone : q.heap.blocks q.m_sendBuf = none := by
      rcases s with ⟨_, hn⟩ | hmin
      · exact hn
      · unfold MIN_SEND_BUF_SIZE at hmin
        omega
    have hsize := l.send
    have hfit : MIN_SEND_BUF_SIZE ≤ MAX_SEND_BUF_SIZE := by decide
    have hr := Heap.malloc_resized q.heap MIN_SEND_BUF_SIZE.toNat junk (a := q.m_sendBuf) (by omega)
    obtain ⟨hblock, hne⟩ := hr.frame q.m_waitingBuf l.waiting_lt (.inr hnone)
    refine ⟨⟨⟨?_, ?_, .inl hne, Nat.lt_of_lt_of_le l.waiting_lt hr.next_le, hr.lt, l.pos_nonneg,
      l.pos_le, l.waiting_le, hfit⟩, w.imp_left (And.imp_right hblock.trans),
      .inr (Int.le_refl _)⟩, Int.le_refl _, rfl, rfl⟩
    · exact (congrArg Nat.cast (Heap.size_congr hblock)).trans l.waiting
    · exact congrArg Nat.cast hr.size
  · rename_i hz
    exact ⟨⟨l, w, s⟩, s.resolve_left fun hn => hz hn.1, rfl, rfl⟩

/-! ## `doSendData` -/

theorem Owned.waiting_inside {q : SendQueue} (h : Owned q) :
    (q.waitingSpan 0 (toSize q.m_waitingPos)).Inside := by
  have hw := h.layout.waiting
  have hp := h.layout.pos_nonneg
  have hpl := h.layout.pos_le
  have hsize := h.layout.waiting_size
  refine .inr ⟨Int.le_refl _, ?_⟩
  show 0 + (toSize q.m_waitingPos : Int) ≤ (q.heap.size q.m_waitingBuf : Nat)
  omega

theorem Owned.send_inside {q : SendQueue} (h : Owned q) (start len : Nat)
    (hle : (start + len : Int) ≤ q.m_sendBufLen) : (q.sendSpan start len).Inside := by
  have hs := h.layout.send
  refine .inr ⟨Int.natCast_nonneg _, ?_⟩
  show (start : Int) + (len : Int) ≤ (q.heap.size q.m_sendBuf : Nat)
  omega

/-- the waiting buffer is not halved below what waits -/
theorem Owned.control {q : SendQueue} (h : Owned q) (c : Choice)
    (hc : Halves q c → q.m_waitingPos ≤ q.m_waitingBufLen / 2) : Owned (q.control c) := by
  have h' : Owned { q with m_sendAveSize := c.ave } :=
    h.same h.layout.pos_nonneg h.layout.pos_le _ _ _ _ _ _ _
  rcases control_rehome h.layout c with e | ⟨hh, r, e, hr⟩
  · rw [e]
    exact h'
  · have hbig := hh.2.1
    have hw := h.layout.waiting_le
    unfold MIN_SEND_BUF_SIZE at hbig
    rw [e]
    exact h'.rehome hr (hc hh) (by unfold MIN_SEND_BUF_SIZE; omega) (by omega)

theorem Owned.sendFrame {q : SendQueue} (h : Owned q) (junk : Nat → BYTE) (k : Nat) :
    Owned (q.sendFrame junk k) :=
  ((h.store _ _ _).store _ _ _).same (Int.le_refl _)
    (h.layout.pos_nonneg.trans h.layout.pos_le) _ _ _ _ _ _ _

/-- **The branch with a cipher, when the first answer is not `BUFFER_ERROR`**: the sizes are kept,
what waits is written or stays, and all that is touched is inside. -/
theorem Owned.cipherSend {q : SendQueue} (h : Owned q) (junk : Nat → BYTE) {e : EncryptCall}
    (hroom : ∀ p room, (e.answer p room).2.length ≤ room) (es : List EncryptCall)
    (hans : ((q.makeSendBuf junk).encrypt junk e).1 ≠ .BUFFER_ERROR) :
    ∃ q', SendQueue.cipherSend junk q (e :: es) = some q' ∧ Owned q' ∧
      q'.m_waitingBufLen = q.m_waitingBufLen ∧
      (q'.m_waitingPos = 0 ∨ q'.m_waitingPos = q.m_waitingPos ∧
        ((q.makeSendBuf junk).encrypt junk e).1 = .UNKNOWN_ERROR) ∧
      ∀ sp ∈ cipherSpans junk q (e :: es), sp.Inside := by
  obtain ⟨m1, m2, m3, m4⟩ := h.makeSendBuf junk
  have hmax := m1.layout.send_le
  unfold MIN_SEND_BUF_SIZE at m2
  unfold MAX_SEND_BUF_SIZE at hmax
  have htold : toSize ((q.makeSendBuf junk).m_sendBufLen - 8)
      = ((q.makeSendBuf junk).m_sendBufLen - 8).toNat := toSize_eq (by omega) (by omega)
  have hin1 := m1.waiting_inside
  have hin2 : ((q.makeSendBuf junk).sendSpan 8
      (toSize ((q.makeSendBuf junk).m_sendBufLen - 8))).Inside :=
    m1.send_inside 8 _ (by rw [htold]; omega)
  have hout := hroom ((q.makeSendBuf junk).heap.load junk (q.makeSendBuf junk).m_waitingBuf
    (toSize (q.makeSendBuf junk).m_waitingPos)) (toSize ((q.makeSendBuf junk).m_sendBufLen - 8))
  obtain ⟨⟨r, out, q1⟩, he⟩ : ∃ x, (q.makeSendBuf junk).encrypt junk e = x := ⟨_, rfl⟩
  have hlen : out.length ≤ toSize ((q.makeSendBuf junk).m_sendBufLen - 8) := by
    cases he
    exact hout
  have hq1 : Owned q1 ∧ q1.m_waitingPos = q.m_waitingPos ∧ q1.m_waitingBufLen = q.m_waitingBufLen ∧
      q1.m_sendBufLen = (q.makeSendBuf junk).m_sendBufLen := by
    cases he
    exact ⟨m1.store _ _ _, m3, m4, rfl⟩
  obtain ⟨o1, o2, o3, o4⟩ := hq1
  rw [he] at hans
  rw [SendQueue.cipherSend, cipherSpans, he]
  cases r with
  | OK =>
    refine ⟨_, rfl, o1.sendFrame junk out.length, o3, .inl rfl, ?_⟩
    have f1 := o1.send_inside 0 4 (by omega)
    have f2 := o1.send_inside 4 4 (by omega)
    have f3 := o1.send_inside 0 (8 + out.length) (by omega)
    simp only [List.forall_mem_cons]
    exact ⟨hin1, hin2, f1, f2, f3, List.forall_mem_nil _⟩
  | BUFFER_ERROR => exact absurd rfl hans
  | UNKNOWN_ERROR =>
    refine ⟨_, rfl, o1, o3, .inr ⟨o2, rfl⟩, ?_⟩
    simp only [List.forall_mem_cons]
    exact ⟨hin1, hin2, List.forall_mem_nil _⟩

/-- **`doSendData` keeps the sizes, and what it touches is inside.** -/
theorem Owned.doSendData {q : SendQueue} (h : Owned q) {c : Choice} (hc : c.WithinRoom)
    (hr : Roomy q c) :
    (∀ q', q.doSendData c = some q' → Owned q') ∧ ∀ sp ∈ q.sendSpans c, sp.Inside := by
  rw [SendQueue.doSendData, sendSpans]
  split
  · refine ⟨fun q' hq => ?_, List.forall_mem_nil _⟩
    cases hq
    exact h.same h.layout.pos_nonneg h.layout.pos_le _ _ _ _ _ _ _
  · rename_i hz
    split
    · rename_i hm
      cases hes : c.encrypts with
      | nil =>
        refine ⟨fun q' hq => ?_, List.forall_mem_nil _⟩
        cases hq
      | cons e es =>
        have hwell := hr hz hm e (by rw [hes]; rfl)
        have hans : ((q.makeSendBuf c.junk).encrypt c.junk e).1 ≠ .BUFFER_ERROR := by
          intro he
          rw [he] at hwell
          exact hwell
        obtain ⟨q1, h1, o1, hlen, hpos, hspans⟩ := h.cipherSend c.junk
          (hc e (by rw [hes]; exact List.mem_cons_self ..)) es hans
        refine ⟨fun q' hq => ?_, hspans⟩
        rw [h1] at hq
        cases hq
        apply o1.control
        intro hh
        rcases hpos with hp | ⟨hp, hu⟩
        · have hn := o1.layout.pos_nonneg
          have hl := o1.layout.pos_le
          omega
        · rw [hu] at hwell
          rw [hp, hlen]
          refine hwell ?_
          unfold Halves at hh ⊢
          rwa [hlen] at hh
    · have hl := h.layout
      have hsw : Owned (q.plainSend c.junk) := ⟨hl.plainSend c.junk, h.send_made, h.waiting_made⟩
      refine ⟨fun q' hq => ?_, ?_⟩
      · cases hq
        apply hsw.control
        intro _
        have hn := hsw.layout.pos_le
        show 0 ≤ (q.plainSend c.junk).m_waitingBufLen / 2
        have : 0 ≤ (q.plainSend c.junk).m_waitingBufLen := hn
        omega
      · intro sp hsp
        rw [List.mem_singleton.mp hsp]
        exact h.waiting_inside

/-- the recorded sizes are the real ones, `0` without a buffer, and the position is within them -/
structure SizesReal (q : SendQueue) : Prop where
  waiting : (q.heap.size q.m_waitingBuf : Int) = q.m_waitingBufLen
  waiting_none : q.m_waitingBufLen = 0 ↔ q.heap.blocks q.m_waitingBuf = none
  send : (q.heap.size q.m_sendBuf : Int) = q.m_sendBufLen
  send_none : q.m_sendBufLen = 0 ↔ q.heap.blocks q.m_sendBuf = none
  pos_nonneg : 0 ≤ q.m_waitingPos
  pos_le : q.m_waitingPos ≤ q.m_waitingBufLen

theorem Owned.real {q : SendQueue} (h : Owned q) : SizesReal q := by
  have hnone : ∀ {a : Nat} {len : Int}, (q.heap.size a : Int) = len →
      (len = 0 ∧ q.heap.blocks a = none ∨ MIN_SEND_BUF_SIZE ≤ len) →
      (len = 0 ↔ q.heap.blocks a = none) := by
    intro a len hsize hmade
    refine ⟨fun hz => ?_, fun hb => ?_⟩
    · rcases hmade with ⟨_, hb⟩ | hmin
      · exact hb
      · unfold MIN_SEND_BUF_SIZE at hmin
        omega
    · rw [Heap.size, hb] at hsize
      exact hsize.symm
  exact ⟨h.layout.waiting, hnone h.layout.waiting h.waiting_made, h.layout.send,
    hnone h.layout.send h.send_made, h.layout.pos_nonneg, h.layout.pos_le⟩

end SendQueue

namespace Sender
open SendQueue

/-! ## runs -/

/-- what a step copies, encrypts and writes -/
def spans (s : Sender) (e : SendEvent) : List Vec.Span :=
  (match e with
  | .sendDataAsync data len c =>
    if (s.m_bConnected ∧ data ≠ [] ∧ len > 0) ∧
        ¬ toInt32 (len + s.queue.m_waitingPos) > MAX_SEND_BUF_SIZE then
      [(s.queue.room c (toInt32 (len + s.queue.m_waitingPos))).waitingSpan s.queue.m_waitingPos
        (toSize len)]
    else []
  | _ => []) ++
  match s.entered e with
  | some (q, c) => q.sendSpans c
  | none => []

/-- the cipher writes no more than it is told to -/
def EventWithinRoom : SendEvent → Prop
  | .sendDataAsync _ _ c => c.WithinRoom
  | .writeEnds _ _ c => c.WithinRoom
  | _ => True

/-- the sum of `sendDataAsync` is an `r_int32`, and `encrypt` ends well if it is called -/
def SizesKept (s : Sender) (e : SendEvent) : Prop :=
  (match e with
  | .sendDataAsync data len _ => s.m_bConnected ∧ data ≠ [] ∧ len > 0 →
      s.queue.m_waitingPos + len ≤ INT32_MAX
  | _ => True) ∧ ∀ p ∈ s.entered e, Roomy p.1 p.2

instance (s : Sender) : ∀ e, Decidable (SizesKept s e)
  | .sendDataAsync data len c => inferInstanceAs (Decidable ((_ ∧ _ ∧ _ → _) ∧
      ∀ p ∈ s.entered (.sendDataAsync data len c), Roomy p.1 p.2))
  | .writeEnds i err c => inferInstanceAs (Decidable (True ∧
      ∀ p ∈ s.entered (.writeEnds i err c), Roomy p.1 p.2))
  | .setCipher _ => .isTrue ⟨trivial, fun _ h => absurd h (Option.not_mem_none _)⟩
  | .doClose => .isTrue ⟨trivial, fun _ h => absurd h (Option.not_mem_none _)⟩
  | .handleConnectionError => .isTrue ⟨trivial, fun _ h => absurd h (Option.not_mem_none _)⟩

theorem entered_owned {s : Sender} (h : Owned s.queue) {e : SendEvent} (hk : SizesKept s e)
    (hw : EventWithinRoom e) {q : SendQueue} {c : Choice} (he : s.entered e = some (q, c)) :
    Owned q ∧ c.WithinRoom := by
  cases entered_spec he with
  | sends hin hacc _ => exact ⟨(h.taken c _ hin.2.2 (hk.1 hin) hacc).1, hw⟩
  | completes _ =>
    exact ⟨h.same h.layout.pos_nonneg h.layout.pos_le _ _ _ _ _ _ _, hw⟩

theorem owned_handleConnectionError {s : Sender} (h : Owned s.queue) :
    Owned s.handleConnectionError.queue := by
  have hp := h.layout.pos_nonneg.trans h.layout.pos_le
  unfold handleConnectionError
  split
  · exact h.same (Int.le_refl _) hp _ _ _ _ _ _ _
  · exact h

/-- **A step keeps the recorded sizes.** -/
theorem step_owned {s s' : Sender} {e : SendEvent} (h : Owned s.queue) (hk : SizesKept s e)
    (hw : EventWithinRoom e) (hs : s.step e = some s') : Owned s'.queue := by
  have hp := h.layout.pos_nonneg.trans h.layout.pos_le
  cases step_effect hs with
  | @calls _ q q' c he hq =>
    obtain ⟨o1, o2⟩ := entered_owned h hk hw he
    exact (o1.doSendData o2 (hk.2 _ he)).1 q' hq
  | @waits data len c hin hacc hb => exact (h.taken c data hin.2.2 (hk.1 hin) hacc).1
  | rejected d _ => exact h.same (Int.le_refl _) hp _ _ _ _ _ _ _
  | ignored _ => exact h
  | fails =>
    apply owned_handleConnectionError
    exact h.same h.layout.pos_nonneg h.layout.pos_le _ _ _ _ _ _ _
  | setCipher on => exact h.same h.layout.pos_nonneg h.layout.pos_le _ _ _ _ _ _ _
  | doClose => exact h.same (Int.le_refl _) hp _ _ _ _ _ _ _
  | handleConnectionError => exact owned_handleConnectionError h

/-- **What a step touches is inside the blocks.** -/
theorem step_spans {s : Sender} {e : SendEvent} (h : Owned s.queue) (hk : SizesKept s e)
    (hw : EventWithinRoom e) : ∀ sp ∈ s.spans e, sp.Inside := by
  intro sp hsp
  rcases List.mem_append.mp hsp with hsp | hsp
  · cases e with
    | sendDataAsync data len c =>
      dsimp only at hsp
      split at hsp
      · rename_i hin
        rw [List.mem_singleton.mp hsp]
        exact (h.taken c data hin.1.2.2 (hk.1 hin.1) hin.2).2
      · cases hsp
    | writeEnds i err c => cases hsp
    | setCipher on => cases hsp
    | doClose => cases hsp
    | handleConnectionError => cases hsp
  · split at hsp
    · rename_i q c he
      obtain ⟨o1, o2⟩ := entered_owned h hk hw he
      exact (o1.doSendData o2 (hk.2 _ he)).2 sp hsp
    · cases hsp

/-- **The recorded sizes are real in every run in which `encrypt` ends well and no sum wraps
around**, and all that is copied, encrypted and written is inside. -/
theorem sizes_real (m_cipher : Bool) {es : List SendEvent} (hw : ∀ e ∈ es, EventWithinRoom e)
    (hk : Machine.Along step SizesKept (connected m_cipher) es) {s : Sender}
    (h : Machine.run step (connected m_cipher) es = some s) :
    SizesReal s.queue ∧
      Machine.Along step (fun s e => ∀ sp ∈ s.spans e, sp.Inside) (connected m_cipher) es := by
  have hkw := Machine.along_and hk (Machine.along_events (connected m_cipher) hw)
  have hstep : ∀ s e s', Owned s.queue → (SizesKept s e ∧ EventWithinRoom e) →
      step s e = some s' → Owned s'.queue :=
    fun s e s' ho hP hs => step_owned ho hP.1 hP.2 hs
  refine ⟨(Machine.run_inv (fun s => Owned s.queue) hstep (owned_init m_cipher) hkw h).real, ?_⟩
  exact Machine.along_inv (fun s => Owned s.queue) hstep
    (fun s e ho hP => step_spans ho hP.1 hP.2) (owned_init m_cipher) hkw

theorem asking_within (answers : List CIPHER_STATUS) : (asking answers).WithinRoom := by
  intro e he p room
  obtain ⟨r, _, rfl⟩ := List.mem_map.mp he
  show (p.take room).length ≤ room
  rw [List.length_take]
  exact Nat.min_le_left _ _

/-- the two modes alternate, and the cipher fails once -/
def modesRun : List SendEvent :=
  [.sendDataAsync [1] 1 (asking [.OK]), .sendDataAsync [2, 3] 2 (asking []), .setCipher false,
   .writeEnds 0 false (asking []), .setCipher true, .sendDataAsync [4] 1 (asking []),
   .writeEnds 0 false (asking [.UNKNOWN_ERROR])]

theorem sizes_real_modes : ∃ s, Machine.run step (connected true) modesRun = some s ∧
    SizesReal s.queue ∧
      Machine.Along step (fun s e => ∀ sp ∈ s.spans e, sp.Inside) (connected true) modesRun := by
  have hrun : (Machine.run step (connected true) modesRun).isSome = true := by
    decide +kernel
  obtain ⟨s, h⟩ := Option.isSome_iff_exists.mp hrun
  have hw : ∀ e ∈ modesRun, EventWithinRoom e := by
    simp only [modesRun, List.forall_mem_cons]
    exact ⟨asking_within _, asking_within _, trivial, asking_within _, trivial, asking_within _,
      asking_within _, List.forall_mem_nil _⟩
  exact ⟨s, h, sizes_real true hw (by decide +kernel) h⟩

/-- the cipher asks for more room once -/
def retryRun : List SendEvent := [.sendDataAsync [1] 1 (asking [.BUFFER_ERROR, .OK])]

/-- 98304 is recorded for a block of 65536 -/
theorem retry_size_unreal : (∀ e ∈ retryRun, EventWithinRoom e) ∧
    ∃ s, Machine.run step (connected true) retryRun = some s ∧ s.queue.m_sendBufLen = 98304 ∧
      s.queue.heap.size s.queue.m_sendBuf = 65536 ∧ ¬ SizesReal s.queue := by
  have hrun : (Machine.run step (connected true) retryRun).map
      (fun s => (s.queue.m_sendBufLen, s.queue.heap.size s.queue.m_sendBuf))
        = some (98304, 65536) := by
    decide +kernel
  obtain ⟨s, h, hs⟩ := Option.map_eq_some_iff.mp hrun
  obtain ⟨h1, h2⟩ := Prod.mk.inj hs
  refine ⟨?_, s, h, h1, h2, fun hr => ?_⟩
  · simp only [retryRun, List.forall_mem_cons]
    exact ⟨asking_within _, List.forall_mem_nil _⟩
  · have := hr.send
    omega

end Sender

end Netwb
