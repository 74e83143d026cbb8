import Netwb.Net.Channel
import Netwb.Net.SendBuffers

/-!
# The two ways to send

`sendDataSync` writes what it is given.  `sendDataAsync` lets it wait, and `doSendData` writes all
that waits: as it is, or as one frame when a cipher is set.  The peer reads a stream of bytes, or of
frames when it has the same cipher (`reads`).

* `plain_same`       without a cipher both streams are the messages;
* `reads_short`      with one, a stream is read as fewer bytes than it has, so what was sent
                     synchronously is never read as it was;
* `framed_reads`     whatever is read of the frames of `doSendData` has the length of the messages;
* `async_reads`      and what is read of them are the messages, as long as what waits fits into the
                     smallest send buffer;
* `same_stream_iff`  the two are read as the same bytes exactly when no cipher is set.
-/

namespace Netwb
open Wire Framing Memory

/-- the cipher of both ends of a connection; with too little room it says so -/
structure SharedCipher where
  cipher : BaseCipher
  matching : cipher.Matching
  answers : ∀ p room, cipher.encrypt p room = (.OK, matching.cipherOf p) ∨
    (cipher.encrypt p room).1 = .BUFFER_ERROR

/-! ## the peer -/

/-- the block of a frame: as many bytes as its second word says, of what is decrypted -/
def BaseCipher.openFrame (c : BaseCipher) (f : ByteArray) : Option ByteArray :=
  let realLen := lengthWord (f.drop 4)
  let r := c.decrypt (f.drop 8) (f.length * 2)
  if r.1 = .OK ∧ 8 + realLen ≤ f.length ∧ realLen ≤ r.2.length then some (r.2.take realLen)
  else none

def BaseCipher.openAll (c : BaseCipher) : List ByteArray → Option ByteArray
  | [] => some []
  | f :: fs => (c.openFrame f).bind fun b => (c.openAll fs).map fun bs => b ++ bs

/-- what a stream is for a peer: the bytes themselves, or the blocks of its frames.  One that is not
made of whole frames, or has a frame that cannot be opened, is nothing. -/
def reads (peer : Option SharedCipher) (stream : ByteArray) : Option ByteArray :=
  match peer with
  | none => some stream
  | some s =>
    let r := drain frames stream
    if r.failed = false ∧ r.rest = [] then s.cipher.openAll r.frames else none

/-- both streams are read, as the same bytes -/
def SameStream (peer : Option SharedCipher) (xs ys : ByteArray) : Prop :=
  ∃ plain, reads peer xs = some plain ∧ reads peer ys = some plain

/-- a write whose first word is its length, and whose second word is the length of its block -/
structure Framed (f : ByteArray) (n : Nat) : Prop where
  eight : 8 ≤ f.length
  whole : lengthWord f = f.length
  block : lengthWord (f.drop 4) = n

theorem lengthWord_be32 (w : BitVec 32) (t : ByteArray) : lengthWord (be32 w ++ t) = w.toNat := by
  show (join32 _ _ _ _).toNat = _
  rw [join32_byteAt]

theorem framed_words {n k : Nat} (tail : ByteArray) (hlen : tail.length = k) (hk : 8 + k < 2 ^ 32)
    (hn : n < 2 ^ 32) :
    Framed (be32 (BitVec.ofNat 32 (8 + k)) ++ be32 (BitVec.ofNat 32 n) ++ tail) n := by
  have hdrop : (be32 (BitVec.ofNat 32 (8 + k)) ++ be32 (BitVec.ofNat 32 n) ++ tail).drop 4
      = be32 (BitVec.ofNat 32 n) ++ tail := by
    rw [List.append_assoc]
    exact List.drop_left' (be32_length _)
  have hall : (be32 (BitVec.ofNat 32 (8 + k)) ++ be32 (BitVec.ofNat 32 n) ++ tail).length
      = 8 + k := by
    simp only [List.length_append, be32_length, hlen]
  refine ⟨by omega, ?_, ?_⟩
  · rw [hall, List.append_assoc, lengthWord_be32, BitVec.toNat_ofNat, Nat.mod_eq_of_lt hk]
  · rw [hdrop, lengthWord_be32, BitVec.toNat_ofNat, Nat.mod_eq_of_lt hn]

theorem Framed.look {f : ByteArray} {n : Nat} (h : Framed f n) : frames.look f = .msg f.length := by
  have h8 := h.eight
  have hw := h.whole
  show frameLook f = _
  rw [frameLook, hw, if_neg (by omega), if_neg (by omega), if_pos (Nat.le_refl _)]

section
variable (c : BaseCipher)

theorem openFrame_length {f b : ByteArray} (h : c.openFrame f = some b) :
    b.length = lengthWord (f.drop 4) ∧ 8 + b.length ≤ f.length := by
  rw [BaseCipher.openFrame] at h
  split at h
  · rename_i hc
    injection h with h
    have hlen := congrArg List.length h
    rw [List.length_take, Nat.min_eq_left hc.2.2] at hlen
    exact ⟨hlen.symm, by omega⟩
  · cases h

theorem openAll_cons {f b : ByteArray} {fs : List ByteArray} (h : c.openAll (f :: fs) = some b) :
    ∃ b1 b2, c.openFrame f = some b1 ∧ c.openAll fs = some b2 ∧ b = b1 ++ b2 := by
  rw [BaseCipher.openAll] at h
  obtain ⟨b1, h1, h2⟩ := Option.bind_eq_some_iff.mp h
  obtain ⟨b2, h3, h4⟩ := Option.map_eq_some_iff.mp h2
  exact ⟨b1, b2, h1, h3, h4.symm⟩

/-- every frame has eight bytes that are not of its block -/
theorem openAll_short {fs : List ByteArray} {b : ByteArray} (h : c.openAll fs = some b) :
    b.length + 8 * fs.length ≤ fs.flatten.length := by
  induction fs generalizing b with
  | nil =>
    cases h
    exact Nat.le_refl 0
  | cons f fs ih =>
    obtain ⟨b1, b2, h1, h2, rfl⟩ := openAll_cons c h
    obtain ⟨_, hlen⟩ := openFrame_length c h1
    have hrest := ih h2
    rw [List.flatten_cons, List.length_append, List.length_append, List.length_cons]
    omega

/-- what is read of frames has the lengths that their words say -/
theorem openAll_framed {fs : List ByteArray} {ns : List Nat} (hf : List.Forall₂ Framed fs ns)
    {b : ByteArray} (h : c.openAll fs = some b) : b.length = ns.sum := by
  induction hf generalizing b with
  | nil =>
    cases h
    rfl
  | cons h1 _ ih =>
    obtain ⟨b1, b2, e1, e2, rfl⟩ := openAll_cons c h
    rw [List.length_append, List.sum_cons, ih e2, (openFrame_length c e1).1, h1.block]

end

/-- **With a cipher a stream is read as fewer bytes than it has.** -/
theorem reads_short (s : SharedCipher) {stream b : ByteArray} (hne : stream ≠ [])
    (h : reads (some s) stream = some b) : b.length < stream.length := by
  rw [reads] at h
  split at h
  · rename_i hd
    have hflat := drain_flatten frames stream hd.1
    rw [hd.2, List.append_nil] at hflat
    have hlen := openAll_short s.cipher h
    rw [hflat] at hlen
    have hframes : (drain frames stream).frames ≠ [] := by
      intro he
      rw [he] at hflat
      exact hne hflat.symm
    have hpos := List.length_pos_iff.mpr hframes
    omega
  · cases h

theorem forall_framed {fs : List ByteArray} {ns : List Nat} (hf : List.Forall₂ Framed fs ns) :
    ∀ f ∈ fs, frames.look f = .msg f.length := by
  induction hf with
  | nil => exact List.forall_mem_nil _
  | cons h1 _ ih => exact List.forall_mem_cons.mpr ⟨h1.look, ih⟩

/-- **What is read of frames has the length of their blocks.** -/
theorem framed_reads (s : SharedCipher) {fs : List ByteArray} {ns : List Nat}
    (hf : List.Forall₂ Framed fs ns) {b : ByteArray}
    (h : reads (some s) fs.flatten = some b) : b.length = ns.sum := by
  rw [reads, drain_flatten_frames frames fs (forall_framed hf)] at h
  dsimp only at h
  rw [if_pos ⟨rfl, rfl⟩] at h
  exact openAll_framed s.cipher hf h

namespace SendQueue

/-! ## sending synchronously -/

/-- `sendDataSync` on a connected connection: `m_socket->write(&data[0], len)`, whether a cipher is
set or not -/
def sendDataSync (q : SendQueue) (c : Choice) (data : ByteArray) (len : Int) : SendQueue :=
  { q with written := q.written ++ [source c data len] }

/-- messages sent synchronously, one after the other -/
def sendAllSync (q : SendQueue) (c : Choice) (msgs : List (ByteArray × Int)) : SendQueue :=
  msgs.foldl (fun q m => q.sendDataSync c m.1 m.2) q

/-- the messages that a run of asynchronous sends is given -/
def Event.message : Event → Option (ByteArray × Int)
  | .sendDataAsync data len _ => some (data, len)
  | .handleSendData _ _ => none

/-- the environment of an event -/
def Event.choice : Event → Choice
  | .sendDataAsync _ _ c => c
  | .handleSendData _ c => c

/-- the cipher that is asked is the one of the peer -/
def Event.AnsweredBy (peer : Option SharedCipher) (ev : Event) : Prop :=
  ∀ s ∈ peer, ∀ e ∈ ev.choice.encrypts, e.answer = s.cipher.encrypt

theorem sendAllSync_written (c : Choice) {es : List Event} (hwf : ∀ e ∈ es, e.WellFormed)
    (q : SendQueue) : (q.sendAllSync c (es.filterMap Event.message)).written.flatten
      = q.written.flatten ++ es.flatMap Event.data := by
  induction es generalizing q with
  | nil => exact (List.append_nil _).symm
  | cons e es ih =>
    have hwf' := fun x hx => hwf x (List.mem_cons_of_mem _ hx)
    cases e with
    | sendDataAsync data len c' =>
      obtain ⟨h0, hlen, h32⟩ := hwf _ (List.mem_cons_self ..)
      have hstep := ih hwf' (q.sendDataSync c data len)
      show (sendAllSync (q.sendDataSync c data len) c (es.filterMap Event.message)).written.flatten
        = _
      rw [hstep, List.flatMap_cons, ← List.append_assoc]
      show (q.written ++ [source c data len]).flatten ++ _ = _
      rw [List.flatten_append, List.flatten_singleton, (source_eq c h0 hlen h32).1]
      rfl
    | handleSendData i c' =>
      rw [List.flatMap_cons]
      exact ih hwf' q

/-- **Without a cipher both streams are the messages.** -/
theorem plain_same (c : Choice) {es : List Event} {q : SendQueue}
    (hwf : ∀ e ∈ es, e.WellFormed) (hacc : Machine.Along step Unrejected (init false) es)
    (hsum : Machine.Along step SumFits (init false) es)
    (h : Machine.run step (init false) es = some q) (hdone : q.m_waitingPos = 0) :
    ((init false).sendAllSync c (es.filterMap Event.message)).written.flatten
      = q.written.flatten := by
  obtain ⟨hf, _, ha⟩ := run_fifo fifo_init (flight_init false) hwf hacc hsum h
  have hall := hf.fifo fun _ => 0
  rw [waitingBytes_empty hdone, List.append_nil] at hall
  rw [sendAllSync_written c hwf, hall, ha]
  rfl

/-! ## the frames of the asynchronous sends -/

/-- the queue with the real size of its send buffer, which is not the recorded one after
`BUFFER_ERROR` -/
def sized (q : SendQueue) : SendQueue := { q with m_sendBufLen := q.heap.size q.m_sendBuf }

/-- every write is a frame, and the lengths in the frames with what waits are what was accepted -/
structure Enveloped (q : SendQueue) : Prop where
  owned : Owned q.sized
  recorded : q.m_sendBufLen = 0 ↔ q.heap.size q.m_sendBuf = 0
  cipher : q.m_cipher = true
  sent : ∃ ns : List Nat, List.Forall₂ Framed q.written ns ∧
    (ns.sum : Int) + q.m_waitingPos = q.accepted.length

theorem sized_of {q : SendQueue} {k : Int} (h : Owned { q with m_sendBufLen := k }) :
    Owned q.sized ∧ (q.heap.size q.m_sendBuf : Int) = k := by
  have hk : (q.heap.size q.m_sendBuf : Int) = k := h.layout.send
  subst hk
  exact ⟨h, rfl⟩

theorem enveloped_init : Enveloped (init true) :=
  ⟨owned_init true, ⟨fun _ => rfl, fun _ => rfl⟩, rfl, [], .nil, rfl⟩

/-- the waiting buffer does not depend on the recorded size of the other one -/
theorem room_recorded (q : SendQueue) (k : Int) (c : Choice) (n : Int) :
    ({ q with m_sendBufLen := k } : SendQueue).room c n
      = { q.room c n with m_sendBufLen := k } := by
  unfold room
  dsimp only
  split
  · rfl
  · rfl

theorem taken_recorded (q : SendQueue) (k : Int) (c : Choice) (data : ByteArray) (len : Int) :
    ({ q with m_sendBufLen := k } : SendQueue).taken c data len
      = { q.taken c data len with m_sendBufLen := k } := by
  rw [taken, room_recorded]
  rfl

theorem control_recorded (q : SendQueue) (k : Int) (c : Choice) :
    ({ q with m_sendBufLen := k } : SendQueue).control c
      = { q.control c with m_sendBufLen := k } := by
  unfold control
  dsimp only
  split
  · rfl
  · rfl

theorem taken_sendBufLen (q : SendQueue) (c : Choice) (data : ByteArray) (len : Int) :
    (q.taken c data len).m_sendBufLen = q.m_sendBufLen := by
  unfold taken room
  dsimp only
  split
  · rfl
  · rfl

theorem control_sendBufLen (q : SendQueue) (c : Choice) :
    (q.control c).m_sendBufLen = q.m_sendBufLen := by
  unfold control
  dsimp only
  split
  · rfl
  · rfl

theorem Enveloped.pos_fits {q : SendQueue} (h : Enveloped q) :
    0 ≤ q.m_waitingPos ∧ q.m_waitingPos ≤ MAX_SEND_BUF_SIZE :=
  ⟨h.owned.layout.pos_nonneg, h.owned.layout.pos_le.trans h.owned.layout.waiting_le⟩

theorem Enveloped.taken {q : SendQueue} (h : Enveloped q) (c : Choice) (data : ByteArray)
    {len : Int} (h0 : 0 < len) (hfit : q.m_waitingPos + len ≤ INT32_MAX)
    (hacc : ¬ toInt32 (len + q.m_waitingPos) > MAX_SEND_BUF_SIZE) :
    Enveloped (q.taken c data len) := by
  have hp := h.pos_fits.1
  have ho := (h.owned.taken c data h0 hfit hacc).1
  rw [sized, taken_recorded] at ho
  obtain ⟨o1, o2⟩ := sized_of ho
  obtain ⟨ns, hns, hsum⟩ := h.sent
  have hsame := room_same q c (toInt32 (len + q.m_waitingPos))
  refine ⟨o1, ?_, hsame.cipher.trans h.cipher, ns, ?_, ?_⟩
  · rw [taken_sendBufLen, h.recorded]
    omega
  · show List.Forall₂ Framed (q.room c _).written ns
    rw [hsame.written]
    exact hns
  · show (ns.sum : Int) + toInt32 ((q.room c _).m_waitingPos + len)
      = ((q.room c _).accepted ++ source c data len).length
    unfold INT32_MAX at hfit
    have hlen : ((source c data len).length : Int) = len := by
      rw [source, Vec.peeks_length, toSize_eq (by omega) (by omega)]
      omega
    rw [hsame.pos, hsame.accepted, toInt32_eq (by omega) (by omega), List.length_append]
    omega

theorem Enveloped.store {q : SendQueue} (h : Enveloped q) (a : Nat) (at' : Int)
    (src : ByteArray) : Enveloped { q with heap := q.heap.store a at' src } := by
  obtain ⟨o1, o2⟩ := sized_of (q := { q with heap := q.heap.store a at' src })
    (h.owned.store a at' src)
  refine ⟨o1, ?_, h.cipher, h.sent⟩
  show q.m_sendBufLen = 0 ↔ (q.heap.store a at' src).size q.m_sendBuf = 0
  rw [Heap.size_store]
  exact h.recorded

theorem Enveloped.makeSendBuf {q : SendQueue} (h : Enveloped q) (junk : Nat → BYTE) :
    Enveloped (q.makeSendBuf junk) ∧
      MIN_SEND_BUF_SIZE ≤ (q.makeSendBuf junk).heap.size (q.makeSendBuf junk).m_sendBuf := by
  obtain ⟨m1, m2, -, -⟩ := h.owned.makeSendBuf junk
  have hsame := makeSendBuf_same q junk
  by_cases hz : q.m_sendBufLen = 0
  · have hs : q.sized.m_sendBufLen = 0 := congrArg Nat.cast (h.recorded.mp hz)
    have he : q.sized.makeSendBuf junk = q.makeSendBuf junk := by
      rw [SendQueue.makeSendBuf, SendQueue.makeSendBuf, if_pos hs, if_pos hz]
      rfl
    rw [he] at m1 m2
    obtain ⟨o1, o2⟩ := sized_of (q := q.makeSendBuf junk)
      (k := (q.makeSendBuf junk).m_sendBufLen) m1
    obtain ⟨ns, hns, hsum⟩ := h.sent
    unfold MIN_SEND_BUF_SIZE at m2 ⊢
    refine ⟨⟨o1, by omega, hsame.cipher.trans h.cipher, ns, ?_, ?_⟩, by omega⟩
    · rw [hsame.written]
      exact hns
    · rw [hsame.pos, hsame.accepted]
      exact hsum
  · have he : q.makeSendBuf junk = q := if_neg hz
    have hsize : (q.heap.size q.m_sendBuf : Int) ≠ 0 := by
      have := h.recorded
      omega
    rw [he]
    exact ⟨h, h.owned.send_made.resolve_left fun hn => hsize hn.1⟩

theorem Enveloped.growSendBuf {q : SendQueue} (h : Enveloped q) (hpos : q.m_waitingPos ≠ 0)
    (junk : Nat → BYTE) (moves : Bool) : Enveloped (q.growSendBuf junk moves) := by
  obtain ⟨l, w, s⟩ := h.owned
  have hp := h.pos_fits.1
  have hle : q.m_waitingPos ≤ q.m_waitingBufLen := l.pos_le
  have hmax : q.m_waitingBufLen ≤ MAX_SEND_BUF_SIZE := l.waiting_le
  have hmin : MIN_SEND_BUF_SIZE ≤ q.m_waitingBufLen := w.resolve_left fun hn => by
    have : q.m_waitingBufLen = 0 := hn.1
    omega
  have hwaiting : (q.heap.size q.m_waitingBuf : Int) = q.m_waitingBufLen := l.waiting
  have hmin' := hmin
  unfold MIN_SEND_BUF_SIZE at hmin
  have hmax' := hmax
  unfold MAX_SEND_BUF_SIZE at hmax
  have hsize : toSize q.m_waitingBufLen = q.m_waitingBufLen.toNat := toSize_eq (by omega) (by omega)
  have hr := Heap.realloc_resized q.heap q.m_sendBuf (toSize q.m_waitingBufLen) moves junk l.send_lt
  have hthere : q.heap.blocks q.m_waitingBuf ≠ none := by
    intro hn
    rw [Heap.size, hn] at hwaiting
    dsimp only at hwaiting
    omega
  have hapart : q.m_waitingBuf ≠ q.m_sendBuf := l.apart.resolve_right hthere
  obtain ⟨hblock, hne⟩ := hr.frame q.m_waitingBuf l.waiting_lt (.inl hapart)
  have hnew := hr.size
  have ho : Owned ({ q.growSendBuf junk moves with m_sendBufLen := q.m_waitingBufLen }) := by
    refine ⟨⟨?_, ?_, .inl hne, Nat.lt_of_lt_of_le l.waiting_lt hr.next_le, hr.lt, hp, hle, hmax',
      hmax'⟩, .inr hmin', .inr hmin'⟩
    · exact (congrArg Nat.cast (Heap.size_congr hblock)).trans hwaiting
    · refine (congrArg Nat.cast hnew).trans ?_
      show ((toSize q.m_waitingBufLen : Nat) : Int) = q.m_waitingBufLen
      omega
  obtain ⟨o1, o2⟩ := sized_of ho
  refine ⟨o1, ?_, h.cipher, h.sent⟩
  have hrec : (q.growSendBuf junk moves).m_sendBufLen = q.m_waitingBufLen * 3 / 2 := by
    show toInt32 (q.m_waitingBufLen * 3 / 2) = _
    exact toInt32_eq (by omega) (by omega)
  rw [hrec]
  omega

/-- the two words of a frame are inside the block, whatever comes behind them -/
theorem load_words (h : Heap BYTE) (junk : Nat → BYTE) (a : Nat) (w1 w2 : BitVec 32) (k : Nat)
    (hin : 8 ≤ h.size a) : ∃ tail : ByteArray, tail.length = k ∧
      (((h.store a 0 (be32 w1)).store a 4 (be32 w2)).load junk a (8 + k))
        = be32 w1 ++ be32 w2 ++ tail := by
  have l1 : (h.store a 0 (be32 w1)).load junk a 4 = be32 w1 :=
    h.load_store junk a 0 (be32 w1) (by rw [be32_length]; omega)
  have l2 : ((h.store a 0 (be32 w1)).store a 4 (be32 w2)).load junk a 8
      = (h.store a 0 (be32 w1)).load junk a 4 ++ be32 w2 :=
    (h.store a 0 (be32 w1)).load_store junk a 4 (be32 w2)
      (by rw [be32_length, Heap.size_store]; omega)
  rw [l1] at l2
  refine ⟨_, ?_, (Heap.load_add _ junk a 8 k).trans (congrArg (· ++ _) l2)⟩
  rw [List.length_map, List.length_range]

theorem Enveloped.sendFrame {q : SendQueue} (h : Enveloped q)
    (hroom : 8 ≤ q.heap.size q.m_sendBuf) (junk : Nat → BYTE) {k : Nat}
    (hk : (k : Int) = q.m_waitingPos) : Enveloped (q.sendFrame junk k) := by
  obtain ⟨hp, hmax⟩ := h.pos_fits
  unfold MAX_SEND_BUF_SIZE at hmax
  have hsize : toSize q.m_waitingPos = k := by
    rw [toSize_eq hp (by omega)]
    omega
  obtain ⟨ns, hns, hsum⟩ := h.sent
  have hst := (h.store q.m_sendBuf 0 (be32 (BitVec.ofNat 32 (8 + k)))).store q.m_sendBuf 4
    (be32 (BitVec.ofNat 32 (toSize q.m_waitingPos)))
  have ho : Owned (q.sendFrame junk k).sized :=
    hst.owned.same (Int.le_refl _) (hp.trans h.owned.layout.pos_le) _ _ _ _ _ _ _
  refine ⟨ho, hst.recorded, h.cipher, ns ++ [k], ?_, ?_⟩
  · obtain ⟨tail, htail, hload⟩ := load_words q.heap junk q.m_sendBuf
      (BitVec.ofNat 32 (8 + k)) (BitVec.ofNat 32 (toSize q.m_waitingPos)) k hroom
    show List.Forall₂ Framed (q.written ++ [_]) (ns ++ [k])
    refine List.rel_append hns (.cons ?_ .nil)
    show Framed ((((q.heap.store q.m_sendBuf 0 (be32 (BitVec.ofNat 32 (8 + k)))).store q.m_sendBuf 4
      (be32 (BitVec.ofNat 32 (toSize q.m_waitingPos)))).load junk q.m_sendBuf (8 + k))) k
    rw [hload, hsize]
    exact framed_words tail htail (by omega) (by omega)
  · show ((ns ++ [k]).sum : Int) + 0 = q.accepted.length
    rw [List.sum_append, List.sum_singleton, ← hsum]
    omega

/-- the cipher answers with as many bytes as wait, or asks for more room -/
theorem encrypt_answers (s : SharedCipher) {q q' : SendQueue} {junk : Nat → BYTE} {e : EncryptCall}
    (he : e.answer = s.cipher.encrypt) {r : CIPHER_STATUS} {out : ByteArray}
    (h : q.encrypt junk e = (r, out, q')) :
    r = .OK ∧ out.length = toSize q.m_waitingPos ∨ r = .BUFFER_ERROR := by
  rw [SendQueue.encrypt, he] at h
  obtain ⟨hr, h⟩ := Prod.ext_iff.mp h
  obtain ⟨hout, -⟩ := Prod.ext_iff.mp h
  dsimp only at hr hout
  rcases s.answers (q.heap.load junk q.m_waitingBuf (toSize q.m_waitingPos))
    (toSize (q.m_sendBufLen - 8)) with hok | hfull
  · rw [hok] at hr hout
    refine .inl ⟨hr.symm, ?_⟩
    rw [← hout, s.matching.cipher_length, Heap.load_length]
  · exact .inr (hr.symm.trans hfull)

/-- **The loop of the cipher branch writes one frame, of all that waits.** -/
theorem Enveloped.cipherSend (s : SharedCipher) {junk : Nat → BYTE} {es : List EncryptCall}
    (hes : ∀ e ∈ es, e.answer = s.cipher.encrypt) {q q' : SendQueue} (h : Enveloped q)
    (hpos : q.m_waitingPos ≠ 0) (hq : SendQueue.cipherSend junk q es = some q') :
    Enveloped q' ∧ q'.m_waitingPos = 0 ∧ q'.m_waitingBufLen = q.m_waitingBufLen := by
  induction es generalizing q with
  | nil => cases hq
  | cons e es ih =>
    obtain ⟨m1, m2⟩ := h.makeSendBuf junk
    have hsame := makeSendBuf_same q junk
    have hlen : (q.makeSendBuf junk).m_waitingBufLen = q.m_waitingBufLen := by
      unfold SendQueue.makeSendBuf
      split
      · rfl
      · rfl
    obtain ⟨⟨r, out, q1⟩, he⟩ : ∃ x, (q.makeSendBuf junk).encrypt junk e = x := ⟨_, rfl⟩
    have hanswer := encrypt_answers s (hes e (List.mem_cons_self ..)) he
    have hq1 : Enveloped q1 ∧ q1.m_waitingPos = q.m_waitingPos ∧
        q1.m_waitingBufLen = q.m_waitingBufLen ∧ 8 ≤ q1.heap.size q1.m_sendBuf := by
      cases he
      refine ⟨m1.store _ _ _, hsame.pos, hlen, ?_⟩
      show 8 ≤ (Heap.store _ _ _ _).size (q.makeSendBuf junk).m_sendBuf
      rw [Heap.size_store]
      unfold MIN_SEND_BUF_SIZE at m2
      omega
    obtain ⟨o1, o2, o3, o4⟩ := hq1
    rw [SendQueue.cipherSend, he] at hq
    cases r with
    | OK =>
      have hp := h.pos_fits
      unfold MAX_SEND_BUF_SIZE at hp
      have hout : (out.length : Int) = q1.m_waitingPos := by
        rcases hanswer with ⟨-, hlen⟩ | hfull
        · rw [hlen, hsame.pos, o2, toSize_eq hp.1 (by omega)]
          omega
        · cases hfull
      cases hq
      exact ⟨o1.sendFrame o4 junk hout, rfl, o3⟩
    | BUFFER_ERROR =>
      obtain ⟨i1, i2, i3⟩ := ih (fun x hx => hes x (List.mem_cons_of_mem _ hx))
        (o1.growSendBuf (o2 ▸ hpos) junk e.moves) (o2 ▸ hpos) hq
      exact ⟨i1, i2, i3.trans o3⟩
    | UNKNOWN_ERROR =>
      rcases hanswer with ⟨hok, -⟩ | hfull
      · cases hok
      · cases hfull

theorem Enveloped.control {q : SendQueue} (h : Enveloped q) (hz : q.m_waitingPos = 0)
    (c : Choice) : Enveloped (q.control c) := by
  have hle : (0 : Int) ≤ q.m_waitingBufLen := h.owned.layout.pos_nonneg.trans h.owned.layout.pos_le
  have hsame := control_same q c
  have ho : Owned (q.sized.control c) := h.owned.control c fun _ => by
    show q.m_waitingPos ≤ q.m_waitingBufLen / 2
    omega
  rw [sized, control_recorded] at ho
  obtain ⟨o1, o2⟩ := sized_of ho
  obtain ⟨ns, hns, hsum⟩ := h.sent
  refine ⟨o1, ?_, hsame.cipher.trans h.cipher, ns, ?_, ?_⟩
  · rw [control_sendBufLen, h.recorded]
    omega
  · rw [hsame.written]
    exact hns
  · rw [hsame.pos, hsame.accepted]
    exact hsum

/-- it is about the buffers, the writes so far and the position -/
theorem Enveloped.same {q : SendQueue} (h : Enveloped q) (sending : Bool) (ws : List Write) :
    Enveloped { q with m_bSending := sending, writes := ws } :=
  ⟨h.owned.same h.owned.layout.pos_nonneg h.owned.layout.pos_le _ _ _ _ _ _ _, h.recorded, h.cipher,
    h.sent⟩

theorem Enveloped.doSendData (s : SharedCipher) {q q' : SendQueue} {c : Choice}
    (hc : ∀ e ∈ c.encrypts, e.answer = s.cipher.encrypt) (h : Enveloped q)
    (hq : q.doSendData c = some q') : Enveloped q' := by
  rw [SendQueue.doSendData] at hq
  split at hq
  · cases hq
    exact h.same false q.writes
  · rename_i hz
    rw [if_pos h.cipher] at hq
    obtain ⟨q1, h1, rfl⟩ := Option.map_eq_some_iff.mp hq
    obtain ⟨e1, e2, -⟩ := h.cipherSend s hc hz h1
    exact e1.control e2 c

theorem cipherSend_accepted {junk : Nat → BYTE} {es : List EncryptCall} {q q' : SendQueue}
    (h : SendQueue.cipherSend junk q es = some q') :
    q'.accepted = q.accepted ∧ q'.m_cipher = q.m_cipher := by
  induction es generalizing q with
  | nil => cases h
  | cons e es ih =>
    obtain ⟨⟨r, out, q1⟩, he⟩ : ∃ x, (q.makeSendBuf junk).encrypt junk e = x := ⟨_, rfl⟩
    have hsame := (makeSendBuf_same q junk).trans (encrypt_same he)
    have hq1 : q1.accepted = q.accepted ∧ q1.m_cipher = q.m_cipher := ⟨hsame.accepted, hsame.cipher⟩
    rw [SendQueue.cipherSend, he] at h
    cases r with
    | OK =>
      cases h
      exact hq1
    | BUFFER_ERROR =>
      obtain ⟨i1, i2⟩ := ih h
      exact ⟨i1.trans hq1.1, i2.trans hq1.2⟩
    | UNKNOWN_ERROR =>
      cases h
      exact hq1

theorem doSendData_accepted {q q' : SendQueue} {c : Choice} (h : q.doSendData c = some q') :
    q'.accepted = q.accepted := by
  rw [SendQueue.doSendData] at h
  split at h
  · cases h
    rfl
  · split at h
    · obtain ⟨q1, h1, rfl⟩ := Option.map_eq_some_iff.mp h
      rw [(control_same q1 c).accepted]
      exact (cipherSend_accepted h1).1
    · cases h
      rw [(control_same _ c).accepted]
      rfl

theorem step_accepted {q q' : SendQueue} {e : Event} (hw : e.WellFormed) (ha : Unrejected q e)
    (h : q.step e = some q') : q'.accepted = q.accepted ++ e.data := by
  cases e with
  | sendDataAsync data len c =>
    obtain ⟨r, hr, rfl⟩ := Option.map_eq_some_iff.mp h
    rw [append_taken q c data len ha] at hr
    obtain ⟨q1, h1, rfl⟩ := Option.map_eq_some_iff.mp hr
    obtain ⟨h0, hlen, h32⟩ := hw
    have hacc : (q.taken c data len).accepted = q.accepted ++ data.take len.toNat := by
      rw [← (source_eq c h0 hlen h32).1]
      exact congrArg (· ++ _) (room_same q c _).accepted
    split at h1
    · cases h1
      exact hacc
    · exact (doSendData_accepted h1).trans hacc
  | handleSendData i c =>
    rw [step, handleSendData] at h
    split at h
    · exact (doSendData_accepted h).trans (List.append_nil _).symm
    · cases h

/-- **A run without a rejected send accepts the data of its messages.** -/
theorem run_accepted {es : List Event} {q q' : SendQueue} (hw : ∀ e ∈ es, e.WellFormed)
    (ha : Machine.Along step Unrejected q es) (h : Machine.run step q es = some q') :
    q'.accepted = q.accepted ++ es.flatMap Event.data := by
  induction es generalizing q with
  | nil =>
    cases h
    exact (List.append_nil _).symm
  | cons e es ih =>
    obtain ⟨q1, h1, h2⟩ := Machine.run_cons h
    rw [ih (fun x hx => hw x (List.mem_cons_of_mem _ hx)) (Machine.along_tail ha h1) h2,
      step_accepted (hw e (List.mem_cons_self ..)) ha.1 h1, List.flatMap_cons, List.append_assoc]

/-- **An event keeps the writes frames, whose lengths are those of what was accepted.** -/
theorem step_enveloped (s : SharedCipher) {q q' : SendQueue} {e : Event} (h : Enveloped q)
    (hw : e.WellFormed) (hans : e.AnsweredBy (some s)) (ha : Unrejected q e) (hs : SumFits q e)
    (hq : q.step e = some q') : Enveloped q' := by
  have hc := hans s rfl
  cases e with
  | sendDataAsync data len c =>
    obtain ⟨r, hr, rfl⟩ := Option.map_eq_some_iff.mp hq
    rw [append_taken q c data len ha] at hr
    obtain ⟨q1, h1, rfl⟩ := Option.map_eq_some_iff.mp hr
    have ht := h.taken c data hw.1 hs ha
    split at h1
    · cases h1
      exact ht
    · exact ht.doSendData s hc h1
  | handleSendData i c =>
    rw [step, handleSendData] at hq
    split at hq
    · exact (h.same q.m_bSending (q.writes.eraseIdx i)).doSendData s hc hq
    · cases hq

theorem run_enveloped (s : SharedCipher) {es : List Event} {q : SendQueue}
    (hw : ∀ e ∈ es, e.WellFormed) (hans : ∀ e ∈ es, e.AnsweredBy (some s))
    (ha : Machine.Along step Unrejected (init true) es)
    (hs : Machine.Along step SumFits (init true) es)
    (hq : Machine.run step (init true) es = some q) : Enveloped q := by
  have hall := Machine.along_and (Machine.along_and ha hs)
    (Machine.along_and (Machine.along_events (init true) hw)
      (Machine.along_events (init true) hans))
  exact Machine.run_inv Enveloped
    (fun _ _ _ hI hP h => step_enveloped s hI hP.2.1 hP.2.2 hP.1.1 hP.1.2 h) enveloped_init hall hq

/-! ## asynchronous sends that fit -/

/-- what waits after the event leaves 24 bytes of the smallest send buffer -/
def Fits (q : SendQueue) : Event → Prop
  | .sendDataAsync _ len _ => q.m_waitingPos + len + 24 ≤ MIN_SEND_BUF_SIZE
  | .handleSendData _ _ => True

instance : ∀ q e, Decidable (Fits q e)
  | _, .sendDataAsync _ _ _ => inferInstanceAs (Decidable (_ ≤ _))
  | _, .handleSendData _ _ => .isTrue trivial

/-- the writes are sealed blocks, which with what waits are what was accepted -/
structure Sealing (s : SharedCipher) (q : SendQueue) : Prop where
  owned : Owned q
  cipher : q.m_cipher = true
  small : q.m_waitingPos + 24 ≤ MIN_SEND_BUF_SIZE
  blocks : ∃ bs : List ByteArray, q.written = bs.map s.matching.sealed ∧
    (∀ b ∈ bs, b.length + 8 < 2 ^ 32) ∧
    ∀ junk, bs.flatten ++ q.waitingBytes junk = q.accepted

theorem sealing_init (s : SharedCipher) : Sealing s (init true) := by
  refine ⟨owned_init true, rfl, ?_, [], rfl, List.forall_mem_nil _, fun _ => rfl⟩
  show (0 : Int) + 24 ≤ MIN_SEND_BUF_SIZE
  decide

theorem taken_waiting {q : SendQueue} (h : Layout q) (c : Choice) (data : ByteArray) {len : Int}
    (h0 : 0 < len) (hfit : q.m_waitingPos + len ≤ INT32_MAX)
    (hacc : ¬ toInt32 (len + q.m_waitingPos) > MAX_SEND_BUF_SIZE) (junk : Nat → BYTE) :
    (q.taken c data len).waitingBytes junk = q.waitingBytes junk ++ source c data len := by
  have hp := h.pos_nonneg
  unfold INT32_MAX at hfit
  have hneed : toInt32 (len + q.m_waitingPos) = q.m_waitingPos + len := by
    rw [toInt32_eq (by omega) (by omega)]
    omega
  rw [hneed] at hacc
  obtain ⟨hgl, hgb, hgn⟩ : Layout (q.room c (q.m_waitingPos + len)) ∧
      (∀ junk, (q.room c (q.m_waitingPos + len)).waitingBytes junk = q.waitingBytes junk) ∧
      q.m_waitingPos + len ≤ (q.room c (q.m_waitingPos + len)).m_waitingBufLen := by
    unfold room
    split
    · rename_i hmore
      obtain ⟨g1, -, g3, g4⟩ := grow_spec h c hmore (by omega)
      exact ⟨g1, g3, g4⟩
    · exact ⟨h, fun _ => rfl, by omega⟩
  have hpos := (room_same q c (q.m_waitingPos + len)).pos
  have hsl : ((source c data len).length : Int) = len := by
    rw [source, Vec.peeks_length, toSize_eq (by omega) (by omega)]
    omega
  have hpos' : toInt32 (q.m_waitingPos + len) = q.m_waitingPos + len :=
    toInt32_eq (by omega) (by omega)
  obtain ⟨-, -, s3⟩ := store_spec hgl (source c data len) (toInt32 (q.m_waitingPos + len))
    (by rw [hpos, hpos', hsl]) (by rw [hpos']; exact hgn)
    ((q.room c (q.m_waitingPos + len)).accepted ++ source c data len)
  rw [taken, hneed, hpos, ← hgb junk, ← s3 junk, hpos]

theorem Sealing.taken {s : SharedCipher} {q : SendQueue} (h : Sealing s q) (c : Choice)
    (data : ByteArray) {len : Int} (h0 : 0 < len)
    (hfits : q.m_waitingPos + len + 24 ≤ MIN_SEND_BUF_SIZE) : Sealing s (q.taken c data len) := by
  have hp := h.owned.layout.pos_nonneg
  have hsame := room_same q c (toInt32 (len + q.m_waitingPos))
  unfold MIN_SEND_BUF_SIZE at hfits
  have hfit : q.m_waitingPos + len ≤ INT32_MAX := by
    unfold INT32_MAX
    omega
  have hneed : toInt32 (len + q.m_waitingPos) = q.m_waitingPos + len := by
    rw [toInt32_eq (by omega) (by omega)]
    omega
  have hacc : ¬ toInt32 (len + q.m_waitingPos) > MAX_SEND_BUF_SIZE := by
    rw [hneed]
    unfold MAX_SEND_BUF_SIZE
    omega
  obtain ⟨bs, hw, hlen, hall⟩ := h.blocks
  refine ⟨(h.owned.taken c data h0 hfit hacc).1, hsame.cipher.trans h.cipher, ?_, bs,
    hsame.written.trans hw, hlen, fun junk => ?_⟩
  · show toInt32 ((q.room c _).m_waitingPos + len) + 24 ≤ MIN_SEND_BUF_SIZE
    rw [hsame.pos, toInt32_eq (by omega) (by omega)]
    exact hfits
  · rw [taken_waiting h.owned.layout c data h0 hfit hacc, ← List.append_assoc, hall]
    exact congrArg (· ++ _) hsame.accepted.symm

theorem makeSendBuf_waiting {q : SendQueue} (h : Layout q) (junk junk' : Nat → BYTE) :
    (q.makeSendBuf junk).waitingBytes junk' = q.waitingBytes junk' := by
  unfold makeSendBuf
  split
  · have hne : q.m_waitingBuf ≠ q.heap.next := Nat.ne_of_lt h.waiting_lt
    exact Heap.load_congr (if_neg hne) junk' _
  · rfl

theorem makeSendBuf_made (q : SendQueue) (junk : Nat → BYTE) :
    (q.makeSendBuf junk).makeSendBuf junk = q.makeSendBuf junk := by
  by_cases hz : q.m_sendBufLen = 0
  · refine if_neg ?_
    rw [makeSendBuf, if_pos hz]
    show ¬ MIN_SEND_BUF_SIZE = 0
    decide
  · have he : q.makeSendBuf junk = q := if_neg hz
    rw [he, he]

/-- a block that fits is sealed by the first call of the cipher -/
theorem Owned.cipherSend_fits {q : SendQueue} (h : Owned q) (s : SharedCipher) (junk : Nat → BYTE)
    {e : EncryptCall} (he : e.answer = s.cipher.encrypt) (es : List EncryptCall)
    (hfits : q.m_waitingPos + 24 ≤ MIN_SEND_BUF_SIZE) :
    ∃ q', SendQueue.cipherSend junk q (e :: es) = some q' ∧ Owned q' ∧ q'.m_waitingPos = 0 ∧
      q'.written = q.written ++ [s.matching.sealed (q.waitingBytes junk)] := by
  obtain ⟨m1, m2, m3, -⟩ := h.makeSendBuf junk
  have hp := h.layout.pos_nonneg
  have hmax := m1.layout.send_le
  unfold MAX_SEND_BUF_SIZE at hmax
  have hroom : toSize ((q.makeSendBuf junk).m_sendBufLen - 8)
      = ((q.makeSendBuf junk).m_sendBufLen - 8).toNat := toSize_eq (by omega) (by omega)
  have hsize : toSize (q.makeSendBuf junk).m_waitingPos = q.m_waitingPos.toNat := by
    rw [m1.layout.waiting_size, m3]
  have hok : ((q.makeSendBuf junk).encrypt junk e).1 = .OK := by
    rw [SendQueue.encrypt, he]
    refine congrArg Prod.fst (s.matching.encrypt_ok _ _ ?_)
    rw [Heap.load_length, hsize, hroom, AES_BLOCK_SIZE]
    omega
  obtain ⟨q2, e2, w2, -, p2, -⟩ := cipherSend_sealed m1.layout s.matching junk
    (by omega) he es
  rw [makeSendBuf_waiting h.layout, (makeSendBuf_same q junk).written] at w2
  have hstart : SendQueue.cipherSend junk q (e :: es)
      = SendQueue.cipherSend junk (q.makeSendBuf junk) (e :: es) := by
    rw [SendQueue.cipherSend, SendQueue.cipherSend, makeSendBuf_made]
  refine ⟨q2, hstart.trans e2, ?_, p2, w2⟩
  obtain ⟨⟨r, out, q1⟩, hcall⟩ : ∃ x, (q.makeSendBuf junk).encrypt junk e = x := ⟨_, rfl⟩
  have hq1 : Owned q1 := by
    cases hcall
    exact m1.store _ _ _
  rw [hcall] at hok
  cases hok
  rw [← hstart, SendQueue.cipherSend, hcall] at e2
  cases e2
  exact hq1.sendFrame junk out.length

/-- **When what waits fits, `doSendData` seals it.** -/
theorem Sealing.doSendData {s : SharedCipher} {q q' : SendQueue} {c : Choice} (h : Sealing s q)
    (hc : ∀ e ∈ c.encrypts, e.answer = s.cipher.encrypt) (hq : q.doSendData c = some q') :
    Sealing s q' := by
  have hp := h.owned.layout.pos_nonneg
  have hsmall := h.small
  obtain ⟨bs, hw, hlen, hall⟩ := h.blocks
  rw [SendQueue.doSendData] at hq
  split at hq
  · cases hq
    exact ⟨h.owned.same hp h.owned.layout.pos_le _ _ _ _ _ _ _, h.cipher, h.small, bs, hw, hlen,
      hall⟩
  · rw [if_pos h.cipher] at hq
    obtain ⟨q1, h1, rfl⟩ := Option.map_eq_some_iff.mp hq
    cases hes : c.encrypts with
    | nil =>
      rw [hes] at h1
      cases h1
    | cons e es =>
      have hanswer := hc e (by rw [hes]; exact List.mem_cons_self ..)
      obtain ⟨q2, e2, o2, p2, w2⟩ := h.owned.cipherSend_fits s c.junk hanswer es hsmall
      rw [hes] at h1
      obtain rfl : q2 = q1 := Option.some.inj (e2.symm.trans h1)
      obtain ⟨a2, c2⟩ := cipherSend_accepted e2
      have hsame := control_same q2 c
      have hle : 0 ≤ q2.m_waitingBufLen := o2.layout.pos_nonneg.trans o2.layout.pos_le
      unfold MIN_SEND_BUF_SIZE at hsmall
      refine ⟨o2.control c fun _ => by omega, hsame.cipher.trans (c2.trans h.cipher), ?_,
        bs ++ [q.waitingBytes c.junk], ?_, ?_, fun junk => ?_⟩
      · rw [hsame.pos, p2]
        decide
      · rw [hsame.written, w2, hw, List.map_append]
        rfl
      · intro b hb
        rcases List.mem_append.mp hb with hb | hb
        · exact hlen b hb
        · rw [List.mem_singleton.mp hb, waitingBytes, Heap.load_length]
          omega
      · rw [waitingBytes_empty (hsame.pos.trans p2), List.append_nil, List.flatten_append,
          List.flatten_singleton, hall, hsame.accepted, a2]

theorem fits_unrejected {q : SendQueue} (hp : 0 ≤ q.m_waitingPos) {e : Event} (hw : e.WellFormed)
    (hf : Fits q e) : Unrejected q e := by
  cases e with
  | sendDataAsync data len c =>
    have h0 := hw.1
    unfold Fits MIN_SEND_BUF_SIZE at hf
    show ¬ toInt32 (len + q.m_waitingPos) > MAX_SEND_BUF_SIZE
    rw [toInt32_eq (by omega) (by omega), MAX_SEND_BUF_SIZE]
    omega
  | handleSendData i c => trivial

theorem step_sealing {s : SharedCipher} {q q' : SendQueue} {e : Event} (h : Sealing s q)
    (hw : e.WellFormed) (hans : e.AnsweredBy (some s)) (hf : Fits q e)
    (hq : q.step e = some q') : Sealing s q' := by
  have hc := hans s rfl
  cases e with
  | sendDataAsync data len c =>
    obtain ⟨r, hr, rfl⟩ := Option.map_eq_some_iff.mp hq
    rw [append_taken q c data len (fits_unrejected h.owned.layout.pos_nonneg hw hf)] at hr
    obtain ⟨q1, h1, rfl⟩ := Option.map_eq_some_iff.mp hr
    have ht := h.taken c data hw.1 hf
    split at h1
    · cases h1
      exact ht
    · exact ht.doSendData hc h1
  | handleSendData i c =>
    rw [step, handleSendData] at hq
    split at hq
    · have he : Sealing s { q with writes := q.writes.eraseIdx i } :=
        ⟨h.owned.same h.owned.layout.pos_nonneg h.owned.layout.pos_le _ _ _ _ _ _ _, h.cipher,
          h.small, h.blocks⟩
      exact he.doSendData hc hq
    · cases hq

theorem openFrame_sealed (s : SharedCipher) {b : ByteArray} (hb : b.length + 8 < 2 ^ 32) :
    s.cipher.openFrame (s.matching.sealed b) = some b := by
  have hlen := sealed_length s.matching b
  have hword : lengthWord ((s.matching.sealed b).drop 4) = b.length := by
    show lengthWord (be32 (BitVec.ofNat 32 b.length) ++ s.matching.cipherOf b) = _
    rw [lengthWord_be32, BitVec.toNat_ofNat, Nat.mod_eq_of_lt (by omega)]
  obtain ⟨rest, hdec⟩ := s.matching.decrypt_ok b [] ((s.matching.sealed b).length * 2)
    (by rw [hlen, List.length_nil]; omega)
  rw [List.append_nil] at hdec
  have hdrop : (s.matching.sealed b).drop 8 = s.matching.cipherOf b := rfl
  rw [BaseCipher.openFrame, hword, hdrop, hdec]
  dsimp only
  rw [if_pos ⟨rfl, by omega, by rw [List.length_append]; omega⟩, List.take_left]

theorem openAll_sealed (s : SharedCipher) {bs : List ByteArray}
    (hlen : ∀ b ∈ bs, b.length + 8 < 2 ^ 32) :
    s.cipher.openAll (bs.map s.matching.sealed) = some bs.flatten := by
  induction bs with
  | nil => rfl
  | cons b bs ih =>
    rw [List.map_cons, BaseCipher.openAll, openFrame_sealed s (hlen b (List.mem_cons_self ..)),
      ih fun x hx => hlen x (List.mem_cons_of_mem _ hx)]
    rfl

theorem sealed_reads (s : SharedCipher) {bs : List ByteArray}
    (hlen : ∀ b ∈ bs, b.length + 8 < 2 ^ 32) :
    reads (some s) (bs.map s.matching.sealed).flatten = some bs.flatten := by
  have hframes : ∀ f ∈ bs.map s.matching.sealed, frames.look f = .msg f.length := by
    intro f hf
    obtain ⟨b, hb, rfl⟩ := List.mem_map.mp hf
    exact look_sealed s.matching b (hlen b hb)
  rw [reads, drain_flatten_frames frames _ hframes]
  exact openAll_sealed s hlen

/-- **With a cipher, what is sent asynchronously is read as the messages**, in every run in which
what waits fits into the smallest send buffer. -/
theorem async_reads (s : SharedCipher) {es : List Event} {q : SendQueue}
    (hw : ∀ e ∈ es, e.WellFormed) (hans : ∀ e ∈ es, e.AnsweredBy (some s))
    (hf : Machine.Along step Fits (init true) es)
    (h : Machine.run step (init true) es = some q) (hdone : q.m_waitingPos = 0) :
    reads (some s) q.written.flatten = some (es.flatMap Event.data) := by
  have hall := Machine.along_and hf (Machine.along_and
    (Machine.along_events (init true) hw) (Machine.along_events (init true) hans))
  have hstep : ∀ q e q', Sealing s q → (Fits q e ∧ e.WellFormed ∧ e.AnsweredBy (some s)) →
      step q e = some q' → Sealing s q' :=
    fun q e q' hI hP hq => step_sealing hI hP.2.1 hP.2.2 hP.1 hq
  have hacc : Machine.Along step Unrejected (init true) es :=
    Machine.along_inv (Sealing s) hstep
      (fun q e hI hP => fits_unrejected hI.owned.layout.pos_nonneg hP.2.1 hP.1)
      (sealing_init s) hall
  obtain ⟨bs, hwritten, hlen, hblocks⟩ :=
    (Machine.run_inv (Sealing s) hstep (sealing_init s) hall h).blocks
  have hbs := hblocks fun _ => 0
  rw [waitingBytes_empty hdone, List.append_nil, run_accepted hw hacc h] at hbs
  rw [hwritten, sealed_reads s hlen, hbs]
  rfl

theorem run_silent {b : Bool} {es : List Event} (hes : es.filterMap Event.message = [])
    {q : SendQueue} (h : Machine.run step (init b) es = some q) : es = [] := by
  cases es with
  | nil => rfl
  | cons e es =>
    obtain ⟨q1, h1, -⟩ := Machine.run_cons h
    cases e with
    | sendDataAsync data len c => cases hes
    | handleSendData i c => cases h1

theorem data_ne_nil {es : List Event} (hw : ∀ e ∈ es, e.WellFormed)
    (hes : es.filterMap Event.message ≠ []) : es.flatMap Event.data ≠ [] := by
  intro hnil
  apply hes
  rw [List.filterMap_eq_nil_iff]
  intro e he
  have hdata := List.flatMap_eq_nil_iff.mp hnil e he
  cases e with
  | handleSendData i c => rfl
  | sendDataAsync data len c =>
    obtain ⟨h0, hlen, -⟩ := hw _ he
    have hlen0 := congrArg List.length hdata
    rw [Event.data, List.length_take, List.length_nil] at hlen0
    omega

/-- **What is sent synchronously and what is sent asynchronously are read as the same bytes exactly
when no cipher is set, or nothing is sent.** -/
theorem same_stream_iff (peer : Option SharedCipher) (c : Choice) {es : List Event} {q : SendQueue}
    (hw : ∀ e ∈ es, e.WellFormed) (hans : ∀ e ∈ es, e.AnsweredBy peer)
    (hacc : Machine.Along step Unrejected (init peer.isSome) es)
    (hsum : Machine.Along step SumFits (init peer.isSome) es)
    (h : Machine.run step (init peer.isSome) es = some q) (hdone : q.m_waitingPos = 0) :
    SameStream peer
        ((init peer.isSome).sendAllSync c (es.filterMap Event.message)).written.flatten
        q.written.flatten ↔
      peer = none ∨ es.filterMap Event.message = [] := by
  have hsync := sendAllSync_written c hw (init peer.isSome)
  cases peer with
  | none =>
    refine iff_of_true ?_ (.inl rfl)
    exact ⟨_, congrArg some (plain_same c hw hacc hsum h hdone), rfl⟩
  | some s =>
    by_cases hes : es.filterMap Event.message = []
    · refine iff_of_true ?_ (.inr hes)
      obtain rfl := run_silent hes h
      cases h
      exact ⟨[], rfl, rfl⟩
    · refine iff_of_false ?_ fun hor => ?_
      · rintro ⟨plain, h1, h2⟩
        have hne := data_ne_nil hw hes
        obtain ⟨ns, hns, hlen⟩ := (run_enveloped s hw hans hacc hsum h).sent
        have hall : q.accepted = es.flatMap Event.data := run_accepted hw hacc h
        have hsent : ((init true).sendAllSync c (es.filterMap Event.message)).written.flatten
            = es.flatMap Event.data := hsync
        rw [hdone, hall] at hlen
        have hlong := framed_reads s hns h2
        have hshort := reads_short s (hsent ▸ hne) h1
        rw [Option.isSome_some, hsent] at hshort
        omega
      · rcases hor with hnone | hnil
        · cases hnone
        · exact hes hnil

end SendQueue

/-- a stream cipher as the cipher of both ends -/
def sharedStream (key : BYTE) : SharedCipher where
  cipher := streamCipher key
  matching := streamMatching key
  answers p room := by
    by_cases h : room < p.length
    · exact .inr (congrArg Prod.fst (if_pos h))
    · exact .inl (if_neg h)

namespace SendQueue

/-- the shared cipher is asked once -/
def askingStream (key : BYTE) : Choice :=
  { still with encrypts := [⟨(sharedStream key).cipher.encrypt, false⟩] }

theorem same_stream_iff_one : let es := [Event.sendDataAsync [1] 1 (askingStream 0x5a)]
    ∃ q, Machine.run step (init true) es = some q ∧ q.m_waitingPos = 0 ∧
      (SameStream (some (sharedStream 0x5a))
          ((init true).sendAllSync still (es.filterMap Event.message)).written.flatten
          q.written.flatten ↔
        some (sharedStream 0x5a) = none ∨ es.filterMap Event.message = []) := by
  intro es
  have hrun : (Machine.run step (init true) es).map (·.m_waitingPos) = some 0 := by decide +kernel
  obtain ⟨q, hq, hpos⟩ := Option.map_eq_some_iff.mp hrun
  refine ⟨q, hq, hpos, same_stream_iff (some (sharedStream 0x5a)) still (by decide) ?_
    (by decide +kernel) (by decide +kernel) hq hpos⟩
  intro e he s hs x hx
  cases hs
  rw [List.mem_singleton.mp he] at hx
  rw [List.mem_singleton.mp hx]

/-- **A byte that is sent with a cipher set**: asynchronously it is read as the byte it is,
synchronously as nothing. -/
theorem same_stream_cipher : ∃ q,
    Machine.run step (init true) [.sendDataAsync [1] 1 (askingStream 0x5a)] = some q ∧
      q.m_waitingPos = 0 ∧ reads (some (sharedStream 0x5a)) q.written.flatten = some [1] ∧
      ¬ SameStream (some (sharedStream 0x5a))
        ((init true).sendAllSync still [([1], 1)]).written.flatten q.written.flatten := by
  have hrun : (Machine.run step (init true) [.sendDataAsync [1] 1 (askingStream 0x5a)]).map
      (fun q => (q.m_waitingPos, q.written)) = some (0, [(streamMatching 0x5a).sealed [1]]) := by
    decide +kernel
  obtain ⟨q, hq, hfields⟩ := Option.map_eq_some_iff.mp hrun
  obtain ⟨hpos, hwritten⟩ := Prod.ext_iff.mp hfields
  dsimp only at hpos hwritten
  refine ⟨q, hq, hpos, ?_, ?_⟩
  · rw [hwritten]
    decide
  · rintro ⟨plain, hsync, -⟩
    have hnone : reads (some (sharedStream 0x5a))
        ((init true).sendAllSync still [([1], 1)]).written.flatten = none := by decide
    rw [hnone] at hsync
    cases hsync

end SendQueue

end Netwb
