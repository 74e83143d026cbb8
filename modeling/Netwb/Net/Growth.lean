import Netwb.Net.Receive

/-!
# The size of the plain parser's buffer

`feedPack` grows `m_dataBuf` by the length of the new piece on top of its old size, and nothing ever
shrinks it.  A piece is at most `RECV_BUF_LENGTH` bytes, and what a call of `onDataReceived` leaves
is an incomplete package, so the buffer only grows while it is shorter than the largest package and
one piece (`feedPack_capacity`).

* `InCall`           the states that the parser goes through in one call;
* `parser_bounded`   over every run: what is left after a call, and the size of the buffer at all
                     times.
-/

namespace Netwb
open Wire NetPackageParser

/-- the size of `m_recvBuf`: no call of `onDataReceived` gets more -/
def RECV_BUF_LENGTH : Nat := 64 * 1024

section
variable (o : ByteOrder) (wild : Int → BYTE)

/-- the parser in the course of `onDataReceived`: after the copy, and after each `nextPackage` -/
inductive InCall (p : NetPackageParser) (c : Chunk) : NetPackageParser → Prop
  | fed : InCall p c (p.feedPack wild c.bytes c.bytes.length)
  | next {q : NetPackageParser} : InCall p c q → InCall p c (q.nextPackage o wild).1

theorem nextPackage_capacity (p : NetPackageParser) :
    (p.nextPackage o wild).1.m_dataBuf.length = p.m_dataBuf.length := by
  have ha : (if p.m_dataIndex > 0 then p.ajust wild else p).m_dataBuf.length
      = p.m_dataBuf.length := by
    unfold ajust
    split
    · dsimp only
      split
      · exact Vec.memcpy_length _ _ _
      · rfl
    · rfl
  unfold nextPackage
  split
  · dsimp only
    split
    · rfl
    · split
      · rfl
      · exact ha
  · exact ha

/-- the buffer grows by one piece, and only while it has no room for that piece -/
theorem feedPack_capacity (p : NetPackageParser) (data : ByteArray) (len : Nat) :
    (p.feedPack wild data len).m_dataBuf.length = p.m_dataBuf.length ∨
      p.m_dataBuf.length < p.m_dataLen + len ∧
        (p.feedPack wild data len).m_dataBuf.length = p.m_dataBuf.length + len := by
  unfold feedPack
  split
  · exact .inl rfl
  · dsimp only
    rw [Vec.memcpy_length]
    split
    · rename_i hroom
      exact .inr ⟨hroom, Vec.resize_length _ _ _⟩
    · exact .inl rfl

/-- the room of the buffer, for pieces of at most `n` bytes and leftovers of less than `b` -/
structure NetPackageParser.Roomy (b n : Nat) (p : NetPackageParser) : Prop where
  index_zero : p.m_dataIndex = 0
  dataLen_lt : p.m_dataLen < b
  capacity_lt : p.m_dataBuf.length < b + 2 * n

theorem inCall_capacity {b n : Nat} {p q : NetPackageParser} {c : Chunk} (h : p.Roomy b n)
    (hc : c.bytes.length ≤ n) (hq : InCall o wild p c q) : q.m_dataBuf.length < b + 2 * n := by
  induction hq with
  | fed =>
    have hlen := h.dataLen_lt
    have hcap := h.capacity_lt
    rcases feedPack_capacity wild p c.bytes c.bytes.length with he | ⟨hroom, he⟩ <;> omega
  | next _ ih =>
    rw [nextPackage_capacity]
    exact ih

theorem packages_inCall (throws : Nat → Bool) {p : NetPackageParser} {c : Chunk} :
    ∀ {q : NetPackageParser} (_ : InCall o wild p c q) (k : Nat),
      InCall o wild p c (q.packages o wild throws k).1 := by
  intro q hq k
  induction q, k using NetPackageParser.packages.induct o wild throws with
  | case1 q k q' b hnext =>
    rw [packages_none o wild throws k hnext, ← congrArg Prod.fst hnext]
    exact hq.next
  | case2 q k q' pkg b hnext ht =>
    rw [packages_some o wild throws k hnext, if_pos ht, ← congrArg Prod.fst hnext]
    exact hq.next
  | case3 q k q' pkg b hnext ht ih =>
    have hq' := InCall.next hq
    rw [hnext] at hq'
    rw [packages_some o wild throws k hnext, if_neg ht]
    exact ih hq'

/-- what a call leaves without a cipher is one of the states it went through -/
theorem onDataReceived_inCall (fuel : Nat) (throws : Nat → Bool) {p : NetPackageParser}
    (h : p.m_encryptInfo.cipher = none) (c : Chunk) :
    ∃ r, onDataReceived o wild fuel throws p c.bytes c.bytes.length = some r ∧
      InCall o wild p c r.1 := by
  refine ⟨_, onDataReceived_fed o wild fuel throws h c, ?_⟩
  exact packages_inCall o wild throws .fed 0

theorem onDataReceived_roomy {n : Nat} (fuel : Nat) {p : NetPackageParser} (h : p.Ready)
    (hr : p.Roomy NET_PACKAGE_INVALID_LENGTH n) (c : Chunk) (hc : c.bytes.length ≤ n) :
    ∃ p' r, onDataReceived o wild fuel (fun _ => false) p c.bytes c.bytes.length
        = some (p', r, false) ∧ p'.Ready ∧ p'.Roomy NET_PACKAGE_INVALID_LENGTH n := by
  obtain ⟨p', r, e, hready, -, -⟩ := onDataReceived_ready o wild fuel h c
  obtain ⟨r', e', hin⟩ := onDataReceived_inCall o wild fuel (fun _ => false) h.plain c
  rw [e] at e'
  injection e' with e'
  refine ⟨p', r, e, hready, hready.index_zero, ?_, ?_⟩
  · have hw := waiting_length hready.waiting
    rw [live_length hready.good, hready.index_zero] at hw
    exact hw
  · rw [← e'] at hin
    exact inCall_capacity o wild hr hc hin

theorem receive_roomy {n : Nat} (fuel : Nat) {p : NetPackageParser} (h : p.Ready)
    (hr : p.Roomy NET_PACKAGE_INVALID_LENGTH n) (cs : List Chunk)
    (hcs : ∀ c ∈ cs, c.bytes.length ≤ n) :
    ∃ rs p', receive o wild fuel p cs = some (rs, p') ∧
      p'.Roomy NET_PACKAGE_INVALID_LENGTH n := by
  induction cs generalizing p with
  | nil => exact ⟨[], p, rfl, hr⟩
  | cons c cs ih =>
    obtain ⟨p1, r, e, h1, hr1⟩ :=
      onDataReceived_roomy o wild fuel h hr c (hcs c (List.mem_cons_self ..))
    obtain ⟨rs, p2, e2, hr2⟩ := ih h1 hr1 fun d hd => hcs d (List.mem_cons_of_mem _ hd)
    refine ⟨r :: rs, p2, ?_, hr2⟩
    rw [receive, e]
    show (receive o wild fuel p1 cs).map _ = _
    rw [e2]
    rfl

theorem roomy_fresh : NetPackageParser.fresh.Roomy NET_PACKAGE_INVALID_LENGTH RECV_BUF_LENGTH where
  index_zero := rfl
  dataLen_lt := by
    show 0 < NET_PACKAGE_INVALID_LENGTH
    simp [NET_PACKAGE_INVALID_LENGTH]
  capacity_lt := by
    show (List.replicate (64 * 1024) (0 : BYTE)).length < _
    rw [List.length_replicate]
    simp [NET_PACKAGE_INVALID_LENGTH, RECV_BUF_LENGTH]

/-- **A peer cannot grow the plain parser without limit.**  After every call nothing is consumed and
less than the largest package is left; the buffer is shorter than that and two pieces, between the
calls and in the course of each. -/
theorem parser_bounded (fuel : Nat) (cs : List Chunk)
    (hcs : ∀ c ∈ cs, c.bytes.length ≤ RECV_BUF_LENGTH) :
    ∃ rs p, receive o wild fuel .fresh cs = some (rs, p) ∧
      p.m_dataIndex = 0 ∧ p.m_dataLen < 512 * 1024 * 1024 ∧
      p.m_dataBuf.length < 512 * 1024 * 1024 + 2 * 65536 ∧
      ∀ c : Chunk, c.bytes.length ≤ RECV_BUF_LENGTH → ∀ q, InCall o wild p c q →
        q.m_dataBuf.length < 512 * 1024 * 1024 + 2 * 65536 := by
  obtain ⟨rs, p, e, hr⟩ := receive_roomy o wild fuel ready_fresh roomy_fresh cs hcs
  exact ⟨rs, p, e, hr.index_zero, hr.dataLen_lt, hr.capacity_lt,
    fun c hc q hq => inCall_capacity o wild hr hc hq⟩

end

/-- an invalid length word, then the beginning of a package -/
theorem parser_bounded_two : ∃ rs p,
    receive .little (fun _ => 0) 0 .fresh [⟨List.replicate 12 255, by simp [INT32_MAX]⟩,
      ⟨[0, 0, 0, 14, 0], by simp [INT32_MAX]⟩] = some (rs, p) ∧
    p.m_dataIndex = 0 ∧ p.m_dataLen < 512 * 1024 * 1024 ∧
    p.m_dataBuf.length < 512 * 1024 * 1024 + 2 * 65536 ∧
    ∀ c : Chunk, c.bytes.length ≤ RECV_BUF_LENGTH → ∀ q, InCall .little (fun _ => 0) p c q →
      q.m_dataBuf.length < 512 * 1024 * 1024 + 2 * 65536 :=
  parser_bounded .little _ 0 _ (by simp [RECV_BUF_LENGTH])

end Netwb
