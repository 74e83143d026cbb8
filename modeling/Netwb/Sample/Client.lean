import Netwb.Lib.Run
import Netwb.Sample.Rpc
import Mathlib.Data.List.AList
import Mathlib.Data.List.Perm.Basic

/-!
# Calls and their callbacks

`BaseClient::request` runs on the threads of its callers as three steps: it draws a number
(`genSeq`), sends, and files the callback in `m_CBs` under the number.  The server answers what it
receives, and `onPackageReceived` looks the callback of an answer up, calls it and takes it out.
The steps of all parties are interleaved in any order.

Of a header only the 36 low bits of the number travel (`onWire`).

* `Ledger`    what holds in every state: each callback that was passed is waiting in its call, filed,
              or has been called;
* `OnTime`    what holds as long as each answer comes after its callback was filed;
* `Stranded`  what holds from the first one that comes earlier on.

`callbacks_once_iff`: when all calls have returned and nothing is on its way, each callback has been
called exactly once if and only if every answer came after the callback was filed and no number of
more than 36 bits was sent.
-/

namespace Netwb
open Wire

def INT64_MAX : Int := 0x7FFFFFFFFFFFFFFF

variable {κ : Type}

/-- `map<r_int64, CallBack>` -/
abbrev CBTable (κ : Type) := AList fun _ : Int => κ

structure BaseClient (κ : Type) where
  m_CBs : CBTable κ
  m_requestSeq : Int

/-- the increment of the largest `r_int64` is not defined -/
def BaseClient.genSeq (c : BaseClient κ) : Option (BaseClient κ × Int) :=
  if c.m_requestSeq < INT64_MAX then
    some ({ c with m_requestSeq := c.m_requestSeq + 1 }, c.m_requestSeq + 1)
  else none

/-- the end of `request`, after `sendData` returned true -/
def BaseClient.register (c : BaseClient κ) (seq : Int) : Option κ → BaseClient κ
  | some cb => { c with m_CBs := c.m_CBs.insert seq cb }
  | none => c

/-- a package of the command `NET_CMD_RPC` as `onPackageReceived` reads it: its number, and what
`getField` and `getSubJson` find in its content -/
structure Response where
  m_seq : Int
  status : Option String
  error : Option String
  param : Option ByteArray
deriving DecidableEq, Repr

/-- a callback is called -/
structure Invocation (κ : Type) where
  cb : κ
  param : ByteArray
  error : String
deriving DecidableEq, Repr

def BaseClient.onPackageReceived (c : BaseClient κ) (r : Response) :
    BaseClient κ × Option (Invocation κ) :=
  match r.status with
  | none => (c, none)
  | some _ =>
    match c.m_CBs.lookup r.m_seq with
    | none => (c, none)
    | some cb =>
      match r.param with
      | none => (c, none)
      | some param =>
        ({ c with m_CBs := c.m_CBs.erase r.m_seq }, some ⟨cb, param, r.error.getD ""⟩)

/-- the number that the other side decodes from a header with the number `seq` -/
def onWire (seq : Int) : Int :=
  (NetPackageHeader.ofBytes
    (NetPackageHeader.make NET_CMD_RPC (BitVec.ofInt 64 seq) 0 0).bytes).m_seq.toInt

theorem onWire_eq (seq : Int) : onWire seq = seq % 2 ^ 36 := by
  rw [onWire, ofBytes_bytes_seq]
  show (((BitVec.ofInt 64 seq).setWidth 36).setWidth 64).toInt = _
  have hn : (((BitVec.ofInt 64 seq).setWidth 36).setWidth 64).toNat = (seq % 2 ^ 36).toNat := by
    rw [BitVec.toNat_setWidth, BitVec.toNat_setWidth, BitVec.toNat_ofInt]
    omega
  rw [BitVec.toInt_eq_toNat_of_lt (by omega), hn]
  omega

/-- a number that travels as it is -/
def Narrow (seq : Int) : Prop := 0 ≤ seq ∧ seq < 2 ^ 36

instance (seq : Int) : Decidable (Narrow seq) := inferInstanceAs (Decidable (_ ∧ _))

theorem onWire_narrow (seq : Int) : Narrow (onWire seq) := by
  rw [onWire_eq]
  exact ⟨by omega, by omega⟩

theorem onWire_self {seq : Int} (h : Narrow seq) : onWire seq = seq := by
  obtain ⟨h0, h1⟩ := h
  rw [onWire_eq]
  omega

namespace Rpc

/-! ## the system -/

/-- where a call of `request` stands -/
inductive Phase where
  | drawn
  | sent
  | returned
deriving DecidableEq, Repr

structure Call (κ : Type) where
  seq : Int
  cb : Option κ
  phase : Phase
deriving DecidableEq, Repr

/-- the client, the calls of `request` so far, the numbers of the requests and the responses that are
on their way, and the callbacks called so far -/
structure System (κ : Type) where
  client : BaseClient κ
  calls : List (Call κ)
  requests : List Int
  responses : List Response
  invoked : List (Invocation κ)

inductive Event (κ : Type) where
  /-- `request` is entered with a callback -/
  | genSeq (cb : Option κ)
  /-- call `i` sends, and `sendData` returns `ok` -/
  | sendData (i : Nat) (ok : Bool)
  | register (i : Nat)
  /-- the server answers the `j`-th request on its way -/
  | answer (j : Nat) (status error : Option String) (param : Option ByteArray)
  /-- the client receives the `k`-th response on its way -/
  | onPackageReceived (k : Nat)

def start : System κ := ⟨⟨∅, 0⟩, [], [], [], []⟩

def step (s : System κ) : Event κ → Option (System κ)
  | .genSeq cb => s.client.genSeq.map fun (client, seq) =>
    { s with client := client, calls := s.calls ++ [⟨seq, cb, .drawn⟩] }
  | .sendData i ok =>
    match s.calls[i]? with
    | some ⟨seq, cb, .drawn⟩ =>
      if ok then
        some { s with
          calls := s.calls.set i ⟨seq, cb, .sent⟩
          requests := s.requests ++ [onWire seq] }
      else
        -- an empty callback throws, and the call is over as well
        some { s with
          calls := s.calls.set i ⟨seq, cb, .returned⟩
          invoked := s.invoked ++ (cb.map fun cb => ⟨cb, [], "send error"⟩).toList }
    | _ => none
  | .register i =>
    match s.calls[i]? with
    | some ⟨seq, cb, .sent⟩ =>
      some { s with
        client := s.client.register seq cb
        calls := s.calls.set i ⟨seq, cb, .returned⟩ }
    | _ => none
  | .answer j status error param =>
    (s.requests[j]?).map fun seq => { s with
      requests := s.requests.eraseIdx j
      responses := s.responses ++ [⟨onWire seq, status, error, param⟩] }
  | .onPackageReceived k =>
    (s.responses[k]?).map fun r =>
      let (client, inv) := s.client.onPackageReceived r
      { s with
        client := client
        responses := s.responses.eraseIdx k
        invoked := s.invoked ++ inv.toList }

/-! ## what a step does -/

/-- the numbers of the messages on their way -/
def System.inFlight (s : System κ) : List Int := s.requests ++ s.responses.map Response.m_seq

/-- what a step can do -/
inductive Moves (s : System κ) : Event κ → System κ → Prop where
  | genSeq (cb : Option κ) : Moves s (.genSeq cb) { s with
      client := { s.client with m_requestSeq := s.client.m_requestSeq + 1 }
      calls := s.calls ++ [⟨s.client.m_requestSeq + 1, cb, .drawn⟩] }
  | sent (i : Nat) (seq : Int) (cb : Option κ) (hi : s.calls[i]? = some ⟨seq, cb, .drawn⟩) :
      Moves s (.sendData i true) { s with
        calls := s.calls.set i ⟨seq, cb, .sent⟩
        requests := s.requests ++ [onWire seq] }
  | failed (i : Nat) (seq : Int) (cb : Option κ) (hi : s.calls[i]? = some ⟨seq, cb, .drawn⟩) :
      Moves s (.sendData i false) { s with
        calls := s.calls.set i ⟨seq, cb, .returned⟩
        invoked := s.invoked ++ (cb.map fun cb => ⟨cb, [], "send error"⟩).toList }
  | register (i : Nat) (seq : Int) (cb : Option κ) (hi : s.calls[i]? = some ⟨seq, cb, .sent⟩) :
      Moves s (.register i) { s with
        client := s.client.register seq cb
        calls := s.calls.set i ⟨seq, cb, .returned⟩ }
  | answer (j : Nat) (q : Int) (status error : Option String) (param : Option ByteArray)
      (hj : s.requests[j]? = some q) :
      Moves s (.answer j status error param) { s with
        requests := s.requests.eraseIdx j
        responses := s.responses ++ [⟨onWire q, status, error, param⟩] }
  | called (k : Nat) (r : Response) (cb : κ) (param : ByteArray) (hk : s.responses[k]? = some r)
      (hcb : s.client.m_CBs.lookup r.m_seq = some cb) :
      Moves s (.onPackageReceived k) { s with
        client := { s.client with m_CBs := s.client.m_CBs.erase r.m_seq }
        responses := s.responses.eraseIdx k
        invoked := s.invoked ++ [⟨cb, param, r.error.getD ""⟩] }
  | passed (k : Nat) (r : Response) (hk : s.responses[k]? = some r)
      (hno : r.status.isSome → r.param.isSome → r.m_seq ∉ s.client.m_CBs) :
      Moves s (.onPackageReceived k) { s with responses := s.responses.eraseIdx k }

/-- a response calls the callback of its number, or does nothing -/
theorem received (c : BaseClient κ) (r : Response) :
    (∃ cb param, c.m_CBs.lookup r.m_seq = some cb ∧ c.onPackageReceived r
      = ({ c with m_CBs := c.m_CBs.erase r.m_seq }, some ⟨cb, param, r.error.getD ""⟩)) ∨
    (c.onPackageReceived r = (c, none) ∧
      (r.status.isSome → r.param.isSome → r.m_seq ∉ c.m_CBs)) := by
  cases hst : r.status with
  | none => exact Or.inr ⟨by rw [BaseClient.onPackageReceived, hst], fun h => by cases h⟩
  | some st =>
    cases hl : c.m_CBs.lookup r.m_seq with
    | none =>
      exact Or.inr ⟨by simp only [BaseClient.onPackageReceived, hst, hl],
        fun _ _ => AList.lookup_eq_none.mp hl⟩
    | some cb =>
      cases hp : r.param with
      | none =>
        exact Or.inr ⟨by simp only [BaseClient.onPackageReceived, hst, hl, hp],
          fun _ h => by cases h⟩
      | some param =>
        exact Or.inl ⟨cb, param, rfl, by simp only [BaseClient.onPackageReceived, hst, hl, hp]⟩

theorem step_moves {s s' : System κ} {e : Event κ} (h : step s e = some s') : Moves s e s' := by
  cases e with
  | genSeq cb =>
    simp only [step, BaseClient.genSeq] at h
    split at h
    · injection h with h
      exact h ▸ .genSeq cb
    · cases h
  | sendData i ok =>
    simp only [step] at h
    split at h
    · rename_i seq cb hi
      cases ok with
      | true =>
        injection h with h
        exact h ▸ .sent i seq cb hi
      | false =>
        injection h with h
        exact h ▸ .failed i seq cb hi
    · cases h
  | register i =>
    simp only [step] at h
    split at h
    · rename_i seq cb hi
      injection h with h
      exact h ▸ .register i seq cb hi
    · cases h
  | answer j status error param =>
    rw [step, Option.map_eq_some_iff] at h
    obtain ⟨q, hj, rfl⟩ := h
    exact .answer j q status error param hj
  | onPackageReceived k =>
    rw [step, Option.map_eq_some_iff] at h
    obtain ⟨r, hk, rfl⟩ := h
    rcases received s.client r with ⟨cb, param, hl, he⟩ | ⟨he, hno⟩
    · rw [he]
      exact .called k r cb param hk hl
    · rw [he]
      show Moves s _ { s with responses := s.responses.eraseIdx k, invoked := s.invoked ++ [] }
      rw [List.append_nil]
      exact .passed k r hk hno

/-! ## the numbers of the calls -/

/-- the calls draw their numbers one after the other -/
def Numbered (calls : List (Call κ)) : Prop :=
  ∀ (i : Nat) (c : Call κ), calls[i]? = some c → c.seq = i + 1

theorem Numbered.set {calls : List (Call κ)} (h : Numbered calls) {i : Nat} {c d : Call κ}
    (hi : calls[i]? = some c) (hd : d.seq = c.seq) : Numbered (calls.set i d) := by
  intro j x hx
  rw [List.getElem?_set] at hx
  split at hx
  · rename_i hij
    split at hx
    · injection hx with hx
      rw [← hx, hd, h i c hi, hij]
    · cases hx
  · exact h j x hx

theorem Numbered.concat {calls : List (Call κ)} (h : Numbered calls) {d : Call κ}
    (hd : d.seq = calls.length + 1) : Numbered (calls ++ [d]) := by
  intro i c hi
  by_cases hlt : i < calls.length
  · rw [List.getElem?_append_left hlt] at hi
    exact h i c hi
  · rw [List.getElem?_append_right (by omega)] at hi
    obtain ⟨hz, he⟩ := List.getElem?_eq_some_iff.mp hi
    rw [List.length_singleton] at hz
    have hi : d = c := by rw [← he, List.getElem_singleton]
    rw [← hi, hd]
    omega

/-- a call that has moved on, among the others -/
theorem Numbered.mem_set {calls : List (Call κ)} (h : Numbered calls) {i : Nat} {c : Call κ}
    (hi : calls[i]? = some c) (d x : Call κ) :
    x ∈ calls.set i d ↔ x = d ∨ (x ∈ calls ∧ x.seq ≠ c.seq) := by
  have hc := h i c hi
  have hlt : i < calls.length := (List.getElem?_eq_some_iff.mp hi).1
  constructor
  · intro hx
    obtain ⟨j, hj⟩ := List.mem_iff_getElem?.mp hx
    rw [List.getElem?_set] at hj
    split at hj
    · injection hj with hj
      exact Or.inl hj.symm
    · rename_i hij
      have hx' := h j x hj
      exact Or.inr ⟨List.mem_iff_getElem?.mpr ⟨j, hj⟩, by omega⟩
  · rintro (rfl | ⟨hx, hne⟩)
    · exact List.mem_iff_getElem?.mpr ⟨i, by rw [List.getElem?_set, if_pos rfl, if_pos hlt]⟩
    · obtain ⟨j, hj⟩ := List.mem_iff_getElem?.mp hx
      have hij : ¬ i = j := by
        rintro rfl
        rw [hi] at hj
        injection hj with hj
        exact hne (by rw [hj])
      exact List.mem_iff_getElem?.mpr ⟨j, by rw [List.getElem?_set, if_neg hij]; exact hj⟩

theorem Numbered.unique {calls : List (Call κ)} (h : Numbered calls) {c d : Call κ}
    (hc : c ∈ calls) (hd : d ∈ calls) (he : c.seq = d.seq) : c = d := by
  obtain ⟨i, hi⟩ := List.mem_iff_getElem?.mp hc
  obtain ⟨j, hj⟩ := List.mem_iff_getElem?.mp hd
  have h1 := h i c hi
  have h2 := h j d hj
  have hij : i = j := by omega
  rw [hij, hj] at hi
  injection hi with hi
  exact hi.symm

/-- a call that is there stays there, where one that moves on keeps what is asked of it -/
theorem Numbered.exists_set {calls : List (Call κ)} (h : Numbered calls) (P : Phase → Prop)
    {i : Nat} {c : Call κ} (d : Call κ) (hi : calls[i]? = some c) (hd : d.seq = c.seq)
    (hP : P c.phase → P d.phase) {q : Int} (hq : ∃ x ∈ calls, x.seq = q ∧ P x.phase) :
    ∃ x ∈ calls.set i d, x.seq = q ∧ P x.phase := by
  obtain ⟨x, hx, hxq, hpx⟩ := hq
  by_cases he : x.seq = c.seq
  · obtain rfl := h.unique hx (List.mem_of_getElem? hi) he
    exact ⟨d, (h.mem_set hi d d).mpr (Or.inl rfl), hd.trans hxq, hP hpx⟩
  · exact ⟨x, (h.mem_set hi d x).mpr (Or.inr ⟨hx, he⟩), hxq, hpx⟩

/-! ## the books -/

/-- the callback that a call has still to file -/
def Call.waiting (c : Call κ) : Option κ := if c.phase = .returned then none else c.cb

/-- what holds in every reachable state -/
structure Ledger (s : System κ) : Prop where
  counter : s.client.m_requestSeq = s.calls.length
  numbered : Numbered s.calls
  filed : ∀ q ∈ s.client.m_CBs, ∃ c ∈ s.calls, c.seq = q ∧ c.phase = .returned
  narrow : ∀ q ∈ s.inFlight, Narrow q
  accounts : (s.invoked.map Invocation.cb ++ (s.client.m_CBs.entries.map Sigma.snd ++
    s.calls.filterMap Call.waiting)).Perm (s.calls.filterMap Call.cb)

theorem filterMap_set_same {α β : Type} (f : α → Option β) {l : List α} {i : Nat} {c d : α}
    (hi : l[i]? = some c) (hf : f d = f c) : (l.set i d).filterMap f = l.filterMap f := by
  obtain ⟨hlt, hc⟩ := List.getElem?_eq_some_iff.mp hi
  have hm : (l.set i d).map f = l.map f := by
    rw [List.map_set, hf, ← hc]
    refine List.ext_getElem (by simp) fun j h1 h2 => ?_
    rw [List.getElem_set]
    split
    · rename_i hij
      subst hij
      rw [List.getElem_map]
    · rfl
  have h : ∀ l : List α, l.filterMap f = (l.map f).filterMap id := by
    intro l
    rw [List.filterMap_map]
    rfl
  rw [h, h, hm]

theorem filterMap_set_none {α β : Type} (f : α → Option β) {l : List α} {i : Nat} {c d : α} {b : β}
    (hi : l[i]? = some c) (hc : f c = some b) (hd : f d = none) :
    (b :: (l.set i d).filterMap f).Perm (l.filterMap f) := by
  obtain ⟨hlt, he⟩ := List.getElem?_eq_some_iff.mp hi
  have h1 := (List.set_perm_cons_eraseIdx hlt d).filterMap f
  have h2 := (List.getElem_cons_eraseIdx_perm hlt).filterMap f
  rw [List.filterMap_cons_none hd] at h1
  rw [List.filterMap_cons_some (by rw [he]; exact hc)] at h2
  exact (h1.cons b).trans h2

theorem entries_erase {t : CBTable κ} {q : Int} {cb : κ} (h : t.lookup q = some cb) :
    (cb :: (t.erase q).entries.map Sigma.snd).Perm (t.entries.map Sigma.snd) := by
  have hm : (⟨q, cb⟩ : Sigma fun _ : Int => κ) ∈ t.entries := AList.mem_lookup_iff.mp h
  obtain ⟨b, l1, l2, -, he, hk⟩ := List.exists_of_kerase (List.mem_keys_of_mem hm)
  have hb : b = cb := by
    have h' : (⟨q, b⟩ : Sigma fun _ : Int => κ) ∈ t.entries := by rw [he]; simp
    have := AList.mem_lookup_iff.mpr h'
    rw [h] at this
    injection this with this
    exact this.symm
  have hke : (t.erase q).entries = l1 ++ l2 := hk
  rw [hke, he, hb, List.map_append, List.map_append, List.map_cons]
  exact List.perm_middle.symm

/-! ## the messages on their way -/

theorem inFlight_sent (s : System κ) (q : Int) (calls : List (Call κ)) :
    (System.inFlight { s with calls := calls, requests := s.requests ++ [q] }).Perm
      (q :: s.inFlight) := by
  show ((s.requests ++ [q]) ++ _).Perm (q :: (s.requests ++ _))
  rw [List.append_assoc]
  exact List.perm_middle

theorem inFlight_answer {s : System κ} {j : Nat} {q : Int} {r : Response}
    (hj : s.requests[j]? = some q) (hq : r.m_seq = q) :
    (System.inFlight { s with requests := s.requests.eraseIdx j, responses := s.responses ++ [r] })
      |>.Perm s.inFlight := by
  obtain ⟨hlt, he⟩ := List.getElem?_eq_some_iff.mp hj
  have h := List.getElem_cons_eraseIdx_perm hlt
  rw [he] at h
  show (s.requests.eraseIdx j ++ (s.responses ++ [r]).map Response.m_seq).Perm (s.requests ++ _)
  rw [List.map_append, List.map_singleton, hq, ← List.append_assoc]
  exact (List.perm_append_singleton q _).trans (h.append_right _)

theorem inFlight_received {s : System κ} {k : Nat} {r : Response} (hk : s.responses[k]? = some r)
    (c : BaseClient κ) (inv : List (Invocation κ)) :
    (r.m_seq :: System.inFlight
      { s with client := c, responses := s.responses.eraseIdx k, invoked := inv }).Perm
      s.inFlight := by
  obtain ⟨hlt, he⟩ := List.getElem?_eq_some_iff.mp hk
  have h := (List.getElem_cons_eraseIdx_perm hlt).map Response.m_seq
  rw [he, List.map_cons] at h
  exact List.perm_middle.symm.trans (h.append_left s.requests)

theorem ledger_start : Ledger (start : System κ) where
  counter := rfl
  numbered := by
    intro i c h
    cases h
  filed := by
    intro q hq
    cases hq
  narrow := by
    intro q hq
    cases hq
  accounts := .refl _

/-- the callbacks that are filed when a call ends -/
theorem register_mem (c : BaseClient κ) (seq : Int) (cb : Option κ) {q : Int}
    (h : q ∈ (c.register seq cb).m_CBs) : q = seq ∨ q ∈ c.m_CBs := by
  cases cb with
  | none => exact Or.inr h
  | some b => exact (AList.mem_insert _).mp h

theorem Ledger.filed_set {s : System κ} (hL : Ledger s) {i : Nat} {c : Call κ} (d : Call κ)
    (hi : s.calls[i]? = some c) (hp : c.phase ≠ .returned) (hd : d.seq = c.seq) :
    ∀ q ∈ s.client.m_CBs, ∃ c ∈ s.calls.set i d, c.seq = q ∧ c.phase = .returned := by
  intro q hq
  exact hL.numbered.exists_set (· = .returned) d hi hd (fun h => absurd h hp) (hL.filed q hq)

/-- the number of a call that has not ended is not filed -/
theorem Ledger.not_filed {s : System κ} (hL : Ledger s) {i : Nat} {c : Call κ}
    (hi : s.calls[i]? = some c) (hp : c.phase ≠ .returned) : c.seq ∉ s.client.m_CBs := by
  intro hq
  obtain ⟨c', hc, hcq, hp'⟩ := hL.filed c.seq hq
  rw [hL.numbered.unique hc (List.mem_of_getElem? hi) hcq] at hp'
  exact hp hp'

/-- the callback of a call that ends leaves those that wait -/
theorem waiting_returned {calls : List (Call κ)} {i : Nat} {seq : Int} {b : κ} {p : Phase}
    (hi : calls[i]? = some ⟨seq, some b, p⟩) (hp : p ≠ .returned) (xs : List κ) :
    (b :: (xs ++ (calls.set i ⟨seq, some b, .returned⟩).filterMap Call.waiting)).Perm
      (xs ++ calls.filterMap Call.waiting) := by
  have hw := filterMap_set_none Call.waiting (d := ⟨seq, some b, .returned⟩) hi (if_neg hp) rfl
  exact List.perm_middle.symm.trans (hw.append_left xs)

theorem ledger_step {s s' : System κ} {e : Event κ} (hL : Ledger s) (h : step s e = some s') :
    Ledger s' := by
  have hn := hL.numbered
  cases step_moves h with
  | genSeq cb =>
    refine ⟨?_, ?_, ?_, hL.narrow, ?_⟩
    · show s.client.m_requestSeq + 1 = ((s.calls ++ [_]).length : Int)
      rw [List.length_append, hL.counter]
      rfl
    · refine hn.concat ?_
      show s.client.m_requestSeq + 1 = _
      rw [hL.counter]
    · intro q hq
      obtain ⟨c, hc, hp⟩ := hL.filed q hq
      exact ⟨c, List.mem_append_left _ hc, hp⟩
    · show (_ ++ (_ ++ (s.calls ++ [_]).filterMap _)).Perm ((s.calls ++ [_]).filterMap _)
      rw [List.filterMap_append, List.filterMap_append, ← List.append_assoc, ← List.append_assoc,
        List.append_assoc (s.invoked.map _)]
      exact hL.accounts.append_right _
  | sent i seq cb hi =>
    refine ⟨?_, hn.set hi rfl, ?_, ?_, ?_⟩
    · show _ = ((s.calls.set i _).length : Int)
      rw [List.length_set, hL.counter]
    · exact hL.filed_set _ hi (by simp) rfl
    · intro q hq
      rcases List.mem_cons.mp ((inFlight_sent s _ _).mem_iff.mp hq) with rfl | hq'
      · exact onWire_narrow seq
      · exact hL.narrow q hq'
    · show (_ ++ (_ ++ (s.calls.set i _).filterMap _)).Perm ((s.calls.set i _).filterMap _)
      rw [filterMap_set_same Call.waiting (d := ⟨seq, cb, .sent⟩) hi rfl,
        filterMap_set_same Call.cb (d := ⟨seq, cb, .sent⟩) hi rfl]
      exact hL.accounts
  | failed i seq cb hi =>
    refine ⟨?_, hn.set hi rfl, ?_, hL.narrow, ?_⟩
    · show _ = ((s.calls.set i _).length : Int)
      rw [List.length_set, hL.counter]
    · exact hL.filed_set _ hi (by simp) rfl
    · show (List.map _ (_ ++ _) ++ (_ ++ (s.calls.set i _).filterMap _)).Perm
        ((s.calls.set i _).filterMap _)
      rw [filterMap_set_same Call.cb (d := ⟨seq, cb, .returned⟩) hi rfl]
      cases cb with
      | none =>
        rw [filterMap_set_same Call.waiting (d := ⟨seq, none, .returned⟩) hi rfl]
        show (List.map _ (s.invoked ++ []) ++ _).Perm _
        rw [List.append_nil]
        exact hL.accounts
      | some b =>
        show (List.map _ (s.invoked ++ [_]) ++ _).Perm _
        rw [List.map_append, List.append_assoc]
        refine List.Perm.trans (List.Perm.append_left _ ?_) hL.accounts
        exact waiting_returned hi (by simp) _
  | register i seq cb hi =>
    have hfresh : seq ∉ s.client.m_CBs := hL.not_filed hi (by simp)
    refine ⟨?_, hn.set hi rfl, ?_, hL.narrow, ?_⟩
    · show (s.client.register seq cb).m_requestSeq = ((s.calls.set i _).length : Int)
      rw [List.length_set, ← hL.counter]
      cases cb <;> rfl
    · intro q hq
      rcases register_mem s.client seq cb hq with rfl | hq'
      · exact ⟨_, (hn.mem_set hi _ _).mpr (Or.inl rfl), rfl, rfl⟩
      · exact hL.filed_set ⟨seq, cb, .returned⟩ hi (by simp) rfl q hq'
    · show (_ ++ (_ ++ (s.calls.set i _).filterMap _)).Perm ((s.calls.set i _).filterMap _)
      rw [filterMap_set_same Call.cb (d := ⟨seq, cb, .returned⟩) hi rfl]
      cases cb with
      | none =>
        rw [filterMap_set_same Call.waiting (d := ⟨seq, none, .returned⟩) hi rfl]
        exact hL.accounts
      | some b =>
        show (_ ++ ((s.client.m_CBs.insert seq b).entries.map _ ++ _)).Perm _
        rw [AList.entries_insert_of_notMem hfresh, List.map_cons]
        refine List.Perm.trans (List.Perm.append_left _ ?_) hL.accounts
        exact waiting_returned hi (by simp) _
  | answer j q status error param hj =>
    have hw := onWire_self (hL.narrow q (List.mem_append_left _ (List.mem_of_getElem? hj)))
    refine ⟨hL.counter, hn, hL.filed, ?_, hL.accounts⟩
    intro p hp
    exact hL.narrow p ((inFlight_answer hj hw).mem_iff.mp hp)
  | called k r cb param hk hcb =>
    refine ⟨hL.counter, hn, ?_, ?_, ?_⟩
    · intro q hq
      exact hL.filed q (AList.mem_erase.mp hq).2
    · intro p hp
      exact hL.narrow p ((inFlight_received hk _ _).mem_iff.mp (List.mem_cons_of_mem _ hp))
    · show (List.map _ (s.invoked ++ [_]) ++ _).Perm _
      rw [List.map_append, List.append_assoc]
      refine List.Perm.trans (List.Perm.append_left _ ?_) hL.accounts
      exact (entries_erase hcb).append_right _
  | passed k r hk hno =>
    refine ⟨hL.counter, hn, hL.filed, ?_, hL.accounts⟩
    intro p hp
    exact hL.narrow p ((inFlight_received hk s.client s.invoked).mem_iff.mp
      (List.mem_cons_of_mem _ hp))

/-! ## answers that come in time -/

/-- the steps of requests with a callback whose `sendData` succeeds, and answers that can be read -/
def Asked : Event κ → Prop
  | .genSeq cb => cb.isSome
  | .sendData _ ok => ok = true
  | .answer _ status _ param => status.isSome ∧ param.isSome
  | _ => True

instance : (e : Event κ) → Decidable (Asked e)
  | .genSeq cb => inferInstanceAs (Decidable (cb.isSome = true))
  | .sendData _ ok => inferInstanceAs (Decidable (ok = true))
  | .answer _ status _ param =>
    inferInstanceAs (Decidable (status.isSome = true ∧ param.isSome = true))
  | .register _ => .isTrue trivial
  | .onPackageReceived _ => .isTrue trivial

/-- the number that is sent has 36 bits; the response that is received finds its callback filed -/
def InTime (s : System κ) : Event κ → Prop
  | .sendData i _ => ∀ c ∈ s.calls[i]?, Narrow c.seq
  | .onPackageReceived k => ∀ r ∈ s.responses[k]?, ∀ c ∈ s.calls, c.phase = .sent → c.seq ≠ r.m_seq
  | _ => True

instance (s : System κ) : (e : Event κ) → Decidable (InTime s e)
  | .sendData i _ => inferInstanceAs (Decidable (∀ c ∈ s.calls[i]?, Narrow c.seq))
  | .onPackageReceived k => inferInstanceAs
    (Decidable (∀ r ∈ s.responses[k]?, ∀ c ∈ s.calls, c.phase = .sent → c.seq ≠ r.m_seq))
  | .genSeq _ => .isTrue trivial
  | .register _ => .isTrue trivial
  | .answer _ _ _ _ => .isTrue trivial

/-- what `Asked` steps keep -/
structure Ordinary (s : System κ) : Prop where
  nonNull : ∀ c ∈ s.calls, c.cb.isSome
  parses : ∀ r ∈ s.responses, r.status.isSome ∧ r.param.isSome

theorem ordinary_start : Ordinary (start : System κ) where
  nonNull := by
    intro c hc
    cases hc
  parses := by
    intro r hr
    cases hr

theorem ordinary_step {s s' : System κ} {e : Event κ} (hO : Ordinary s) (ha : Asked e)
    (h : step s e = some s') : Ordinary s' := by
  have hset : ∀ {i : Nat} {c d : Call κ}, s.calls[i]? = some c → d.cb = c.cb →
      ∀ x ∈ s.calls.set i d, x.cb.isSome := by
    intro i c d hi hd x hx
    rcases List.mem_or_eq_of_mem_set hx with hx | rfl
    · exact hO.nonNull x hx
    · rw [hd]
      exact hO.nonNull c (List.mem_of_getElem? hi)
  cases step_moves h with
  | genSeq cb =>
    refine ⟨?_, hO.parses⟩
    intro c hc
    rcases List.mem_append.mp hc with hc | hc
    · exact hO.nonNull c hc
    · rw [List.mem_singleton.mp hc]
      exact ha
  | sent i seq cb hi => exact ⟨hset hi rfl, hO.parses⟩
  | failed i seq cb hi => exact ⟨hset hi rfl, hO.parses⟩
  | register i seq cb hi => exact ⟨hset hi rfl, hO.parses⟩
  | answer j q status error param hj =>
    refine ⟨hO.nonNull, ?_⟩
    intro r hr
    rcases List.mem_append.mp hr with hr | hr
    · exact hO.parses r hr
    · rw [List.mem_singleton.mp hr]
      exact ha
  | called k r cb param hk hcb =>
    exact ⟨hO.nonNull, fun r hr => hO.parses r (List.mem_of_mem_eraseIdx hr)⟩
  | passed k r hk hno =>
    exact ⟨hO.nonNull, fun r hr => hO.parses r (List.mem_of_mem_eraseIdx hr)⟩

/-- what holds as long as the steps are `InTime`: whoever waits for a response has one coming -/
structure OnTime (s : System κ) : Prop where
  nodup : s.inFlight.Nodup
  sent : ∀ q ∈ s.inFlight, ∃ c ∈ s.calls, c.seq = q ∧ c.phase ≠ .drawn
  files : ∀ q ∈ s.client.m_CBs, q ∈ s.inFlight
  flies : ∀ c ∈ s.calls, c.phase = .sent → c.seq ∈ s.inFlight

theorem onTime_start : OnTime (start : System κ) where
  nodup := .nil
  sent := by
    intro q hq
    cases hq
  files := by
    intro q hq
    cases hq
  flies := by
    intro c hc
    cases hc

theorem onTime_step {s s' : System κ} {e : Event κ} (hL : Ledger s) (hO : Ordinary s)
    (hT : OnTime s) (ha : Asked e) (hin : InTime s e) (h : step s e = some s') : OnTime s' := by
  have hn := hL.numbered
  cases step_moves h with
  | genSeq cb =>
    refine ⟨hT.nodup, ?_, hT.files, ?_⟩
    · intro q hq
      obtain ⟨c, hc, hp⟩ := hT.sent q hq
      exact ⟨c, List.mem_append_left _ hc, hp⟩
    · intro c hc hp
      rcases List.mem_append.mp hc with hc | hc
      · exact hT.flies c hc hp
      · rw [List.mem_singleton.mp hc] at hp
        cases hp
  | sent i seq cb hi =>
    have hw : onWire seq = seq := onWire_self (hin ⟨seq, cb, .drawn⟩ hi)
    have hperm := inFlight_sent s (onWire seq) (s.calls.set i ⟨seq, cb, .sent⟩)
    rw [hw] at hperm
    have hnew : seq ∉ s.inFlight := by
      intro hq
      obtain ⟨c, hc, hcq, hp⟩ := hT.sent seq hq
      rw [hn.unique hc (List.mem_of_getElem? hi) hcq] at hp
      exact hp rfl
    rw [hw]
    refine ⟨hperm.nodup_iff.mpr (List.nodup_cons.mpr ⟨hnew, hT.nodup⟩), ?_, ?_, ?_⟩
    · intro q hq
      rcases List.mem_cons.mp (hperm.mem_iff.mp hq) with rfl | hq'
      · exact ⟨_, (hn.mem_set hi _ _).mpr (Or.inl rfl), rfl, by simp⟩
      · exact hn.exists_set (· ≠ .drawn) ⟨seq, cb, .sent⟩ hi rfl (fun _ => by simp) (hT.sent q hq')
    · intro q hq
      exact hperm.mem_iff.mpr (List.mem_cons_of_mem _ (hT.files q hq))
    · intro c hc hp
      apply hperm.mem_iff.mpr
      rcases (hn.mem_set hi _ c).mp hc with rfl | ⟨hc', -⟩
      · exact List.mem_cons_self ..
      · exact List.mem_cons_of_mem _ (hT.flies c hc' hp)
  | failed i seq cb hi => cases ha
  | register i seq cb hi =>
    refine ⟨hT.nodup, ?_, ?_, ?_⟩
    · intro q hq
      exact hn.exists_set (· ≠ .drawn) ⟨seq, cb, .returned⟩ hi rfl (fun _ => by simp)
        (hT.sent q hq)
    · intro q hq
      rcases register_mem s.client seq cb hq with rfl | hq'
      · exact hT.flies _ (List.mem_of_getElem? hi) rfl
      · exact hT.files q hq'
    · intro c hc hp
      rcases (hn.mem_set hi _ c).mp hc with rfl | ⟨hc', -⟩
      · cases hp
      · exact hT.flies c hc' hp
  | answer j q status error param hj =>
    have hw := onWire_self (hL.narrow q (List.mem_append_left _ (List.mem_of_getElem? hj)))
    have hperm := inFlight_answer (r := ⟨onWire q, status, error, param⟩) hj hw
    exact ⟨hperm.nodup_iff.mpr hT.nodup, fun p hp => hT.sent p (hperm.mem_iff.mp hp),
      fun p hp => hperm.mem_iff.mpr (hT.files p hp),
      fun c hc hp => hperm.mem_iff.mpr (hT.flies c hc hp)⟩
  | called k r cb param hk hcb =>
    have hperm := inFlight_received hk { s.client with m_CBs := s.client.m_CBs.erase r.m_seq }
      (s.invoked ++ [⟨cb, param, r.error.getD ""⟩])
    refine ⟨(List.nodup_cons.mp (hperm.nodup_iff.mpr hT.nodup)).2,
      fun p hp => hT.sent p (hperm.mem_iff.mp (List.mem_cons_of_mem _ hp)), ?_, ?_⟩
    · intro q hq
      obtain ⟨hne, hq'⟩ := AList.mem_erase.mp hq
      exact (List.mem_cons.mp (hperm.mem_iff.mpr (hT.files q hq'))).resolve_left hne
    · intro c hc hp
      exact (List.mem_cons.mp (hperm.mem_iff.mpr (hT.flies c hc hp))).resolve_left
        (hin r hk c hc hp)
  | passed k r hk hno =>
    have hperm := inFlight_received hk s.client s.invoked
    obtain ⟨hst, hpa⟩ := hO.parses r (List.mem_of_getElem? hk)
    refine ⟨(List.nodup_cons.mp (hperm.nodup_iff.mpr hT.nodup)).2,
      fun p hp => hT.sent p (hperm.mem_iff.mp (List.mem_cons_of_mem _ hp)), ?_, ?_⟩
    · intro q hq
      apply (List.mem_cons.mp (hperm.mem_iff.mpr (hT.files q hq))).resolve_left
      rintro rfl
      exact hno hst hpa hq
    · intro c hc hp
      exact (List.mem_cons.mp (hperm.mem_iff.mpr (hT.flies c hc hp))).resolve_left
        (hin r hk c hc hp)

/-! ## answers that come too early -/

/-- someone waits for a response, and none is coming -/
def Stranded (s : System κ) : Prop :=
  ∃ q, q ∉ s.inFlight ∧ (q ∈ s.client.m_CBs ∨ ∃ c ∈ s.calls, c.seq = q ∧ c.phase = .sent)

/-- a number of more than 36 bits does not come back -/
theorem wide_strands {s : System κ} (hL : Ledger s) {i : Nat} {seq : Int} {cb : Option κ}
    (hi : s.calls[i]? = some ⟨seq, cb, .drawn⟩) (hw : ¬ Narrow seq) : Stranded { s with
      calls := s.calls.set i ⟨seq, cb, .sent⟩
      requests := s.requests ++ [onWire seq] } := by
  refine ⟨seq, ?_, Or.inr ⟨_, (hL.numbered.mem_set hi _ _).mpr (Or.inl rfl), rfl, rfl⟩⟩
  intro hq
  rcases List.mem_cons.mp ((inFlight_sent s _ _).mem_iff.mp hq) with he | hq'
  · exact hw (he ▸ onWire_narrow seq)
  · exact hw (hL.narrow seq hq')

/-- the first step that is not in time leaves someone stranded -/
theorem late_strands {s s' : System κ} {e : Event κ} (hL : Ledger s) (hT : OnTime s) (ha : Asked e)
    (hin : ¬ InTime s e) (h : step s e = some s') : Stranded s' := by
  cases step_moves h with
  | genSeq cb => exact absurd trivial hin
  | sent i seq cb hi =>
    refine wide_strands hL hi fun hw => hin ?_
    intro c hc
    rw [hi] at hc
    injection hc with hc
    exact hc ▸ hw
  | failed i seq cb hi => cases ha
  | register i seq cb hi => exact absurd trivial hin
  | answer j q status error param hj => exact absurd trivial hin
  | called k r cb param hk hcb =>
    exfalso
    refine hin fun r' hr' c hc hp hcr => ?_
    rw [hk] at hr'
    injection hr' with hr'
    obtain ⟨i, hi⟩ := List.mem_iff_getElem?.mp hc
    apply hL.not_filed hi (by rw [hp]; simp)
    rw [hcr, ← hr', ← AList.lookup_isSome, hcb]
    rfl
  | passed k r hk hno =>
    by_contra hs
    refine hin fun r' hr' c hc hp hcr => hs ⟨r.m_seq, ?_, Or.inr ⟨c, hc, ?_, hp⟩⟩
    · exact (List.nodup_cons.mp ((inFlight_received hk s.client s.invoked).nodup_iff.mpr
        hT.nodup)).1
    · rw [hk] at hr'
      injection hr' with hr'
      rw [hcr, hr']

theorem stranded_step {s s' : System κ} {e : Event κ} (hL : Ledger s) (hO : Ordinary s)
    (hS : Stranded s) (ha : Asked e) (h : step s e = some s') : Stranded s' := by
  have hn := hL.numbered
  obtain ⟨q, hq, hwait⟩ := hS
  cases step_moves h with
  | genSeq cb =>
    refine ⟨q, hq, hwait.imp_right ?_⟩
    rintro ⟨c, hc, hp⟩
    exact ⟨c, List.mem_append_left _ hc, hp⟩
  | sent i seq cb hi =>
    by_cases hw : Narrow seq
    · have hne : q ≠ seq := by
        rintro rfl
        rcases hwait with hf | ⟨c, hc, hcq, hp⟩
        · exact hL.not_filed hi (by simp) hf
        · rw [hn.unique hc (List.mem_of_getElem? hi) hcq] at hp
          cases hp
      refine ⟨q, ?_, hwait.imp_right ?_⟩
      · intro hq'
        rcases List.mem_cons.mp ((inFlight_sent s _ _).mem_iff.mp hq') with he | hq''
        · exact hne (by rw [he, onWire_self hw])
        · exact hq hq''
      · exact hn.exists_set (· = .sent) ⟨seq, cb, .sent⟩ hi rfl fun _ => rfl
    · exact wide_strands hL hi hw
  | failed i seq cb hi => cases ha
  | register i seq cb hi =>
    obtain ⟨b, rfl⟩ := Option.isSome_iff_exists.mp (hO.nonNull _ (List.mem_of_getElem? hi))
    refine ⟨q, hq, ?_⟩
    rcases hwait with hf | ⟨c, hc, hcq, hp⟩
    · exact Or.inl ((AList.mem_insert _).mpr (Or.inr hf))
    · by_cases he : c.seq = seq
      · exact Or.inl ((AList.mem_insert _).mpr (Or.inl (hcq.symm.trans he)))
      · exact Or.inr ⟨c, (hn.mem_set hi _ c).mpr (Or.inr ⟨hc, he⟩), hcq, hp⟩
  | answer j p status error param hj =>
    have hw := onWire_self (hL.narrow p (List.mem_append_left _ (List.mem_of_getElem? hj)))
    exact ⟨q, fun hq' => hq ((inFlight_answer hj hw).mem_iff.mp hq'), hwait⟩
  | called k r cb param hk hcb =>
    have hperm := inFlight_received hk { s.client with m_CBs := s.client.m_CBs.erase r.m_seq }
      (s.invoked ++ [⟨cb, param, r.error.getD ""⟩])
    have hne : q ≠ r.m_seq := by
      rintro rfl
      exact hq (hperm.mem_iff.mp (List.mem_cons_self ..))
    refine ⟨q, fun hq' => hq (hperm.mem_iff.mp (List.mem_cons_of_mem _ hq')), hwait.imp_left ?_⟩
    exact fun hf => AList.mem_erase.mpr ⟨hne, hf⟩
  | passed k r hk hno =>
    have hperm := inFlight_received hk s.client s.invoked
    exact ⟨q, fun hq' => hq (hperm.mem_iff.mp (List.mem_cons_of_mem _ hq')), hwait⟩

/-! ## the end of a run -/

/-- every call has returned, every response has been consumed -/
def Quiet (s : System κ) : Prop :=
  s.requests = [] ∧ s.responses = [] ∧ ∀ c ∈ s.calls, c.phase = .returned

instance (s : System κ) : Decidable (Quiet s) :=
  inferInstanceAs (Decidable (s.requests = [] ∧ s.responses = [] ∧ _))

/-- each callback that was passed has been called exactly once, and none is left -/
def Delivered (s : System κ) : Prop :=
  s.client.m_CBs.entries = [] ∧
    (s.invoked.map Invocation.cb).Perm (s.calls.filterMap Call.cb)

theorem quiet_inFlight {s : System κ} (h : Quiet s) : s.inFlight = [] := by
  rw [System.inFlight, h.1, h.2.1]
  rfl

/-- with no callback left the books say that all were called -/
theorem delivered_of_empty {s : System κ} (hL : Ledger s) (hq : Quiet s)
    (h : s.client.m_CBs.entries = []) : Delivered s := by
  have hw : s.calls.filterMap Call.waiting = [] := by
    apply List.filterMap_eq_nil_iff.mpr
    intro c hc
    rw [Call.waiting, if_pos (hq.2.2 c hc)]
  have hb := hL.accounts
  rw [h, hw, List.map_nil, List.append_nil, List.append_nil] at hb
  exact ⟨h, hb⟩

theorem delivered_of_onTime {s : System κ} (hL : Ledger s) (hT : OnTime s) (hq : Quiet s) :
    Delivered s := by
  refine delivered_of_empty hL hq (List.eq_nil_iff_forall_not_mem.mpr fun x hx => ?_)
  have := hT.files x.1 (AList.mem_keys.mpr (List.mem_keys_of_mem hx))
  rw [quiet_inFlight hq] at this
  cases this

theorem not_delivered_of_stranded {s : System κ} (hS : Stranded s) (hq : Quiet s) :
    ¬ Delivered s := by
  rintro ⟨he, -⟩
  obtain ⟨q, -, hf | ⟨c, hc, -, hp⟩⟩ := hS
  · have := AList.mem_keys.mp hf
    rw [AList.keys, he] at this
    cases this
  · rw [hq.2.2 c hc] at hp
    cases hp

/-- what every state has that `Asked` steps reach in time -/
theorem run_onTime {es : List (Event κ)} {t : System κ} (ha : ∀ e ∈ es, Asked e)
    (hin : Machine.Along step InTime start es) (h : Machine.run step start es = some t) :
    Ledger t ∧ Ordinary t ∧ OnTime t := by
  refine Machine.run_inv (fun s => Ledger s ∧ Ordinary s ∧ OnTime s) ?_
    ⟨ledger_start, ordinary_start, onTime_start⟩
    (Machine.along_and hin (Machine.along_events start ha)) h
  rintro s e s' ⟨hL, hO, hT⟩ ⟨hi, hae⟩ hs
  exact ⟨ledger_step hL hs, ordinary_step hO hae hs, onTime_step hL hO hT hae hi hs⟩

theorem run_stranded {es : List (Event κ)} {s t : System κ} (ha : ∀ e ∈ es, Asked e)
    (hs : Ledger s ∧ Ordinary s ∧ Stranded s) (h : Machine.run step s es = some t) :
    Ledger t ∧ Ordinary t ∧ Stranded t := by
  refine Machine.run_inv (fun s => Ledger s ∧ Ordinary s ∧ Stranded s) ?_ hs
    (Machine.along_events s ha) h
  rintro s e s' ⟨hL, hO, hS⟩ hae hs
  exact ⟨ledger_step hL hs, ordinary_step hO hae hs, stranded_step hL hO hS hae hs⟩

/-- **When all is quiet, each callback has been called exactly once if and only if every response
came after its callback was filed and every number that was sent has 36 bits.** -/
theorem callbacks_once_iff (es : List (Event κ)) (t : System κ) (ha : ∀ e ∈ es, Asked e)
    (h : Machine.run step start es = some t) (hq : Quiet t) :
    Delivered t ↔ Machine.Along step InTime start es := by
  constructor
  · intro hd
    rcases Machine.along_or_breaks InTime h with
      hin | ⟨pre, e, post, m, m', rfl, hpre, hin, hbad, hs, hpost⟩
    · exact hin
    · obtain ⟨hL, hO, hT⟩ := run_onTime (fun e he => ha e (List.mem_append_left _ he)) hin hpre
      have hae := ha e (List.mem_append_right _ (List.mem_cons_self ..))
      have hS := late_strands hL hT hae hbad hs
      have hend := run_stranded
        (fun e he => ha e (List.mem_append_right _ (List.mem_cons_of_mem _ he)))
        ⟨ledger_step hL hs, ordinary_step hO hae hs, hS⟩ hpost
      exact absurd hd (not_delivered_of_stranded hend.2.2 hq)
  · intro hin
    obtain ⟨hL, -, hT⟩ := run_onTime ha hin h
    exact delivered_of_onTime hL hT hq

/-- two calls whose steps overlap, answered in the other order -/
def twoCalls : List (Event Nat) :=
  [.genSeq (some 10), .genSeq (some 20), .sendData 1 true, .sendData 0 true, .register 1,
    .answer 0 (some "ok") none (some [0x7b, 0x7d, 0x00]), .register 0, .onPackageReceived 0,
    .answer 0 (some "ok") none (some [0x7b, 0x7d, 0x00]), .onPackageReceived 0]

theorem callbacks_once_iff_two : ∃ t, Machine.run step start twoCalls = some t ∧ Quiet t ∧
    (Delivered t ↔ Machine.Along step InTime start twoCalls) ∧
    Machine.Along step InTime start twoCalls :=
  ⟨_, rfl, by decide, callbacks_once_iff twoCalls _ (by decide) rfl (by decide), by decide⟩

/-- the answer arrives between `sendData` and the filing of the callback -/
def earlyAnswer : List (Event Nat) :=
  [.genSeq (some 10), .sendData 0 true, .answer 0 (some "ok") none (some [0x7b, 0x7d, 0x00]),
    .onPackageReceived 0, .register 0]

/-- the callback is never called and stays in the table -/
theorem callback_lost : (∀ e ∈ earlyAnswer, Asked e) ∧
    ∃ t, Machine.run step start earlyAnswer = some t ∧ Quiet t ∧ ¬ Delivered t ∧
      t.invoked = [] ∧ t.client.m_CBs.lookup 1 = some 10 := by
  refine ⟨by decide, _, rfl, by decide, ?_, rfl, rfl⟩
  rintro ⟨he, -⟩
  cases he

end Rpc
end Netwb
