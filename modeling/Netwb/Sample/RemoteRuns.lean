import Netwb.Lib.Simulation
import Netwb.Sample.Remote

/-!
# Remote calls and their results

Each step of the client and the server with the messages between them is followed by steps of
`Rpc.System`, where messages are numbers (`step_follows`); so the books of the calls are kept here
as well, and a callback that is called is called with what its own function answers.

* `results_are_answers`  at any time no callback was called more often than it was passed, and each
                         time with the answer of its function, or for a request that was not sent
                         with that error;
* `calls_return_once`    when all is quiet and no response came too early, each was called once.
-/

namespace Netwb
open Wire Machine

namespace Remote
variable {φ : Type} {w : Platform} {j : Json}

/-! ## the calls as numbers -/

/-- a call without its request -/
def Call.rpc (c : Call) : Rpc.Call CallBack := ⟨c.seq, some c.cb, c.phase⟩

/-- the number that a request will be decoded with -/
def Message.number : Message → Option Int
  | .request seq _ _ _ => some (onWire seq)
  | .keepAlive _ => none

/-- the numbers of the requests of the client that the server works on -/
def inServer (s : Service φ) : List Int :=
  (strand s).map (fun r => r.seq.toInt) ++ (queue s).map fun t => t.seq.toInt

/-- a state with the messages, and one with their numbers -/
structure Rel (j : Json) (s : Remote φ) (a : Rpc.System CallBack) : Prop where
  client : a.client = s.client
  calls : a.calls = s.calls.map Call.rpc
  invoked : a.invoked = s.invoked
  requests : a.requests.Perm (s.toServer.filterMap Message.number ++ inServer s.server)
  responses : a.responses.Perm (s.toClient.filterMap (Output.reply j))

theorem rel_start : Rel j (start : Remote φ) Rpc.start := ⟨rfl, rfl, rfl, .refl _, .refl _⟩

/-- one of a list, and the others -/
theorem exists_dequeue {α : Type} {xs ys : List α} {a : α} (h : xs.Perm (a :: ys)) :
    ∃ i, xs[i]? = some a ∧ (xs.eraseIdx i).Perm ys := by
  obtain ⟨i, hi⟩ := List.mem_iff_getElem?.mp (h.mem_iff.mpr (List.mem_cons_self ..))
  exact ⟨i, hi, ((perm_dequeue hi).trans h).cons_inv⟩

/-- a message that is taken leaves the numbers of the others -/
theorem filterMap_dequeue {α β : Type} (f : α → Option β) {xs : List α} {i : Nat} {a : α}
    (h : xs[i]? = some a) :
    (xs.filterMap f).Perm ((f a).toList ++ (xs.eraseIdx i).filterMap f) := by
  refine ((perm_dequeue h).filterMap f).symm.trans ?_
  rw [List.filterMap_cons]
  cases f a <;> exact .refl _

theorem filterMap_keepAlive {ms : List Message}
    (h : ∀ m ∈ ms, ∃ bytes, m = .keepAlive bytes ∧ Alive bytes) :
    ms.filterMap Message.number = [] :=
  List.filterMap_eq_nil_iff.mpr fun m hm => by
    obtain ⟨bytes, rfl, -⟩ := h m hm
    rfl

theorem filterMap_output {outs : List Output}
    (h : ∀ o ∈ outs, ∃ bytes, o = .keepAlive 0 bytes ∧ Alive bytes) :
    outs.filterMap (Output.reply j) = [] :=
  List.filterMap_eq_nil_iff.mpr fun o ho => by
    obtain ⟨bytes, rfl, -⟩ := h o ho
    rfl

/-- a request has a callback, and an answer can be read -/
def Answered : Rpc.Event CallBack → Prop
  | .genSeq cb => cb.isSome
  | .answer _ status _ param => status.isSome ∧ param.isSome
  | _ => True

/-- a request is sent -/
def Sends : Rpc.Event CallBack → Prop
  | .sendData _ ok => ok = true
  | _ => True

theorem asked_of_sends {e : Rpc.Event CallBack} (ha : Answered e) (hs : Sends e) : Rpc.Asked e := by
  cases e with
  | genSeq cb => exact ha
  | sendData i ok => exact hs
  | register i => trivial
  | answer k status error param => exact ha
  | onPackageReceived k => trivial

/-- the other machine, and what has to hold of its steps -/
abbrev Followed (j : Json) (s' : Remote φ) (a : Rpc.System CallBack) (intime : Prop) : Prop :=
  Follows Rpc.step (Rel j) Answered (fun a e => Sends e ∧ Rpc.InTime a e) s' a intime

/-- the server does something for the client -/
theorem serves_follows {s : Remote φ} {a : Rpc.System CallBack} (hS : Sound w j s) (hR : Rel j s a)
    {server : Service φ} {outs : List Output} (hs : Serves w j s.server server outs) {P : Prop}
    (hP : P) : Followed j { s with server, toClient := s.toClient ++ outs } a P := by
  cases hs with
  | idle hstrand hqueue =>
    refine .stays ⟨hR.client, hR.calls, hR.invoked, ?_, ?_⟩ hP
    · show a.requests.Perm (_ ++ inServer server)
      rw [inServer, hstrand, hqueue]
      exact hR.requests
    · show a.responses.Perm ((s.toClient ++ []).filterMap _)
      rw [List.append_nil]
      exact hR.responses
  | handles r rs m hr hm hstrand hqueue =>
    refine .stays ⟨hR.client, hR.calls, hR.invoked, hR.requests.trans ?_, ?_⟩ hP
    · -- the number goes from the strand to the posted responses
      refine List.Perm.append_left _ ?_
      show (inServer s.server).Perm (inServer server)
      rw [inServer, inServer, hr, hstrand, List.map_cons, List.cons_append]
      refine List.perm_middle.symm.trans (List.Perm.append_left _ ?_)
      exact (hqueue.map fun t => t.seq.toInt).symm
    · show a.responses.Perm ((s.toClient ++ []).filterMap _)
      rw [List.append_nil]
      exact hR.responses
  | responds t z hu hz hstrand hqueue =>
    obtain ⟨m, seq, rfl⟩ := hS.queue t (hqueue.mem_iff.mpr (List.mem_cons_self ..))
    -- the number is among those of the requests
    have hmem : a.requests.Perm
        (seq.toInt :: (s.toServer.filterMap Message.number ++ inServer server)) := by
      refine hR.requests.trans (List.Perm.trans (List.Perm.append_left _ ?_) List.perm_middle)
      rw [inServer, inServer, hstrand]
      refine List.Perm.trans (List.Perm.append_left _ ?_) List.perm_middle
      exact hqueue.map fun t => t.seq.toInt
    obtain ⟨i, hi, hrest⟩ := exists_dequeue hmem
    have hstep : Rpc.step a (.answer i (some "ok") none (some (paramOf j m))) = some { a with
        requests := a.requests.eraseIdx i
        responses := a.responses ++ [reply j m (onWire seq.toInt)] } := by
      rw [Rpc.step, hi]
      rfl
    refine .steps hstep ⟨hR.client, hR.calls, hR.invoked, hrest, ?_⟩ ⟨rfl, rfl⟩
      (iff_of_true hP ⟨trivial, trivial⟩)
    show (a.responses ++ _).Perm ((s.toClient ++ _).filterMap _)
    rw [List.filterMap_append]
    exact hR.responses.append_right _

theorem getElem?_calls {s : Remote φ} {a : Rpc.System CallBack} (hR : Rel j s a) {i : Nat}
    {c : Call} (hi : s.calls[i]? = some c) : a.calls[i]? = some c.rpc := by
  rw [hR.calls, List.getElem?_map, hi]
  rfl

/-- **Each step is followed** by the machine whose messages are numbers. -/
theorem step_follows (hj : Responds j) {s s' : Remote φ} {a : Rpc.System CallBack} {e : Event φ}
    (hS : Sound w j s) (hR : Rel j s a) (hF : Fair w j s e) (h : s.step w j e = some s') :
    Followed j s' a (InTime j s e) := by
  cases step_moves hj hS hF h with
  | called he cb req ha hmax =>
    have hstep : Rpc.step a (.genSeq (some cb)) = some { a with
        client := { a.client with m_requestSeq := a.client.m_requestSeq + 1 }
        calls := a.calls ++ [⟨a.client.m_requestSeq + 1, some cb, .drawn⟩] } := by
      rw [Rpc.step, BaseClient.genSeq, if_pos (by rw [hR.client]; exact hmax)]
      rfl
    refine .steps hstep ⟨?_, ?_, hR.invoked, hR.requests, hR.responses⟩ rfl
      (iff_of_true he ⟨trivial, trivial⟩)
    · show { a.client with m_requestSeq := a.client.m_requestSeq + 1 } = _
      rw [hR.client]
    · show a.calls ++ [_] = (s.calls ++ [_]).map Call.rpc
      rw [hR.calls, hR.client, List.map_append]
      rfl
  | @sent i z hu seq cb req hi =>
    have hcall := getElem?_calls hR hi
    have hstep : Rpc.step a (.sendData i true) = some { a with
        calls := a.calls.set i ⟨seq, some cb, .sent⟩
        requests := a.requests ++ [onWire seq] } := by
      rw [Rpc.step, hcall]
      rfl
    refine .steps hstep ⟨hR.client, ?_, hR.invoked, ?_, hR.responses⟩ trivial
      (and_congr Iff.rfl ?_)
    · show a.calls.set i _ = (s.calls.set i _).map Call.rpc
      rw [hR.calls, List.map_set]
      rfl
    · show (a.requests ++ _).Perm ((s.toServer ++ _).filterMap Message.number ++ _)
      rw [List.filterMap_append, List.append_assoc]
      refine (hR.requests.append_right _).trans ?_
      rw [List.append_assoc]
      exact List.Perm.append_left _ List.perm_append_comm
    · show (∀ c ∈ s.calls[i]?, Narrow c.seq) ↔ ∀ c ∈ a.calls[i]?, Narrow c.seq
      rw [hi, hcall]
      refine ⟨fun hn c hc => ?_, fun hn c hc => ?_⟩
      · cases hc
        exact hn _ rfl
      · cases hc
        exact hn _ rfl
  | @failed i z seq cb req hi =>
    have hstep : Rpc.step a (.sendData i false) = some { a with
        calls := a.calls.set i ⟨seq, some cb, .returned⟩
        invoked := a.invoked ++ [⟨cb, [], "send error"⟩] } := by
      rw [Rpc.step, getElem?_calls hR hi]
      rfl
    refine .steps hstep ⟨hR.client, ?_, ?_, hR.requests, hR.responses⟩ trivial
      (iff_of_false (fun h => ?_) fun h => ?_)
    · show a.calls.set i _ = (s.calls.set i _).map Call.rpc
      rw [hR.calls, List.map_set]
      rfl
    · show a.invoked ++ _ = s.invoked ++ _
      rw [hR.invoked]
    · cases h.1
    · cases h.1
  | @registered i seq cb req hi =>
    have hstep : Rpc.step a (.register i) = some { a with
        client := a.client.register seq (some cb)
        calls := a.calls.set i ⟨seq, some cb, .returned⟩ } := by
      rw [Rpc.step, getElem?_calls hR hi]
      rfl
    refine .steps hstep ⟨?_, ?_, hR.invoked, hR.requests, hR.responses⟩ trivial
      (iff_of_true trivial ⟨trivial, trivial⟩)
    · show a.client.register seq (some cb) = _
      rw [hR.client]
    · show a.calls.set i _ = (s.calls.set i _).map Call.rpc
      rw [hR.calls, List.map_set]
      rfl
  | clientKeepAlive he bytes hb =>
    refine .stays ⟨hR.client, hR.calls, hR.invoked, ?_, hR.responses⟩ he
    show a.requests.Perm ((s.toServer ++ _).filterMap Message.number ++ _)
    rw [List.filterMap_append]
    exact (List.append_nil (s.toServer.filterMap Message.number)).symm ▸ hR.requests
  | serverKeepAlive he bytes hb =>
    refine .stays ⟨hR.client, hR.calls, hR.invoked, hR.requests, ?_⟩ he
    show a.responses.Perm ((s.toClient ++ _).filterMap (Output.reply j))
    rw [List.filterMap_append]
    exact (List.append_nil (s.toClient.filterMap (Output.reply j))).symm ▸ hR.responses
  | @arrives e he k seq cb req bytes hk server r hr hseq ht hs hq =>
    refine .stays ⟨hR.client, hR.calls, hR.invoked, hR.requests.trans ?_, hR.responses⟩ he
    show (s.toServer.filterMap Message.number ++ inServer s.server).Perm
      ((s.toServer.eraseIdx k).filterMap Message.number ++ inServer server)
    rw [inServer, inServer, hs, hq, List.map_append, List.map_singleton, hseq]
    refine ((filterMap_dequeue Message.number hk).append_right _).trans ?_
    show (onWire seq :: (_ ++ _)).Perm _
    refine List.perm_middle.symm.trans (List.Perm.append_left _ ?_)
    rw [List.append_assoc]
    exact List.perm_middle.symm
  | @keepAliveArrives e he k bytes hk server outs ho ht hs hq =>
    refine .stays ⟨hR.client, hR.calls, hR.invoked, hR.requests.trans ?_, ?_⟩ he
    · show (_ ++ inServer s.server).Perm (_ ++ inServer server)
      rw [inServer, inServer, hs, hq]
      exact (filterMap_dequeue Message.number hk).append_right _
    · show a.responses.Perm ((s.toClient ++ outs).filterMap (Output.reply j))
      rw [List.filterMap_append, filterMap_output ho, List.append_nil]
      exact hR.responses
  | serves he server outs ht hs => exact serves_follows hS hR hs he
  | @received k fuel behind behind' m seq bytes hk t =>
    have hperm := hR.responses.trans (filterMap_dequeue (Output.reply j) hk)
    obtain ⟨i, hi, hrest⟩ := exists_dequeue
      (show a.responses.Perm (reply j m (onWire seq.toInt) :: _) from hperm)
    have hstep : Rpc.step a (.onPackageReceived i) = some { a with
        client := (a.client.onPackageReceived (reply j m (onWire seq.toInt))).1
        responses := a.responses.eraseIdx i
        invoked := a.invoked ++
          (a.client.onPackageReceived (reply j m (onWire seq.toInt))).2.toList } := by
      rw [Rpc.step, hi]
      rfl
    refine .steps hstep ⟨?_, hR.calls, ?_, hR.requests, hrest⟩ trivial
      (Iff.trans ?_ (and_iff_right trivial).symm)
    · show (a.client.onPackageReceived _).1 = (s.client.onPackageReceived _).1
      rw [hR.client]
    · show a.invoked ++ (a.client.onPackageReceived _).2.toList
        = s.invoked ++ (s.client.onPackageReceived _).2.toList
      rw [hR.client, hR.invoked]
    · show (∀ o ∈ s.toClient[k]?, ∀ r ∈ Output.reply j o, ∀ c ∈ s.calls, c.phase = .sent →
          c.seq ≠ r.m_seq) ↔
        ∀ r ∈ a.responses[i]?, ∀ c ∈ a.calls, c.phase = .sent → c.seq ≠ r.m_seq
      rw [hk, hi, hR.calls]
      constructor
      · intro hc r hr c hmem hp
        obtain ⟨c', hc', rfl⟩ := List.mem_map.mp hmem
        cases hr
        exact hc _ rfl _ rfl c' hc' hp
      · intro hc o ho r hr c hmem hp
        cases ho
        cases hr
        exact hc _ rfl c.rpc (List.mem_map_of_mem hmem) hp
  | @keepAliveReceived k fuel behind behind' connection bytes hk t ms hms =>
    refine .stays ⟨hR.client, hR.calls, hR.invoked, ?_, hR.responses.trans ?_⟩ ?_
    · show a.requests.Perm ((s.toServer ++ ms).filterMap Message.number ++ _)
      rw [List.filterMap_append, filterMap_keepAlive hms, List.append_nil]
      exact hR.requests
    · exact filterMap_dequeue (Output.reply j) hk
    · intro o ho r hr
      rw [hk] at ho
      cases ho
      cases hr

/-! ## whose number it is -/

/-- there is a call with this number, for this function -/
def Owned (calls : List Call) (seq : Int) (m : Method) : Prop :=
  Narrow seq ∧ ∃ c ∈ calls, c.seq = seq ∧ c.cb.method = m

/-- the calls that were there are there, perhaps in a later phase -/
def Kept (calls calls' : List Call) : Prop := ∀ c ∈ calls, ∃ d ∈ calls', d.seq = c.seq ∧ d.cb = c.cb

theorem Kept.owned {calls calls' : List Call} (h : Kept calls calls') {seq : Int} {m : Method}
    (ho : Owned calls seq m) : Owned calls' seq m := by
  obtain ⟨hn, c, hc, hseq, hm⟩ := ho
  obtain ⟨d, hd, hdseq, hdcb⟩ := h c hc
  exact ⟨hn, d, hd, hdseq.trans hseq, (congrArg CallBack.method hdcb).trans hm⟩

theorem kept_append (calls calls' : List Call) : Kept calls (calls ++ calls') := fun c hc =>
  ⟨c, List.mem_append_left _ hc, rfl, rfl⟩

theorem kept_set {calls : List Call} {i : Nat} {c d : Call} (hi : calls[i]? = some c)
    (hseq : d.seq = c.seq) (hcb : d.cb = c.cb) : Kept calls (calls.set i d) := by
  intro x hx
  obtain ⟨k, hk⟩ := List.mem_iff_getElem?.mp hx
  by_cases hki : i = k
  · obtain rfl := hki
    obtain rfl : c = x := Option.some.inj (hi.symm.trans hk)
    refine ⟨d, List.mem_iff_getElem?.mpr ⟨i, ?_⟩, hseq, hcb⟩
    rw [List.getElem?_set_self (List.getElem?_eq_some_iff.mp hk).1]
  · refine ⟨x, List.mem_iff_getElem?.mpr ⟨k, ?_⟩, rfl, rfl⟩
    rw [List.getElem?_set_ne hki, hk]

/-- what a callback of the client is to be called with, and what it is called with when its request
is not sent -/
def result (cb : CallBack) : Answer := ⟨cb, cb.method.text, ""⟩

def refusal (cb : CallBack) : Answer := ⟨cb, [], "send error"⟩

/-- a request, a response, is for the function that the call of its number is for -/
def OwnsMessage (calls : List Call) : Message → Prop
  | .request seq cb _ _ => Owned calls seq cb.method
  | .keepAlive _ => True

def OwnsOutput (calls : List Call) : Output → Prop
  | .response t _ => Owned calls t.seq.toInt t.method
  | .keepAlive _ _ => True

theorem Kept.message {calls calls' : List Call} (h : Kept calls calls') :
    ∀ {m : Message}, OwnsMessage calls m → OwnsMessage calls' m
  | .request .., ho => h.owned ho
  | .keepAlive _, _ => trivial

theorem Kept.output {calls calls' : List Call} (h : Kept calls calls') :
    ∀ {o : Output}, OwnsOutput calls o → OwnsOutput calls' o
  | .response .., ho => h.owned ho
  | .keepAlive .., _ => trivial

/-- a number stands for the same function wherever it is found; the callbacks were called with what
their functions answer, or as `A` allows -/
structure Matched (A : CallBack → Answer → Prop) (s : Remote φ) : Prop where
  filed : ∀ q cb, s.client.m_CBs.lookup q = some cb → ∃ c ∈ s.calls, c.seq = q ∧ c.cb = cb
  toServer : ∀ m ∈ s.toServer, OwnsMessage s.calls m
  strand : ∀ r ∈ strand s.server, ∃ m : Method, r.func = m.name ∧ Owned s.calls r.seq.toInt m
  queue : ∀ t ∈ queue s.server, Owned s.calls t.seq.toInt t.method
  toClient : ∀ o ∈ s.toClient, OwnsOutput s.calls o
  called : s.answers.map Answer.cb = s.invoked.map Invocation.cb
  answers : ∀ a ∈ s.answers, a = result a.cb ∨ A a.cb a

section
variable {A : CallBack → Answer → Prop}

theorem matched_start : Matched A (start : Remote φ) where
  filed := fun q cb h => by cases h
  toServer := List.forall_mem_nil _
  strand := List.forall_mem_nil _
  queue := List.forall_mem_nil _
  toClient := List.forall_mem_nil _
  called := rfl
  answers := List.forall_mem_nil _

/-- the calls go on, and nothing else happens -/
theorem Matched.kept {s : Remote φ} (hM : Matched A s) {calls : List Call}
    (h : Kept s.calls calls) : Matched A { s with calls } where
  filed := fun q cb hq => by
    obtain ⟨c, hc, hseq, hcb⟩ := hM.filed q cb hq
    obtain ⟨d, hd, hdseq, hdcb⟩ := h c hc
    exact ⟨d, hd, hdseq.trans hseq, hdcb.trans hcb⟩
  toServer := fun m hm => h.message (hM.toServer m hm)
  strand := fun r hr => by
    obtain ⟨m, hm, ho⟩ := hM.strand r hr
    exact ⟨m, hm, h.owned ho⟩
  queue := fun t ht => h.owned (hM.queue t ht)
  toClient := fun o ho => h.output (hM.toClient o ho)
  called := hM.called
  answers := hM.answers

/-- the number that is sent has 36 bits -/
def Narrows (s : Remote φ) : Event φ → Prop
  | .sendData i _ ok => ok = true → ∀ c ∈ s.calls[i]?, Narrow c.seq
  | _ => True

/-- a request that is not sent calls its callback as `A` allows -/
def Fails (A : CallBack → Answer → Prop) : Event φ → Prop
  | .sendData _ _ ok => ok = false → ∀ cb, A cb (refusal cb)
  | _ => True

/-- calls of one number are for one function -/
def Distinct (s : Remote φ) : Prop := ∀ c ∈ s.calls, ∀ d ∈ s.calls, c.seq = d.seq → c.cb = d.cb

theorem Method.name_inj {m n : Method} (h : m.name = n.name) : m = n := by
  have hofs := Method.ofName_name m
  rw [h, Method.ofName_name] at hofs
  exact (Option.some.inj hofs).symm

/-- the server does something for the client -/
theorem matched_serves {s : Remote φ} (hM : Matched A s) {server : Service φ} {outs : List Output}
    (hs : Serves w j s.server server outs) :
    Matched A { s with server, toClient := s.toClient ++ outs } := by
  cases hs with
  | idle hstrand hqueue =>
    refine ⟨hM.filed, hM.toServer, hstrand ▸ hM.strand, hqueue ▸ hM.queue, fun o ho => ?_,
      hM.called, hM.answers⟩
    exact hM.toClient o (List.append_nil s.toClient ▸ ho)
  | handles r rs m hr hm hstrand hqueue =>
    refine ⟨hM.filed, hM.toServer, fun x hx => hM.strand x ?_, fun t ht => ?_, fun o ho => ?_,
      hM.called, hM.answers⟩
    · rw [hr]
      exact List.mem_cons_of_mem r (hstrand ▸ hx)
    · rcases List.mem_cons.mp (hqueue.mem_iff.mp ht) with rfl | ht
      · obtain ⟨n, hn, ho⟩ := hM.strand r (hr ▸ List.mem_cons_self ..)
        obtain rfl := Method.name_inj (hm.symm.trans hn)
        exact ho
      · exact hM.queue t ht
    · exact hM.toClient o (List.append_nil s.toClient ▸ ho)
  | responds t z hu hz hstrand hqueue =>
    refine ⟨hM.filed, hM.toServer, hstrand ▸ hM.strand, fun x hx => ?_, ?_, hM.called,
      hM.answers⟩
    · exact hM.queue x (hqueue.mem_iff.mpr (List.mem_cons_of_mem t hx))
    · refine forall_mem_concat hM.toClient ?_
      exact hM.queue t (hqueue.mem_iff.mpr (List.mem_cons_self ..))

/-- a response is received: the callback that is filed is for the function that answered -/
theorem matched_received (hj : Responds j) {s : Remote φ} (hM : Matched A s) (hD : Distinct s)
    {behind' : ByteArray} {m : Method} {seq : BitVec 64} (ho : Owned s.calls seq.toInt m) :
    Matched A (s.receives j behind' (reply j m (onWire seq.toInt))) := by
  obtain ⟨hn, c, hc, hseq, hm⟩ := ho
  rw [onWire_self hn]
  cases hl : s.client.m_CBs.lookup seq.toInt with
  | none =>
    have hnone : s.client.onPackageReceived (reply j m seq.toInt) = (s.client, none) := by
      simp only [BaseClient.onPackageReceived, reply, hl]
    refine ⟨?_, hM.toServer, hM.strand, hM.queue, hM.toClient, ?_, ?_⟩
    · show ∀ q cb, (s.client.onPackageReceived _).1.m_CBs.lookup q = some cb → _
      rw [hnone]
      exact hM.filed
    · show (s.answers ++ (s.client.onPackageReceived _).2.toList.map _).map _
        = (s.invoked ++ (s.client.onPackageReceived _).2.toList).map _
      rw [hnone]
      show (s.answers ++ []).map _ = (s.invoked ++ []).map _
      rw [List.append_nil, List.append_nil]
      exact hM.called
    · show ∀ a ∈ s.answers ++ (s.client.onPackageReceived _).2.toList.map _, _
      rw [hnone]
      exact fun a ha => hM.answers a (List.append_nil s.answers ▸ ha)
  | some cb =>
    obtain ⟨d, hd, hdseq, hdcb⟩ := hM.filed _ cb hl
    have hcb : c.cb = cb := (hD c hc d hd (hseq.trans hdseq.symm)).trans hdcb
    have hsome : s.client.onPackageReceived (reply j m seq.toInt) =
        ({ s.client with m_CBs := s.client.m_CBs.erase seq.toInt },
          some ⟨cb, paramOf j m, ""⟩) := by
      simp only [BaseClient.onPackageReceived, reply, hl, Option.getD_none]
    refine ⟨fun q x => ?_, hM.toServer, hM.strand, hM.queue, hM.toClient, ?_, ?_⟩
    · show (s.client.onPackageReceived _).1.m_CBs.lookup q = some x → _
      rw [hsome]
      intro hx
      have hne : q ≠ seq.toInt := fun he => by
        rw [he, AList.lookup_erase] at hx
        cases hx
      exact hM.filed q x ((AList.lookup_erase_ne hne).symm.trans hx)
    · show (s.answers ++ (s.client.onPackageReceived _).2.toList.map _).map _
        = (s.invoked ++ (s.client.onPackageReceived _).2.toList).map _
      rw [hsome, List.map_append, List.map_append, hM.called]
      rfl
    · show ∀ a ∈ s.answers ++ (s.client.onPackageReceived _).2.toList.map _, _
      rw [hsome]
      refine forall_mem_concat hM.answers (.inl ?_)
      show Invocation.answer j behind' ⟨cb, paramOf j m, ""⟩ = _
      rw [reply_answer hj m behind' cb, ← hm, hcb]
      rfl

theorem matched_step (hj : Responds j) {s s' : Remote φ} {e : Event φ} (hS : Sound w j s)
    (hM : Matched A s) (hD : Distinct s) (hF : Fair w j s e) (hN : Narrows s e) (hA : Fails A e)
    (h : s.step w j e = some s') : Matched A s' := by
  cases step_moves hj hS hF h with
  | called he cb req ha hmax =>
    have hK := hM.kept (kept_append s.calls [⟨s.client.m_requestSeq + 1, cb, req, .drawn⟩])
    exact ⟨hK.filed, hK.toServer, hK.strand, hK.queue, hK.toClient, hK.called,
      hK.answers⟩
  | sent hu seq cb req hi =>
    have hK := hM.kept (kept_set (d := ⟨seq, cb, req, .sent⟩) hi rfl rfl)
    refine ⟨hK.filed, forall_mem_concat hK.toServer ?_, hK.strand, hK.queue, hK.toClient, hK.called,
      hK.answers⟩
    obtain ⟨d, hd, hseq, hcb⟩ := kept_set (d := ⟨seq, cb, req, .sent⟩) hi rfl rfl _
      (List.mem_of_getElem? hi)
    exact ⟨hN rfl _ hi, d, hd, hseq, congrArg CallBack.method hcb⟩
  | failed seq cb req hi =>
    have hK := hM.kept (kept_set (d := ⟨seq, cb, req, .returned⟩) hi rfl rfl)
    refine ⟨hK.filed, hK.toServer, hK.strand, hK.queue, hK.toClient, ?_, ?_⟩
    · show (s.answers ++ [_]).map _ = (s.invoked ++ [_]).map _
      rw [List.map_append, List.map_append, hM.called]
      rfl
    · exact forall_mem_concat hM.answers (.inr (hA rfl cb))
  | registered seq cb req hi =>
    have hK := hM.kept (kept_set (d := ⟨seq, cb, req, .returned⟩) hi rfl rfl)
    refine ⟨fun q x hq => ?_, hK.toServer, hK.strand, hK.queue, hK.toClient, hK.called,
      hK.answers⟩
    by_cases hqs : q = seq
    · have hx : some cb = some x := by
        rw [← hq, hqs]
        exact (AList.lookup_insert s.client.m_CBs).symm
      obtain ⟨d, hd, hseq, hcb⟩ := kept_set (d := ⟨seq, cb, req, .returned⟩) hi rfl rfl _
        (List.mem_of_getElem? hi)
      exact ⟨d, hd, hseq.trans hqs.symm, hcb.trans (Option.some.inj hx)⟩
    · exact hK.filed q x ((AList.lookup_insert_ne hqs).symm.trans hq)
  | clientKeepAlive he bytes hb =>
    exact ⟨hM.filed, forall_mem_concat hM.toServer trivial, hM.strand, hM.queue, hM.toClient, hM.called,
      hM.answers⟩
  | serverKeepAlive he bytes hb =>
    exact ⟨hM.filed, hM.toServer, hM.strand, hM.queue, forall_mem_concat hM.toClient trivial,
      hM.called, hM.answers⟩
  | arrives he seq cb req bytes hk server r hr hseq ht hs hq =>
    have ho : Owned s.calls seq cb.method := hM.toServer _ (List.mem_of_getElem? hk)
    refine ⟨hM.filed, forall_mem_eraseIdx hM.toServer, ?_, ?_, hM.toClient, hM.called,
      hM.answers⟩
    · show ∀ x ∈ Remote.strand server, _
      rw [hs]
      refine forall_mem_concat hM.strand ⟨cb.method, hr, ?_⟩
      rw [hseq, onWire_self ho.1]
      exact ho
    · show ∀ t ∈ Remote.queue server, _
      rw [hq]
      exact hM.queue
  | keepAliveArrives he bytes hk server outs ho ht hs hq =>
    refine ⟨hM.filed, forall_mem_eraseIdx hM.toServer, ?_, ?_, fun o hmem => ?_, hM.called,
      hM.answers⟩
    · show ∀ x ∈ Remote.strand server, _
      rw [hs]
      exact hM.strand
    · show ∀ t ∈ Remote.queue server, _
      rw [hq]
      exact hM.queue
    · rcases List.mem_append.mp hmem with hmem | hmem
      · exact hM.toClient o hmem
      · obtain ⟨bytes, rfl, -⟩ := ho o hmem
        exact trivial
  | serves he server outs ht hs => exact matched_serves hM hs
  | @received k fuel behind behind' m seq bytes hk t =>
    have ho : Owned s.calls seq.toInt m := hM.toClient _ (List.mem_of_getElem? hk)
    have hrest : Matched A { s with toClient := s.toClient.eraseIdx k, m_compressType := t } :=
      ⟨hM.filed, hM.toServer, hM.strand, hM.queue, forall_mem_eraseIdx hM.toClient, hM.called,
        hM.answers⟩
    exact matched_received hj hrest hD ho
  | keepAliveReceived connection bytes hk t ms hms =>
    refine ⟨hM.filed, fun m hmem => ?_, hM.strand, hM.queue, forall_mem_eraseIdx hM.toClient, hM.called,
      hM.answers⟩
    rcases List.mem_append.mp hmem with hmem | hmem
    · exact hM.toServer m hmem
    · obtain ⟨bytes, rfl, -⟩ := hms m hmem
      exact trivial

end

/-! ## the errors -/

/-- the callback of a request that this step does not send -/
def refused (s : Remote φ) : Event φ → List CallBack
  | .sendData i _ false => (s.calls[i]?).toList.map Call.cb
  | _ => []

/-- what callbacks were called with for an error -/
def errors (s : Remote φ) : List Answer := s.answers.filter fun a => a.error ≠ ""

theorem errors_append (s : Remote φ) (as : List Answer) :
    errors { s with answers := s.answers ++ as } = errors s ++ as.filter fun a => a.error ≠ "" :=
  List.filter_append ..

theorem refused_inTime {s : Remote φ} {e : Event φ} (h : InTime j s e) : refused s e = [] := by
  cases e with
  | sendData i z ok =>
    obtain rfl : ok = true := h.1
    rfl
  | _ => rfl

/-- a response brings no error -/
theorem no_error (s : Remote φ) (behind' : ByteArray) (m : Method) (seq : Int) :
    ((s.client.onPackageReceived (reply j m seq)).2.toList.map fun i => i.answer j behind').filter
      (fun a => a.error ≠ "") = [] := by
  refine List.filter_eq_nil_iff.mpr fun a ha => ?_
  obtain ⟨i, hi, rfl⟩ := List.mem_map.mp ha
  rw [Option.mem_toList] at hi
  cases hl : s.client.m_CBs.lookup seq with
  | none =>
    simp only [BaseClient.onPackageReceived, reply, hl] at hi
    cases hi
  | some cb =>
    simp only [BaseClient.onPackageReceived, reply, hl, Option.getD_none] at hi
    cases hi
    exact of_decide_eq_true rfl

/-- **The callbacks called for an error are those of the requests that were not sent.** -/
theorem step_errors (hj : Responds j) {s s' : Remote φ} {e : Event φ} (hS : Sound w j s)
    (hF : Fair w j s e) (h : s.step w j e = some s') :
    errors s' = errors s ++ (refused s e).map refusal := by
  -- a step that is in time refuses nothing
  have hnone : ∀ {t : Remote φ}, InTime j s e → t.answers = s.answers →
      errors t = errors s ++ (refused s e).map refusal := fun {t} he ht => by
    rw [refused_inTime he, List.map_nil, List.append_nil, errors, ht, errors]
  cases step_moves hj hS hF h with
  | called he => exact hnone he rfl
  | sent => exact (List.append_nil _).symm
  | failed seq cb req hi =>
    rw [refused, hi]
    exact errors_append s [refusal cb]
  | registered => exact (List.append_nil _).symm
  | clientKeepAlive he => exact hnone he rfl
  | serverKeepAlive he => exact hnone he rfl
  | arrives he => exact hnone he rfl
  | keepAliveArrives he => exact hnone he rfl
  | serves he => exact hnone he rfl
  | received m seq bytes hk t =>
    refine (errors_append s _).trans ?_
    exact congrArg (errors s ++ ·) (no_error s _ m _)
  | keepAliveReceived => exact (List.append_nil _).symm

/-! ## runs -/

/-- a state and one of numbers with its books -/
def Booked (w : Platform) (j : Json) (s : Remote φ) (a : Rpc.System CallBack) : Prop :=
  Sound w j s ∧ Rel j s a ∧ Rpc.Ledger a

theorem booked_step (hj : Responds j) (s : Remote φ) (a : Rpc.System CallBack) (e : Event φ)
    (s' : Remote φ) (hB : Booked w j s a) (hF : Fair w j s e) (h : s.step w j e = some s') :
    Follows Rpc.step (Booked w j) Answered (fun a e => Sends e ∧ Rpc.InTime a e) s' a
      (InTime j s e) := by
  obtain ⟨hS, hR, hL⟩ := hB
  obtain ⟨ds, a', hd, hR', hA, hP⟩ := step_follows hj hS hR hF h
  have hL' : Rpc.Ledger a' :=
    run_keeps Rpc.Ledger (fun _ _ _ hL hs => Rpc.ledger_step hL hs) hL hd
  exact ⟨ds, a', hd, ⟨sound_step hj hS hF h, hR', hL'⟩, hA, hP⟩

/-- **A run is followed**, and comes in time when the one that follows it does. -/
theorem run_follows (hj : Responds j) {es : List (Event φ)} {s : Remote φ}
    (hF : Along (step w j) (Fair w j) start es) (h : run (step w j) start es = some s) :
    Follows Rpc.step (Booked w j) Answered (fun a e => Sends e ∧ Rpc.InTime a e) s Rpc.start
      (Along (step w j) (InTime j) start es) :=
  run_simulates (Booked w j) (booked_step hj) ⟨sound_start, rel_start, Rpc.ledger_start⟩ hF h

theorem Booked.distinct {s : Remote φ} {a : Rpc.System CallBack} (hB : Booked w j s a) :
    Distinct s := by
  obtain ⟨-, hR, hL⟩ := hB
  intro c hc d hd he
  have hmem : ∀ x ∈ s.calls, x.rpc ∈ a.calls := fun x hx => by
    rw [hR.calls]
    exact List.mem_map_of_mem hx
  have hrpc : c.rpc = d.rpc := hL.numbered.unique (hmem c hc) (hmem d hd) he
  exact Option.some.inj (congrArg Rpc.Call.cb hrpc)

/-- what every state has that a fair run reaches, when the numbers that are sent have 36 bits -/
theorem run_matched (hj : Responds j) {A : CallBack → Answer → Prop} {es : List (Event φ)}
    {s : Remote φ} (hF : Along (step w j) (Fair w j) start es)
    (hN : Along (step w j) Narrows start es) (hA : Along (step w j) (fun _ e => Fails A e) start es)
    (h : run (step w j) start es = some s) : (∃ a, Booked w j s a) ∧ Matched A s := by
  refine run_inv (fun s => (∃ a, Booked w j s a) ∧ Matched A s) ?_
    ⟨⟨_, sound_start, rel_start, Rpc.ledger_start⟩, matched_start⟩
    (along_and hF (along_and hN hA)) h
  rintro s e s' ⟨⟨a, hB⟩, hM⟩ ⟨hF, hN, hA⟩ hs
  obtain ⟨-, a', -, hB', -⟩ := booked_step hj s a e s' hB hF hs
  exact ⟨⟨a', hB'⟩, matched_step hj hB.1 hM hB.distinct hF hN hA hs⟩

theorem inTime_narrows {s : Remote φ} {e : Event φ} (h : InTime j s e) : Narrows s e := by
  cases e with
  | sendData i z ok => exact fun _ => h.2
  | _ => trivial

theorem inTime_sends {s : Remote φ} {e : Event φ} (h : InTime j s e) :
    Fails (fun _ _ => False) e := by
  cases e with
  | sendData i z ok =>
    intro hno
    rw [h.1] at hno
    cases hno
  | _ => trivial

theorem fails_refusal (e : Event φ) : Fails (fun cb a => a = refusal cb) e := by
  cases e with
  | sendData i z ok => exact fun _ _ => rfl
  | _ => trivial

theorem along_narrows {s : Remote φ} {es : List (Event φ)} (h : Along (step w j) (InTime j) s es) :
    Along (step w j) Narrows s es :=
  along_mono (fun _ _ => inTime_narrows) h

theorem calls_callbacks {s : Remote φ} {a : Rpc.System CallBack} (hR : Rel j s a) :
    a.calls.filterMap Rpc.Call.cb = s.calls.map Call.cb := by
  rw [hR.calls, List.filterMap_map]
  exact congrFun (List.filterMap_eq_map (f := Call.cb)) s.calls

/-- each callback was called as often as it was passed at most, and with its own answer or refusal -/
def Matching (s : Remote φ) : Prop :=
  (s.answers.map Answer.cb).Subperm (s.calls.map Call.cb) ∧
    ∀ a ∈ s.answers, a = result a.cb ∨ a = refusal a.cb

theorem run_matching (hj : Responds j) {es : List (Event φ)} {s : Remote φ}
    (hF : Along (step w j) (Fair w j) start es) (hN : Along (step w j) Narrows start es)
    (h : run (step w j) start es = some s) : Matching s := by
  obtain ⟨⟨a, -, hR, hL⟩, hM⟩ :=
    run_matched hj hF hN (along_events start fun e _ => fails_refusal e) h
  refine ⟨?_, hM.answers⟩
  have hbooks := hL.accounts
  rw [calls_callbacks hR, hR.invoked, ← hM.called] at hbooks
  exact (List.sublist_append_left _ _).subperm.trans hbooks.subperm

theorem run_errors (hj : Responds j) {es : List (Event φ)} {s : Remote φ}
    (hF : Along (step w j) (Fair w j) start es) (h : run (step w j) start es = some s) :
    errors s = (Machine.collect (step w j) refused start es).map refusal := by
  have h0 : Sound w j (start : Remote φ) ∧ errors (start : Remote φ) = List.map refusal [] :=
    ⟨sound_start, rfl⟩
  refine (run_collect (fun s xs => Sound w j s ∧ errors s = xs.map refusal) ?_ h0 hF h).2
  rintro s e s' xs ⟨hS, hxs⟩ hF hs
  refine ⟨sound_step hj hS hF hs, ?_⟩
  rw [step_errors hj hS hF hs, hxs, List.map_append]

/-- no request and no response is on its way, and every call has returned -/
def Quiet (j : Json) (s : Remote φ) : Prop :=
  s.toServer.filterMap Message.number = [] ∧ inServer s.server = [] ∧
    s.toClient.filterMap (Output.reply j) = [] ∧ ∀ c ∈ s.calls, c.phase = .returned

instance (s : Remote φ) : Decidable (Quiet j s) := inferInstanceAs
  (Decidable (_ = _ ∧ _ = _ ∧ s.toClient.filterMap (Output.reply j) = [] ∧ _))

theorem quiet_follows {s : Remote φ} {a : Rpc.System CallBack} (hR : Rel j s a) (hq : Quiet j s) :
    Rpc.Quiet a := by
  obtain ⟨hsent, hserver, hback, hreturned⟩ := hq
  refine ⟨?_, ?_, fun c hc => ?_⟩
  · have hperm := hR.requests
    rw [hsent, hserver] at hperm
    exact hperm.eq_nil
  · have hperm := hR.responses
    rw [hback] at hperm
    exact hperm.eq_nil
  · rw [hR.calls] at hc
    obtain ⟨x, hx, rfl⟩ := List.mem_map.mp hc
    exact hreturned x hx

/-- all callbacks were called, each once and with its own answer -/
def Returned (s : Remote φ) : Prop :=
  s.client.m_CBs.entries = [] ∧ s.answers.Perm (s.calls.map fun c => result c.cb)

theorem run_returned (hj : Responds j) {es : List (Event φ)} {s : Remote φ}
    (hF : Along (step w j) (Fair w j) start es) (hI : Along (step w j) (InTime j) start es)
    (h : run (step w j) start es = some s) (hq : Quiet j s) : Returned s := by
  obtain ⟨ds, a, hrun, ⟨-, hR, hL⟩, hA, hP⟩ := run_follows hj hF h
  have hin := hP.mp hI
  have hasked : ∀ d ∈ ds, Rpc.Asked d := fun d hd =>
    asked_of_sends (hA d hd) (along_forall (along_mono (fun _ _ => And.left) hin) hrun d hd)
  obtain ⟨-, -, hT⟩ := Rpc.run_onTime hasked (along_mono (fun _ _ => And.right) hin) hrun
  obtain ⟨hempty, hperm⟩ := Rpc.delivered_of_onTime hL hT (quiet_follows hR hq)
  obtain ⟨-, hM⟩ := run_matched hj hF (along_narrows hI)
    (along_mono (fun _ _ => inTime_sends) hI) h
  have hall : (s.answers.map Answer.cb).map result = s.answers := by
    rw [List.map_map]
    refine (List.map_congr_left fun a ha => ?_).trans (List.map_id' _)
    exact ((hM.answers a ha).resolve_right id).symm
  rw [calls_callbacks hR, hR.invoked, ← hM.called] at hperm
  rw [hR.client] at hempty
  have hcalled := hperm.map result
  rw [hall, List.map_map] at hcalled
  exact ⟨hempty, hcalled⟩

instance (s : Remote φ) : (e : Event φ) → Decidable (InTime j s e)
  | .sendData i _ ok => inferInstanceAs (Decidable (ok = true ∧ ∀ c ∈ s.calls[i]?, Narrow c.seq))
  | .onPackageReceived k _ _ _ => inferInstanceAs (Decidable (∀ o ∈ s.toClient[k]?,
    ∀ r ∈ Output.reply j o, ∀ c ∈ s.calls, c.phase = .sent → c.seq ≠ r.m_seq))
  | ._stat .. => .isTrue trivial
  | ._test _ => .isTrue trivial
  | .register _ => .isTrue trivial
  | .clientKeepAlive => .isTrue trivial
  | .serverKeepAlive => .isTrue trivial
  | .arrives .. => .isTrue trivial
  | .server _ => .isTrue trivial

instance (s : Remote φ) : (e : Event φ) → Decidable (Narrows s e)
  | .sendData i _ ok => inferInstanceAs (Decidable (ok = true → ∀ c ∈ s.calls[i]?, Narrow c.seq))
  | ._stat .. => .isTrue trivial
  | ._test _ => .isTrue trivial
  | .register _ => .isTrue trivial
  | .clientKeepAlive => .isTrue trivial
  | .serverKeepAlive => .isTrue trivial
  | .arrives .. => .isTrue trivial
  | .server _ => .isTrue trivial
  | .onPackageReceived .. => .isTrue trivial

/-- `{"resp":"this is the response of doSomething"}` and a newline -/
def statResponseParamText : ByteArray :=
  [0x7b, 0x22, 0x72, 0x65, 0x73, 0x70, 0x22, 0x3a, 0x22] ++ kDoSomething ++ [0x22, 0x7d, 0x0a]

/-- `{"status":"ok","param":{"resp":"this is the response of doSomething"}}` and a newline -/
def statResponseText : ByteArray :=
  [0x7b, 0x22, 0x73, 0x74, 0x61, 0x74, 0x75, 0x73, 0x22, 0x3a, 0x22, 0x6f, 0x6b, 0x22, 0x2c, 0x22,
   0x70, 0x61, 0x72, 0x61, 0x6d, 0x22, 0x3a, 0x7b, 0x22, 0x72, 0x65, 0x73, 0x70, 0x22, 0x3a, 0x22] ++
    kDoSomething ++ [0x22, 0x7d, 0x7d, 0x0a]

/-- a helper that knows the request and both responses -/
def remoteJson : Json :=
  .of [(testFunc.put_child kParam testParam, testText), (testParam, testParamText),
    (responseTree .test, Service.testResponseText),
    (responseParam .test, Service.testResponseParamText),
    (responseTree .stat, statResponseText), (responseParam .stat, statResponseParamText)]
    (by decide)

/-- the zlib stream of `Service.testResponseText` -/
def streamTestResponse : ByteArray :=
  [0x78, 0x9c, 0xab, 0x56, 0x2a, 0x2e, 0x49, 0x2c, 0x29, 0x2d, 0x56, 0xb2, 0x52, 0xca, 0xcf, 0x56,
   0xd2, 0x51, 0x2a, 0x48, 0x2c, 0x4a, 0xcc, 0x55, 0xb2, 0xaa, 0x56, 0x2a, 0x4a, 0x2d, 0x2e, 0x00,
   0x0a, 0x96, 0x64, 0x64, 0x16, 0x2b, 0x00, 0x11, 0x88, 0x9b, 0x9f, 0x57, 0x9c, 0xaa, 0x90, 0x9f,
   0xa6, 0x50, 0x92, 0x5a, 0x5c, 0xa2, 0x54, 0x5b, 0xcb, 0x05, 0x00, 0x6a, 0xc5, 0x14, 0x8a]

def remotePlatform : Platform :=
  { lettersPlatform with inflate := .one streamTestResponse Service.testResponseText (by decide) }

theorem remoteJson_responds : Responds remoteJson := by
  intro m
  cases m <;> exact ⟨⟨_, rfl, rfl⟩, _, rfl, rfl⟩

/-- the request goes as it is, and the response compressed -/
def testRun : List (Event Unit) :=
  [._test 7, .sendData 0 .noMemory true, .register 0, .arrives 0 0 [0],
    .server (.onRequest [] (fun _ => helloEvent) (fun _ => helloEvent)),
    .server (.io 0 (.one Service.testResponseText streamTestResponse)),
    .onPackageReceived 0 9 [0] []]

/-- a request that is not sent, and then one that is -/
def refusedRun : List (Event Unit) :=
  [._test 7, .sendData 0 .noMemory false, ._test 7, .sendData 1 .noMemory true, .register 1] ++
    testRun.drop 3

/-- the response that runs is one to a request for `test` -/
def answersTest (s : Remote φ) : Event φ → Bool
  | .server (.io i _) =>
    (s.server.m_io[i]?).all fun t => (t.resp, t.status) = (kResponseOfTest, kOk)
  | _ => true

theorem testResponse_fair {s : Remote Unit} (hs : answersTest s (.server
      (.io 0 (.one Service.testResponseText streamTestResponse))) = true) :
    Fair remotePlatform remoteJson s (.server
      (.io 0 (.one Service.testResponseText streamTestResponse))) := by
  refine ⟨undoes_one streamTestResponse Service.testResponseText (by decide), fun t ht _ => ?_⟩
  have hpair : (t.resp, t.status) = (kResponseOfTest, kOk) :=
    of_decide_eq_true (Option.all_eq_true _ _ |>.mp hs t ht)
  obtain ⟨hresp, hstatus⟩ := Prod.mk.inj hpair
  rw [hresp, hstatus]
  decide +kernel

theorem event_fair (e : Event Unit) (he : e ∈ testRun ++ refusedRun) (s : Remote Unit)
    (hs : answersTest s e = true) : Fair remotePlatform remoteJson s e := by
  simp only [testRun, refusedRun, List.drop_succ_cons, List.drop_zero, List.cons_append,
    List.nil_append, List.mem_cons, List.not_mem_nil, or_false] at he
  cases e with
  | _stat => simp at he
  | _test id =>
    obtain rfl : id = 7 := by simpa using he
    exact ⟨⟨_, rfl, rfl⟩, _, rfl, rfl⟩
  | sendData i z ok =>
    obtain rfl : z = .noMemory := by grind
    exact undoes_noMemory _
  | register => exact trivial
  | clientKeepAlive => exact trivial
  | serverKeepAlive => exact trivial
  | arrives k fuel behind =>
    obtain rfl : behind = [0] := by grind
    exact rfl
  | server e =>
    have he : e = .onRequest [] (fun _ => helloEvent) (fun _ => helloEvent) ∨
        e = .io 0 (.one Service.testResponseText streamTestResponse) := by grind
    rcases he with rfl | rfl
    · exact trivial
    · exact testResponse_fair hs
  | onPackageReceived k fuel behind behind' =>
    obtain rfl : behind = [0] := by grind
    exact rfl

theorem along_fair {es : List (Event Unit)} (hes : ∀ e ∈ es, e ∈ testRun ++ refusedRun)
    (h : Along (step remotePlatform remoteJson) (fun s e => answersTest s e = true) start es) :
    Along (step remotePlatform remoteJson) (Fair remotePlatform remoteJson) start es :=
  along_mono (fun s e h => event_fair e h.2 s h.1) (along_and h (along_events start hes))

theorem testRun_fair : Along (step remotePlatform remoteJson) (Fair remotePlatform remoteJson) start
    testRun :=
  along_fair (fun _ => List.mem_append_left _) (by decide +kernel)

theorem refusedRun_fair : Along (step remotePlatform remoteJson) (Fair remotePlatform remoteJson)
    start refusedRun :=
  along_fair (fun _ => List.mem_append_right _) (by decide +kernel)

theorem testRun_inTime :
    Along (step remotePlatform remoteJson) (InTime remoteJson) start testRun := by
  decide +kernel

/-- the callback is called with the text of the function -/
theorem testRun_ends : ∃ s, run (step remotePlatform remoteJson) start testRun = some s ∧
    s.answers = [⟨.onTest, kResponseOfTest, ""⟩] ∧ Quiet remoteJson s := by
  have hrun : (run (step remotePlatform remoteJson) start testRun).any (fun s =>
      decide (s.answers = [⟨.onTest, kResponseOfTest, ""⟩] ∧ Quiet remoteJson s)) = true := by
    decide +kernel
  obtain ⟨s, h, hs⟩ := Option.any_eq_true _ _ |>.mp hrun
  exact ⟨s, h, of_decide_eq_true hs⟩

end Remote

end Netwb
