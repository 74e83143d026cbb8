import Netwb.Sample.Wired

/-!
# Results over two connections

What holds of the runs of `Remote`, where messages travel by themselves, holds when they go through
two connections as bytes.

* `answers_through_streams`  no callback is called more often than it was passed, and each time with
                             the answer of its function or, when `sendData` refused its request,
                             with that error;
* `returns_through_streams`  when both connections are at rest and no response came too early, each
                             was called once.
-/

namespace Netwb
open Wire Machine

namespace Wired
variable {φ : Type} {p : Prop} {w : Platform} {j : Json}

/-- a state, and one of `Remote` with the messages that are on their way, which can all be read -/
def Booked (w : Platform) (j : Json) (p : Prop) (s : Wired φ) (r : Remote φ) : Prop :=
  Rel p s r ∧ Remote.Sound w j r

/-- a condition that agrees with one of `Remote` is carried over -/
theorem Followed.follows (hj : Remote.Responds j) {s s' : Wired φ} {r : Remote φ} {e : Event φ}
    (hS : Remote.Sound w j r) (h : Followed w j p s e s' r) {P : Prop}
    {Q : Remote φ → Remote.Event φ → Prop} (h0 : s.Narrows w e → s.InTime w e → P)
    (h1 : ∀ d, (s.Narrows w e ↔ Remote.Narrows r d) → (s.InTime w e ↔ Remote.InTime j r d) →
      (P ↔ Q r d)) :
    Follows (Remote.step w j) (Booked w j p) (fun _ => True)
      (fun r d => Remote.Fair w j r d ∧ Q r d) s' r P := by
  cases h with
  | stays hR hN hI hr => exact .stays ⟨hR, hS⟩ (h0 hN hI)
  | steps d r' h hR hF hN hI hr =>
    exact .steps h ⟨hR, Remote.sound_step hj hS hF h⟩ trivial
      ((h1 d hN hI).trans (and_iff_right hF).symm)

/-- the errors grow by those of the requests that are refused -/
theorem step_errors (hj : Remote.Responds j) {s s' : Wired φ} {r : Remote φ} {e : Event φ}
    (hB : Booked w j False s r) (hF : s.Fair w j e) (h : s.step w j e = some s') :
    ∃ r', Booked w j False s' r' ∧
      Remote.errors r' = Remote.errors r ++ (s.refused w e).map Remote.refusal := by
  cases step_followed hj hB.2 hB.1 hF False.elim h with
  | stays hR hN hI hr =>
    refine ⟨r, ⟨hR, hB.2⟩, ?_⟩
    rw [hr, List.map_nil, List.append_nil]
  | steps d r' hd hR hFd hN hI hr =>
    refine ⟨r', ⟨hR, Remote.sound_step hj hB.2 hFd hd⟩, ?_⟩
    rw [hr]
    exact Remote.step_errors hj hB.2 hFd hd

section
variable (keepAlive timeout now : Side → Int) (b : Side → Bool)

theorem booked_started : Booked w j p (started keepAlive timeout now b : Wired φ) Remote.start :=
  ⟨rel_started keepAlive timeout now b, Remote.sound_start⟩

theorem run_errors (hj : Remote.Responds j) {es : List (Event φ)} {s : Wired φ}
    (hF : Along (step w j) (Fair w j) (started keepAlive timeout now b) es)
    (h : run (step w j) (started keepAlive timeout now b) es = some s) :
    Remote.errors s.app = (Machine.collect (step w j) (refused w)
      (started keepAlive timeout now b) es).map Remote.refusal := by
  have h0 : ∃ r, Booked w j False (started keepAlive timeout now b : Wired φ) r ∧
      Remote.errors r = List.map Remote.refusal [] :=
    ⟨_, booked_started keepAlive timeout now b, rfl⟩
  have hstep : ∀ (s : Wired φ) (e : Event φ) (s' : Wired φ) (xs : List CallBack),
      (∃ r, Booked w j False s r ∧ Remote.errors r = xs.map Remote.refusal) → s.Fair w j e →
      s.step w j e = some s' → ∃ r', Booked w j False s' r' ∧
        Remote.errors r' = (xs ++ s.refused w e).map Remote.refusal := by
    rintro s e s' xs ⟨r, hB, hxs⟩ hF hs
    obtain ⟨r', hB', hr⟩ := step_errors hj hB hF hs
    refine ⟨r', hB', ?_⟩
    rw [hr, hxs, List.map_append]
  -- the errors of the client are those of the one that carries the messages
  obtain ⟨-, ⟨⟨ms, os, -, -⟩, -⟩, hall⟩ := run_collect _ hstep h0 hF h
  exact hall

/-- both connections are at rest, all that was handed over has been worked on, and nothing is left
to do -/
structure Quiet (s : Wired φ) : Prop where
  rest : ∀ r, Link.AtRest r s.link
  worked : ∀ r, (s.link.ends r).received.length = s.worked r
  made : ∀ side, made s.app side = []
  server : Remote.inServer s.app.server = []
  returned : ∀ c ∈ s.app.calls, c.phase = .returned

theorem Quiet.way {s : Wired φ} (hq : s.Quiet) {r : Side} {ms : List ByteArray}
    (h : Way True s r ms) : ms = [] := by
  obtain ⟨fs, hfs, hperm⟩ := h
  rw [hq.made, Link.flight_rest hfs trivial (hq.rest r) (hq.worked r)] at hperm
  exact hperm.eq_nil

theorem Quiet.carrying {s : Wired φ} (hq : s.Quiet) {ms : List Message} {os : List Output}
    (hs : Way True s .server (ms.map Message.bytes)) (hc : Way True s .client (os.map Output.bytes)) :
    Remote.Quiet j (carrying s.app ms os) := by
  have hms : ms = [] := List.map_eq_nil_iff.mp (hq.way hs)
  have hos : os = [] := List.map_eq_nil_iff.mp (hq.way hc)
  rw [hms, hos]
  exact ⟨rfl, hq.server, rfl, hq.returned⟩

end

/-! ### a call of `test` -/

/-- a request and its response, each read in two pieces -/
def testRun : List (Event Unit) :=
  [.app (._test 7), .sendData 0 .noMemory SendQueue.still, .app (.register 0),
    .link (.acts .client (.writeEnds 0 false)), .link (.acts .client (.run 0 NetConnection.calm)),
    .link (.reads .server 20), .link (.acts .server (.run 0 NetConnection.calm)),
    .link (.reads .server 100), .link (.acts .server (.run 0 NetConnection.calm)),
    .arrives 0 [0],
    .app (.server (.onRequest [] (fun _ => helloEvent) (fun _ => helloEvent))),
    .app (.server (.io 0 (.one Service.testResponseText Remote.streamTestResponse))),
    .sends .server 0 SendQueue.still,
    .link (.acts .server (.writeEnds 0 false)), .link (.acts .server (.run 0 NetConnection.calm)),
    .link (.reads .client 20), .link (.acts .client (.run 0 NetConnection.calm)),
    .link (.reads .client 100), .link (.acts .client (.run 0 NetConnection.calm)),
    .onPackageReceived 9 [0] []]

/-- and a request of a client that has closed its connection -/
def refusedRun : List (Event Unit) :=
  testRun ++ [.link (.acts .client .close), .link (.acts .client (.run 0 NetConnection.calm)),
    .app (._test 7), .sendData 1 .noMemory SendQueue.still]

def idle : Wired Unit := started (fun _ => 0) (fun _ => 0) (fun _ => 0) (fun _ => false)

/-- of `Fair`, what depends on the state -/
def fits (s : Wired φ) : Event φ → Bool
  | .link e =>
    decide (NetConnection.NoHole (s.link.ends (Link.LinkEvent.side e)) (s.link.event e))
  | .app e => Remote.answersTest s.app e
  | .sendData i z c => (s.app.calls[i]?).all fun call =>
    decide (Sendable s.link .client c (Remote.carries Remote.remotePlatform.order z call.req call.seq))
  | .sends side k c => ((made s.app side)[k]?).all fun data => decide (Sendable s.link side c data)
  | _ => true

instance (s : Wired φ) : (e : Event φ) → Decidable (s.Taken e)
  | .sends side k c => inferInstanceAs (Decidable (∀ data ∈ (made s.app side)[k]?,
    ∀ r ∈ s.link.sendData side c data, r.2 = true))
  | .link _ => .isTrue trivial
  | .app _ => .isTrue trivial
  | .sendData .. => .isTrue trivial
  | .arrives .. => .isTrue trivial
  | .onPackageReceived .. => .isTrue trivial

instance (w : Platform) (s : Wired φ) : (e : Event φ) → Decidable (s.InTime w e)
  | .sendData i z c => inferInstanceAs (Decidable (∀ call ∈ s.app.calls[i]?,
    (s.link.sendData .client c (Remote.carries w.order z call.req call.seq)).map Prod.snd = some true
      ∧ Narrow call.seq))
  | .onPackageReceived _ _ _ => inferInstanceAs (Decidable (∀ pkg ∈ s.next .client,
    pkg.m_pkgHeader.m_cmd = NET_CMD_RPC → ∀ c ∈ s.app.calls, c.phase = .sent →
      c.seq ≠ pkg.m_pkgHeader.m_seq.toInt))
  | .link _ => .isTrue trivial
  | .app _ => .isTrue trivial
  | .sends .. => .isTrue trivial
  | .arrives .. => .isTrue trivial

instance (w : Platform) (s : Wired φ) : (e : Event φ) → Decidable (s.Narrows w e)
  | .sendData i z c => inferInstanceAs (Decidable (∀ call ∈ s.app.calls[i]?,
    s.Answers w z c call true → Narrow call.seq))
  | .link _ => .isTrue trivial
  | .app _ => .isTrue trivial
  | .sends .. => .isTrue trivial
  | .arrives .. => .isTrue trivial
  | .onPackageReceived .. => .isTrue trivial

instance (r : Side) (s : Link) : Decidable (Link.AtRest r s) :=
  decidable_of_iff ((s.ends r.other).m_bConnected = true ∧ (s.ends r.other).queue.dropped = false ∧
      (s.ends r.other).turns .write = 0 ∧ s.transit r = [] ∧ (s.ends r).queued = [])
    ⟨fun ⟨hup, hkept, hw, ha, hh⟩ => ⟨hup, hkept, hw, ha, hh⟩,
      fun h => ⟨h.up, h.kept, h.written, h.arrived, h.handled⟩⟩

instance (s : Wired φ) : Decidable s.Quiet :=
  decidable_of_iff ((∀ r ∈ [Side.client, Side.server], Link.AtRest r s.link ∧
      (s.link.ends r).received.length = s.worked r ∧ made s.app r = []) ∧
      Remote.inServer s.app.server = [] ∧ ∀ c ∈ s.app.calls, c.phase = .returned) <| by
    have hall : ∀ r : Side, r ∈ [Side.client, Side.server] := fun r => by cases r <;> decide
    constructor
    · rintro ⟨hends, hserver, hreturned⟩
      exact ⟨fun r => (hends r (hall r)).1, fun r => (hends r (hall r)).2.1,
        fun r => (hends r (hall r)).2.2, hserver, hreturned⟩
    · intro h
      exact ⟨fun r _ => ⟨h.rest r, h.worked r, h.made r⟩, h.server, h.returned⟩

/-- all of the run that can be computed -/
theorem testRun_passes : Along (step Remote.remotePlatform Remote.remoteJson)
      (fun s e => s.fits e = true ∧ s.Taken e ∧ s.InTime Remote.remotePlatform e) idle testRun ∧
    (run (step Remote.remotePlatform Remote.remoteJson) idle testRun).any (fun s =>
      decide (s.app.answers = [⟨.onTest, kResponseOfTest, ""⟩] ∧ s.Quiet)) = true := by
  decide +kernel

theorem refusedRun_passes : Along (step Remote.remotePlatform Remote.remoteJson)
      (fun s e => s.fits e = true ∧ s.Narrows Remote.remotePlatform e) idle refusedRun ∧
    (run (step Remote.remotePlatform Remote.remoteJson) idle refusedRun).map (fun s =>
      s.app.answers) = some [⟨.onTest, kResponseOfTest, ""⟩, ⟨.onTest, [], "send error"⟩] ∧
    Machine.collect (step Remote.remotePlatform Remote.remoteJson)
      (refused Remote.remotePlatform) idle refusedRun = [.onTest] := by
  decide +kernel

theorem link_fair {s : Wired φ} {e : LinkEvent} (hc : ∀ s : Link, (s.event e).Calm)
    (hf : Link.LinkEvent.Framed e) (hs : s.fits (.link e) = true) (r : Side) :
    Link.Undisturbed r s.link e :=
  ⟨fun _ => hc s.link, fun he => ⟨he ▸ of_decide_eq_true hs, hf⟩⟩

theorem event_fair (e : Event Unit) (he : e ∈ refusedRun) (s : Wired Unit) (hs : s.fits e = true) :
    s.Fair Remote.remotePlatform Remote.remoteJson e := by
  simp only [refusedRun, testRun, List.cons_append, List.nil_append, List.mem_cons,
    List.not_mem_nil, or_false] at he
  cases e with
  | link e =>
    -- the two connections only write, read, close and run their handlers
    cases e with
    | reads side n => exact link_fair (fun _ => trivial) trivial hs
    | acts side e =>
      cases e with
      | run i t =>
        obtain rfl : t = NetConnection.calm := by
          simp only [Event.link.injEq, LinkEvent.acts.injEq, NetConnection.Event.run.injEq, reduceCtorEq,
            and_false, or_false, false_or] at he
          grind
        exact link_fair (fun _ => rfl) trivial hs
      | writeEnds i err => exact link_fair (fun _ => trivial) trivial hs
      | close => exact link_fair (fun _ => trivial) trivial hs
      | _ => simp at he
  | app e =>
    cases e with
    | _test id =>
      obtain rfl : id = 7 := by simpa using he
      exact ⟨⟨_, rfl, rfl⟩, _, rfl, rfl⟩
    | register i => exact trivial
    | server e =>
      have he : e = .onRequest [] (fun _ => helloEvent) (fun _ => helloEvent) ∨
          e = .io 0 (.one Service.testResponseText Remote.streamTestResponse) := by grind
      rcases he with rfl | rfl
      · exact trivial
      · exact Remote.testResponse_fair hs
    | _ => simp at he
  | sendData i z c =>
    obtain rfl : z = .noMemory := by grind
    exact ⟨undoes_noMemory _, fun call hcall =>
      of_decide_eq_true ((Option.all_eq_true _ _).mp hs call hcall)⟩
  | sends side k c =>
    exact fun data hdata => of_decide_eq_true ((Option.all_eq_true _ _).mp hs data hdata)
  | arrives fuel behind =>
    obtain rfl : behind = [0] := by grind
    exact rfl
  | onPackageReceived fuel behind behind' =>
    obtain rfl : behind = [0] := by grind
    exact rfl

theorem along_fair {es : List (Event Unit)} (hes : ∀ e ∈ es, e ∈ refusedRun)
    (h : Along (step Remote.remotePlatform Remote.remoteJson) (fun s e => s.fits e = true) idle es) :
    Along (step Remote.remotePlatform Remote.remoteJson)
      (Fair Remote.remotePlatform Remote.remoteJson) idle es :=
  along_mono (fun s e h => event_fair e h.2 s h.1) (along_and h (along_events idle hes))

theorem testRun_fair : Along (step Remote.remotePlatform Remote.remoteJson)
    (Fair Remote.remotePlatform Remote.remoteJson) idle testRun :=
  along_fair (fun _ => List.mem_append_left _) (along_mono (fun _ _ h => h.1) testRun_passes.1)

end Wired

end Netwb
