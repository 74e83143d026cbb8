import Netwb.Lib.Probe
import Mathlib.Data.UInt

/-!
# The search for a port of a server

The constructor of `NetServer` (`net/NetServer.cpp`) with `autoBind`: a do/while loop that tries to
bind the listen address with one port after the other.  It leaves the loop when a port is bound, or
by an exception, which it swallows.

The outcomes of the operations on the acceptor are the same in every round.  `close` and `cancel`
return, and the errors of `set_option` are not looked at.

* `nextPort_round`     from every port of 10000 .. 65534 the search comes by every other one;
* `bindLoop_comes_iff` it ends if and only if an operation throws, or the port asked for or one of
                      these can be bound;
* `autoBind_searches_iff` with it, the port it ends on and the turns that the ports take.
-/

namespace Netwb

/-- what the operations on the acceptor come to -/
structure Acceptor where
  /-- the listen address is one -/
  from_string : Bool
  opens : Bool
  bind : UInt16 → Bool
  listen : UInt16 → Bool

inductive AcceptorState
  | closed
  | bound
  | listening
deriving DecidableEq, Repr

structure NetServer where
  m_listenPort : UInt16
  m_acceptor : AcceptorState
deriving DecidableEq, Repr

namespace NetServer

/-- the port that is tried after `m_listenPort` -/
def nextPort (m_listenPort : UInt16) : UInt16 :=
  let m_listenPort := if m_listenPort < 10000 then 10000 else m_listenPort
  if m_listenPort < 65534 then m_listenPort + 1 else 10000

/-- the ports that are tried in the first `fuel` rounds of the do/while loop, and what it leaves -/
def bindLoop (a : Acceptor) : Nat → UInt16 → List UInt16 × Option NetServer
  | 0, _ => ([], none)
  | fuel + 1, m_listenPort =>
    if a.from_string = false ∨ a.opens = false then ([], some ⟨m_listenPort, .closed⟩)
    else if a.bind m_listenPort then
      -- `listen` may throw
      ([m_listenPort], some ⟨m_listenPort, if a.listen m_listenPort then .listening else .bound⟩)
    else
      let r := bindLoop a fuel (nextPort m_listenPort)
      (m_listenPort :: r.1, r.2)

/-- the constructor -/
def make (a : Acceptor) (fuel : Nat) (listenPort : UInt16) (autoBind : Bool) :
    List UInt16 × Option NetServer :=
  if autoBind then bindLoop a fuel listenPort else ([], some ⟨listenPort, .closed⟩)

/-- the ports that the search comes by -/
def autoPorts : Set UInt16 := {p | 10000 ≤ p.toNat ∧ p.toNat ≤ 65534}

/-! ## the next port -/

theorem nextPort_toNat (p : UInt16) : (nextPort p).toNat =
    if p.toNat < 10000 then 10001 else if p.toNat < 65534 then p.toNat + 1 else 10000 := by
  rw [nextPort]
  by_cases hlow : p.toNat < 10000
  · have h : p < 10000 := UInt16.lt_iff_toNat_lt.mpr hlow
    rw [if_pos hlow, if_pos h]
    rfl
  · have h : ¬ p < 10000 := fun h => hlow (UInt16.lt_iff_toNat_lt.mp h)
    rw [if_neg hlow, if_neg h]
    by_cases hlast : p.toNat < 65534
    · rw [if_pos hlast, if_pos (UInt16.lt_iff_toNat_lt.mpr hlast), UInt16.toNat_add]
      exact Nat.mod_eq_of_lt (Nat.lt_trans (Nat.succ_lt_succ hlast) (by decide))
    · rw [if_neg hlast, if_neg fun h => hlast (UInt16.lt_iff_toNat_lt.mp h)]
      rfl

theorem nextPort_mem (p : UInt16) : nextPort p ∈ autoPorts := by
  show 10000 ≤ (nextPort p).toNat ∧ (nextPort p).toNat ≤ 65534
  rw [nextPort_toNat]
  split
  · omega
  · split <;> omega

/-- up to the last port the search climbs -/
theorem nextPort_climbs {p : UInt16} {n : Nat} (hp : 10000 ≤ p.toNat) (hn : p.toNat + n ≤ 65534) :
    (nextPort^[n] p).toNat = p.toNat + n := by
  induction n with
  | zero => rfl
  | succ n ih =>
    rw [Function.iterate_succ_apply', nextPort_toNat, ih (by omega), if_neg (by omega),
      if_pos (by omega), Nat.add_assoc]

/-- and from there it starts again -/
theorem nextPort_wraps {p : UInt16} (hp : p ∈ autoPorts) :
    nextPort^[65534 - p.toNat + 1] p = 10000 := by
  have hle := hp.2
  have hlast := nextPort_climbs (n := 65534 - p.toNat) hp.1 (by omega)
  apply UInt16.toNat_inj.mp
  rw [Function.iterate_succ_apply', nextPort_toNat, hlast, if_neg (by omega), if_neg (by omega)]
  rfl

theorem nextPort_round : Probe.Round nextPort autoPorts := by
  rintro p hp q hq
  rcases Nat.le_total p.toNat q.toNat with hle | hge
  · refine ⟨q.toNat - p.toNat, UInt16.toNat_inj.mp ?_⟩
    have := hq.2
    rw [nextPort_climbs hp.1 (by omega)]
    omega
  · refine ⟨q.toNat - 10000 + (65534 - p.toNat + 1), UInt16.toNat_inj.mp ?_⟩
    have hq1 := hq.1
    have hq2 := hq.2
    have h0 : (10000 : UInt16).toNat = 10000 := rfl
    rw [Function.iterate_add_apply, nextPort_wraps hp, nextPort_climbs (by omega) (by omega)]
    omega

/-! ## the loop -/

section
variable (a : Acceptor)

/-- an operation in front of `bind` throws -/
def Throws : Prop := a.from_string = false ∨ a.opens = false

/-- the port can be bound -/
def Binds (p : UInt16) : Prop := ¬ Throws a ∧ a.bind p = true

/-- the loop is left on this port -/
def left (p : UInt16) : NetServer := ⟨p, if a.listen p then .listening else .bound⟩

variable {a}

theorem bindLoop_throws (h : Throws a) (fuel : Nat) (p : UInt16) :
    bindLoop a (fuel + 1) p = ([], some ⟨p, .closed⟩) := by
  rw [bindLoop]
  exact if_pos h

/-- the loop probes the ports -/
theorem bindLoop_eq (h : ¬ Throws a) (fuel : Nat) (p : UInt16) :
    bindLoop a fuel p = ((Probe.probe nextPort a.bind fuel p).1,
      (Probe.probe nextPort a.bind fuel p).2.map (left a)) := by
  induction fuel generalizing p with
  | zero => rfl
  | succ fuel ih =>
    rw [bindLoop, if_neg (by exact h)]
    cases hb : a.bind p with
    | true =>
      rw [Probe.probe_yes hb]
      rfl
    | false =>
      rw [Probe.probe_no hb, ih]
      rfl

theorem bindLoop_comes_iff (start : UInt16) :
    (∃ s, Machine.Comes (fun fuel => (bindLoop a fuel start).2) s) ↔
      Throws a ∨ a.bind start = true ∨ ∃ p ∈ autoPorts, a.bind p = true := by
  by_cases ht : Throws a
  · refine iff_of_true ⟨⟨start, .closed⟩, 1, fun fuel hf => ?_⟩ (Or.inl ht)
    obtain ⟨fuel, rfl⟩ := Nat.exists_eq_add_one_of_ne_zero (Nat.ne_of_gt hf)
    exact congrArg Prod.snd (bindLoop_throws ht fuel start)
  · rw [or_iff_right ht, ← Probe.reaches_iff nextPort_round nextPort_mem]
    simp only [bindLoop_eq ht]
    constructor
    · rintro ⟨s, n, hn⟩
      obtain ⟨p, hp, -⟩ := Option.map_eq_some_iff.mp (hn n (Nat.le_refl n))
      obtain ⟨hok, m, rfl⟩ := Probe.probe_ok hp
      exact ⟨m, hok⟩
    · intro h
      obtain ⟨p, hp⟩ := Probe.probe_comes_iff.mpr h
      exact ⟨left a p, hp.map (left a)⟩

/-- with a port of the range that can be bound the loop is left on one that can be -/
theorem bindLoop_finds (start : UInt16) (h : ∃ p ∈ autoPorts, Binds a p) :
    ∃ p, (p ∈ autoPorts ∨ p = start) ∧ Binds a p ∧
      Machine.Comes (fun fuel => (bindLoop a fuel start).2) (left a p) := by
  obtain ⟨q, hq, ht, hbind⟩ := h
  obtain ⟨p, hp, hok, hcomes⟩ := Probe.probe_finds nextPort_round nextPort_mem start ⟨q, hq, hbind⟩
  refine ⟨p, hp, ⟨ht, hok⟩, ?_⟩
  simp only [bindLoop_eq ht]
  exact hcomes.map (left a)

/-- the ports of the range take turns -/
theorem bindLoop_fair {start p q : UInt16} {fuel i j : Nat} (hij : i < j)
    (hi : (bindLoop a fuel start).1[i]? = some p) (hj : (bindLoop a fuel start).1[j]? = some p)
    (hp : p ∈ autoPorts) (hq : q ∈ autoPorts) :
    ∃ k < j, (bindLoop a fuel start).1[k]? = some q := by
  by_cases ht : Throws a
  · cases fuel with
    | zero => cases hi
    | succ fuel =>
      rw [bindLoop_throws ht] at hi
      cases hi
  · rw [bindLoop_eq ht] at hi hj ⊢
    exact Probe.probe_fair nextPort_round hij hi hj hp hq

end

/-! ## the constructor -/

/-- the search ends; where a port of the range can be bound, it ends listening on one that can be,
unless `listen` itself throws; and it tries no port of the range twice before all others -/
structure Searches (a : Acceptor) (start : UInt16) : Prop where
  ends : ∃ s, Machine.Comes (fun fuel => (make a fuel start true).2) s
  listens : (∃ p ∈ autoPorts, Binds a p) → ∃ p, (p ∈ autoPorts ∨ p = start) ∧ Binds a p ∧
    Machine.Comes (fun fuel => (make a fuel start true).2)
      ⟨p, if a.listen p then .listening else .bound⟩
  fair : ∀ (fuel i j : Nat) (p q : UInt16), i < j → (make a fuel start true).1[i]? = some p →
    (make a fuel start true).1[j]? = some p → p ∈ autoPorts → q ∈ autoPorts →
      ∃ k < j, (make a fuel start true).1[k]? = some q

/-- **The search for a port does what it has to do if and only if an operation throws, or the port
asked for or one of 10000 .. 65534 can be bound.** -/
theorem autoBind_searches_iff (a : Acceptor) (start : UInt16) : Searches a start ↔
    (a.from_string = false ∨ a.opens = false) ∨ a.bind start = true ∨
      ∃ p ∈ autoPorts, a.bind p = true := by
  constructor
  · exact fun h => (bindLoop_comes_iff start).mp h.ends
  · intro h
    exact ⟨(bindLoop_comes_iff start).mpr h, bindLoop_finds start,
      fun _ _ _ _ _ hij hi hj hp hq => bindLoop_fair hij hi hj hp hq⟩

/-- an address that is not local: no port can be bound -/
def notLocal : Acceptor := ⟨true, true, fun _ => false, fun _ => true⟩

theorem autoBind_searches_on : ¬ Searches notLocal 8080 := by
  intro h
  rcases (bindLoop_comes_iff 8080).mp h.ends with (h | h) | h | ⟨_, _, h⟩ <;> cases h

end NetServer
end Netwb
