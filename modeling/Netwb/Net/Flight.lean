import Netwb.Net.Link

/-!
# Messages in flight

What is handed to `sendData` at one end of a link, until it is taken from the packages that were
handed over at the other end.  Read in this way two connections are a bag of messages in each
direction: a send puts one in, unless it is rejected, and the next package is one of them.

* `flight_step`  what the link does on its own takes no message out;
* `flight_sent`  a send puts its message in;
* `flight_next`  the next package is a message that is in flight;
* `flight_rest`  and when all is at rest and no send was rejected, none is.
-/

namespace Netwb
open Wire Machine Framing

namespace NetConnection

/-- what was handed over stays -/
theorem step_received {s s' : NetConnection} {e : Event} (h : s.step e = some s') :
    s.received <+: s'.received := by
  cases step_intake h with
  | nothing hr hin hq hi =>
    have hsame : s'.received = s.received := congrArg Prod.snd hi
    exact hsame ▸ List.prefix_refl _
  | arrives h0 hq hi =>
    have hsame : s'.received = s.received := congrArg Prod.snd hi
    exact hsame ▸ List.prefix_refl _
  | @handles i t data s' r hp hr hq hi =>
    have hmore : s'.received = s.received ++ r.2.1 := congrArg Prod.snd hi
    exact hmore ▸ List.prefix_append _ _

/-- a send that is not ignored says whether it was accepted -/
theorem sendDataAsync_accepts {s s' : NetConnection} {c : Choice} {data : ByteArray} {ok : Bool}
    (hne : data ≠ []) (h : s.sendDataAsync c data data.length = some (s', ok)) :
    s.accepts (.sendDataAsync data data.length c) = if ok then [data] else [] := by
  have hpos : (data.length : Int) > 0 := by
    have := List.length_pos_iff_ne_nil.mpr hne
    omega
  unfold sendDataAsync at h
  split at h
  · rename_i hup
    rw [if_pos ⟨hne, hpos⟩] at h
    have ha : s.attempt (.sendDataAsync data data.length c) = some (data, (data.length : Int)) :=
      if_pos ⟨hup, hne, hpos⟩
    rw [accepts, ha]
    dsimp only
    by_cases hrej : toInt32 (data.length + s.queue.m_waitingPos) > MAX_SEND_BUF_SIZE
    · rw [SendQueue.append_rejected _ c data _ hrej] at h
      cases h
      rw [if_pos hrej]
      rfl
    · rw [SendQueue.append_taken _ c data _ hrej, Option.map_map] at h
      obtain ⟨q, hq, h⟩ := Option.map_eq_some_iff.mp h
      cases h
      rw [if_neg hrej, Int.toNat_natCast, List.take_length]
      rfl
  · rename_i hdown
    cases h
    exact accepts_none (if_neg fun hc => hdown hc.1)

end NetConnection

namespace Link
open NetConnection

/-- `sendData(bytes, bytes.size())` of the connection of an end, and what it returns -/
def sendData (s : Link) (side : Side) (c : Choice) (data : ByteArray) : Option (Link × Bool) :=
  ((s.ends side).sendDataAsync c data (toInt32 data.length)).map fun r => (s.set side r.1, r.2)

/-- the messages in flight to an end that has taken `n` packages: of those accepted for it the ones
it has not taken, and ones that were not accepted, of which there are none if `p` holds -/
inductive Flight (p : Prop) (r : Side) (s : Link) (n : Nat) (ms : List ByteArray) : Prop
  | mk (bytes : ByteArray) (frames lost : List ByteArray) (carried : Carried r s bytes)
    (sent : Sent r s frames) (taken : n ≤ (s.ends r).received.length)
    (perm : ms.Perm (frames.drop n ++ lost)) (whole : p → lost = [])

section
variable {p : Prop} {r : Side} {s s' : Link} {n : Nat} {ms : List ByteArray}

theorem flight_started (keepAlive timeout now : Side → Int) (b : Side → Bool) :
    Flight p r (started keepAlive timeout now b) 0 [] :=
  ⟨[], [], [], carried_started keepAlive timeout now b r, sent_started keepAlive timeout now b r,
    Nat.zero_le _, .refl _, fun _ => rfl⟩

/-- no more packages are taken than were sent -/
theorem taken_le {bytes : ByteArray} {frames : List ByteArray} (hc : Carried r s bytes)
    (hs : Sent r s frames) : (s.ends r).received.length ≤ frames.length := by
  have h := (inOrder hc hs).first.length_le
  rwa [List.length_map] at h

/-- **What the link does takes no message out**, and puts in what is accepted. -/
theorem flight_step {e : LinkEvent} (h : Flight p r s n ms) (hu : Undisturbed r s e)
    (hs : s.step e = some s') : Flight p r s' n (ms ++ sends r s e) := by
  obtain ⟨bytes, frames, lost, hc, hsent, htaken, hperm, hwhole⟩ := h
  have hgrows : (s.ends r).received <+: (s'.ends r).received := by
    obtain ⟨hstep, hstay⟩ := step_ends hs
    by_cases hr : LinkEvent.side e = r
    · exact hr ▸ step_received hstep
    · rw [hstay r (Ne.symm hr)]
  refine ⟨_, _, lost, step_carried hc hu.1 (fun he => framed_wellFormed (hu.2 he).2) hs,
    step_sent hsent hu hs, htaken.trans hgrows.length_le, ?_, hwhole⟩
  rw [List.drop_append_of_le_length (htaken.trans (taken_le hc hsent)), List.append_assoc]
  refine (hperm.append_right _).trans ?_
  rw [List.append_assoc]
  exact List.perm_append_comm.append_left _

/-- a message that is not accepted is in flight for ever -/
theorem flight_loses (h : Flight p r s n ms) (hp : ¬ p) (data : ByteArray) :
    Flight p r s n (ms ++ [data]) := by
  obtain ⟨bytes, frames, lost, hc, hsent, htaken, hperm, -⟩ := h
  refine ⟨bytes, frames, lost ++ [data], hc, hsent, htaken, ?_, fun h => absurd h hp⟩
  rw [← List.append_assoc]
  exact hperm.append_right _

/-- **The next package is a message that is in flight.** -/
theorem flight_next (h : Flight p r s n ms) {pkg : NetPackage}
    (hn : (s.ends r).received[n]? = some pkg) :
    ∃ data rest, pkg = NetPackage.ofBytes data ∧ ms.Perm (data :: rest) ∧
      Flight p r s (n + 1) rest := by
  obtain ⟨bytes, frames, lost, hc, hsent, htaken, hperm, hwhole⟩ := h
  obtain ⟨hlt, hpkg⟩ := List.getElem?_eq_some_iff.mp hn
  have hframes : n < frames.length := Nat.lt_of_lt_of_le hlt (taken_le hc hsent)
  have hget : (frames.map NetPackage.ofBytes)[n]? = some pkg := by
    rw [List.prefix_iff_getElem?.mp (inOrder hc hsent).first n hlt, hpkg]
  rw [List.getElem?_map, List.getElem?_eq_getElem hframes] at hget
  refine ⟨frames[n], frames.drop (n + 1) ++ lost, (Option.some.inj hget).symm, ?_,
    bytes, frames, lost, hc, hsent, hlt, .refl _, hwhole⟩
  rw [List.drop_eq_getElem_cons hframes] at hperm
  exact hperm

/-- at rest nothing is in flight to an end that has taken all -/
theorem flight_rest (h : Flight p r s n ms) (hp : p) (hrest : AtRest r s)
    (hn : (s.ends r).received.length = n) : ms = [] := by
  obtain ⟨bytes, frames, lost, hc, hsent, -, hperm, hwhole⟩ := h
  have hall := congrArg List.length ((inOrder hc hsent).all hrest)
  rw [List.length_map, hn] at hall
  rw [hwhole hp, List.append_nil, hall, List.drop_length] at hperm
  exact hperm.eq_nil

theorem Flight.perm {ms' : List ByteArray} (h : Flight p r s n ms) (hp : ms'.Perm ms) :
    Flight p r s n ms' := by
  obtain ⟨bytes, frames, lost, hc, hsent, htaken, hperm, hwhole⟩ := h
  exact ⟨bytes, frames, lost, hc, hsent, htaken, hp.trans hperm, hwhole⟩

/-! ## sends -/

/-- a message is handed over as a frame, and not behind a hole -/
structure Clear (s : Link) (side : Side) (c : Choice) (data : ByteArray) : Prop where
  frame : plainLook data = .msg data.length
  hole : NoHole (s.ends side) (.sendDataAsync data data.length c)

variable {side : Side} {c : Choice} {data : ByteArray} {ok : Bool}

/-- a send is a step of the link -/
theorem sendData_step (hc : Clear s side c data) (h : s.sendData side c data = some (s', ok)) :
    s.step (.acts side (.sendDataAsync data data.length c)) = some s' ∧
      (s.ends side).accepts (.sendDataAsync data data.length c) = if ok then [data] else [] := by
  have hlook := (plainLook_msg hc.frame).2
  have hlen : toInt32 data.length = data.length := by
    simp only [NET_PACKAGE_INVALID_LENGTH] at hlook
    exact toInt32_eq (by omega) (by omega)
  have hne : data ≠ [] := List.length_pos_iff_ne_nil.mp (by omega)
  rw [sendData, hlen] at h
  obtain ⟨⟨c', ok'⟩, hsend, h⟩ := Option.map_eq_some_iff.mp h
  cases h
  refine ⟨?_, sendDataAsync_accepts hne hsend⟩
  show (((s.ends side).sendDataAsync c data data.length).map (·.1)).map (s.set side) = _
  rw [hsend]
  rfl

theorem undisturbed_send (hc : Clear s side c data) (r : Side) :
    Undisturbed r s (.acts side (.sendDataAsync data data.length c)) :=
  ⟨fun _ => trivial, fun he => ⟨(show side = r.other from he) ▸ hc.hole, rfl, hc.frame⟩⟩

/-- **A send puts its message in**, if it is accepted. -/
theorem flight_sent (hf : Flight p r s n ms) (hc : Clear s r.other c data)
    (h : s.sendData r.other c data = some (s', ok)) :
    Flight p r s' n (ms ++ if ok then [data] else []) := by
  obtain ⟨hstep, hacc⟩ := sendData_step hc h
  have hsends : sends r s (.acts r.other (.sendDataAsync data data.length c)) =
      if ok then [data] else [] := by
    rw [sends, if_pos (by rfl)]
    exact hacc
  exact hsends ▸ flight_step hf (undisturbed_send hc r) hstep

/-- a message that has been handed over is in flight, and lost if it is not accepted -/
theorem flight_handed (hf : Flight p r s n ms) (hc : Clear s r.other c data)
    (h : s.sendData r.other c data = some (s', ok)) (hp : p → ok = true) :
    Flight p r s' n (ms ++ [data]) := by
  have hsent := flight_sent hf hc h
  cases ok with
  | true => exact hsent
  | false =>
    have hall : Flight p r s' n ms := by
      rwa [if_neg Bool.false_ne_true, List.append_nil] at hsent
    exact flight_loses hall (fun hw => Bool.false_ne_true (hp hw)) data

/-- in the other direction nothing changes -/
theorem flight_stays (hf : Flight p r s n ms) (hc : Clear s r c data)
    (h : s.sendData r c data = some (s', ok)) : Flight p r s' n ms := by
  have hsends : sends r s (.acts r (.sendDataAsync data data.length c)) = [] :=
    if_neg fun he => r.other_ne (Eq.symm he)
  have hstep := flight_step hf (undisturbed_send hc r) (sendData_step hc h).1
  rwa [hsends, List.append_nil] at hstep

end

end Link

end Netwb
