import Netwb.Net.Proxy

/-!
# What the SOCKS5 handshake has seen

`sock5Proxy` with its reads noted down (`sock5ProxyT`); without the notes it is `sock5Proxy`
(`sock5ProxyT_erase`).  A reply to a message is looked for in what is read after the message was
written.

Each reply is a struct laid over an array of 256 bytes, and how many of these were received is not
looked at.  Whether there is an authentication is decided by `need_check`, not by the method that
the proxy selects.

`sock5Proxy_conversation_iff`: a success is backed by what was received exactly when no reply that
passes the checks is cut, and the method selected is the one offered.
-/

namespace Netwb
open Wire

/-- what the reads have brought, in their order -/
abbrev Reads := List (Exchange × ByteArray)

/-- `sizeof(SOCKS5_RES2)` -/
def SOCKS5_RES2_SIZE : Nat := 10

/-- the method in a `SOCKS5_REQ1` -/
def method1 (info : ProxyInfo) : BYTE := if info.need_check then 2 else 0

section
variable (host : Host) (peer : Peer) (info : ProxyInfo) (addr : ByteArray)

/-! ## the reads -/

/-- `sock5Request` with its read -/
def sock5RequestT : (PROXY_CONNECT_STATUS × error_code) × Reads :=
  let error := peer.write_some .request (socks5Req2 host addr)
  if error ≠ 0 then ((.ENDPOINT_ERROR, error), [])
  else
    let error := (peer.read_some .request).1
    if error ≠ 0 then ((.ENDPOINT_ERROR, error), [])
    else
      let reads : Reads := [(.request, (peer.read_some .request).2)]
      if peer.buf .request 0 ≠ 5 ∨ peer.buf .request 1 ≠ 0 then ((.ENDPOINT_ERROR, 31826), reads)
      else ((.OK, error), reads)

/-- `sock5Auth` with its reads -/
def sock5AuthT : (PROXY_CONNECT_STATUS × error_code) × Reads :=
  if info.need_check then
    let error := peer.write_some .auth (socks5AuthReq info)
    if error ≠ 0 then ((.PROXY_ERROR, error), [])
    else
      let error := (peer.read_some .auth).1
      if error ≠ 0 then ((.PROXY_ERROR, error), [])
      else
        let reads : Reads := [(.auth, (peer.read_some .auth).2)]
        if peer.buf .auth 0 ≠ 1 ∨ peer.buf .auth 1 ≠ 0 then ((.PROXY_ERROR, 27526), reads)
        else
          let r := sock5RequestT host peer addr
          (r.1, reads ++ r.2)
  else sock5RequestT host peer addr

/-- `sock5Proxy` with its reads -/
def sock5ProxyT : (PROXY_CONNECT_STATUS × error_code) × Reads :=
  let (connected, error) := connectSocket peer info.ip (BitVec.ofInt 16 info.port)
  if !connected then ((.PROXY_ERROR, error), [])
  else
    let error := peer.write_some .method (socks5Req1 info)
    if error ≠ 0 then ((.PROXY_ERROR, error), [])
    else if !peer.ready then ((.TIMTOUT_ERROR, error), [])
    else
      let error := (peer.read_some .method).1
      if error ≠ 0 then ((.PROXY_ERROR, error), [])
      else
        let reads : Reads := [(.method, (peer.read_some .method).2)]
        if peer.buf .method 0 ≠ 5 ∨ (peer.buf .method 1 ≠ 0 ∧ peer.buf .method 1 ≠ 2) then
          ((.PROXY_ERROR, error), reads)
        else
          let r := sock5AuthT host peer info addr
          (r.1, reads ++ r.2)

theorem sock5RequestT_erase : (sock5RequestT host peer addr).1 = sock5Request host peer addr := by
  unfold sock5RequestT sock5Request
  simp only [apply_ite Prod.fst]

theorem sock5AuthT_erase : (sock5AuthT host peer info addr).1 = sock5Auth host peer info addr := by
  unfold sock5AuthT sock5Auth
  simp only [apply_ite Prod.fst, sock5RequestT_erase]

/-- **Without the notes it is `sock5Proxy`.** -/
theorem sock5ProxyT_erase :
    (sock5ProxyT host peer info addr).1 = sock5Proxy host peer info addr := by
  simp only [sock5ProxyT, sock5Proxy, apply_ite Prod.fst, sock5AuthT_erase]

/-! ## a conversation that deserves a success -/

/-- what was received shows the method offered, the authentication that this method asks for, and
a whole reply that grants the request -/
inductive Conversation (offered : BYTE) : Reads → Prop
  | bare {method request : ByteArray} (hm : offered = 0) (h1 : [5, offered] <+: method)
      (h3 : [5, 0] <+: request) (hlen : SOCKS5_RES2_SIZE ≤ request.length) :
      Conversation offered [(.method, method), (.request, request)]
  | authenticated {method auth request : ByteArray} (hm : offered = 2) (h1 : [5, offered] <+: method)
      (h2 : [1, 0] <+: auth) (h3 : [5, 0] <+: request) (hlen : SOCKS5_RES2_SIZE ≤ request.length) :
      Conversation offered [(.method, method), (.auth, auth), (.request, request)]

/-- a message goes out, and the array of the read behind it begins with two bytes -/
def Accepts (x : Exchange) (message : ByteArray) (b0 b1 : BYTE) : Prop :=
  (peer.write_some x message = 0 ∧ (peer.read_some x).1 = 0) ∧ peer.buf x 0 = b0 ∧ peer.buf x 1 = b1

/-- the operations succeed, and what the arrays hold passes the checks -/
structure Passes5 : Prop where
  answers : Answers peer info .method (socks5Req1 info)
  method : peer.buf .method 0 = 5 ∧ (peer.buf .method 1 = 0 ∨ peer.buf .method 1 = 2)
  auth : info.need_check = true → Accepts peer .auth (socks5AuthReq info) 1 0
  request : Accepts peer .request (socks5Req2 host addr) 5 0

/-- a method reply or an authentication reply of one byte, a reply to the request of less than its
struct, or a method that was not offered -/
def Slips5 : Prop :=
  (peer.read_some .method).2.length < 2 ∨ peer.buf .method 1 ≠ method1 info ∨
    (info.need_check = true ∧ (peer.read_some .auth).2.length < 2) ∨
    (peer.read_some .request).2.length < SOCKS5_RES2_SIZE

/-- the reads of a handshake that passes -/
def passingReads : Reads :=
  (.method, (peer.read_some .method).2) ::
    ((if info.need_check then [(.auth, (peer.read_some .auth).2)] else []) ++
      [(.request, (peer.read_some .request).2)])

/-! ## the handshake, step by step -/

variable {host peer info addr}

theorem sock5RequestT_passes (h : Accepts peer .request (socks5Req2 host addr) 5 0) :
    sock5RequestT host peer addr = ((.OK, 0), [(.request, (peer.read_some .request).2)]) := by
  obtain ⟨⟨hw, hr⟩, h0, h1⟩ := h
  have hb : ¬ (peer.buf .request 0 ≠ 5 ∨ peer.buf .request 1 ≠ 0) := by
    rw [h0, h1]
    simp
  unfold sock5RequestT
  rw [hw, hr, if_neg (not_not.mpr rfl), if_neg (not_not.mpr rfl), if_neg hb]

theorem sock5Request_ok (h : (sock5Request host peer addr).1 = .OK) :
    Accepts peer .request (socks5Req2 host addr) 5 0 := by
  unfold sock5Request at h
  dsimp only at h
  split at h
  · cases h
  · rename_i hw
    split at h
    · cases h
    · rename_i hr
      split at h
      · cases h
      · rename_i hb
        rw [not_or, not_not, not_not] at hb
        exact ⟨⟨not_not.mp hw, not_not.mp hr⟩, hb⟩

theorem sock5Auth_ok (h : (sock5Auth host peer info addr).1 = .OK) :
    (info.need_check = true → Accepts peer .auth (socks5AuthReq info) 1 0) ∧
      Accepts peer .request (socks5Req2 host addr) 5 0 := by
  unfold sock5Auth at h
  dsimp only at h
  split at h
  · split at h
    · cases h
    · rename_i hw
      split at h
      · cases h
      · rename_i hr
        split at h
        · cases h
        · rename_i hb
          rw [not_or, not_not, not_not] at hb
          exact ⟨fun _ => ⟨⟨not_not.mp hw, not_not.mp hr⟩, hb⟩, sock5Request_ok h⟩
  · rename_i hn
    exact ⟨fun hc => absurd hc hn, sock5Request_ok h⟩

/-- **What a success asks for.** -/
theorem sock5Proxy_ok (h : (sock5Proxy host peer info addr).1 = .OK) :
    Passes5 host peer info addr := by
  unfold sock5Proxy at h
  split at h
  rename_i connected error hs
  split at h
  · cases h
  · rename_i hc
    dsimp only at h
    split at h
    · cases h
    · rename_i hw
      split at h
      · cases h
      · rename_i hy
        split at h
        · cases h
        · rename_i hr
          split at h
          · cases h
          · rename_i hb
            obtain ⟨hauth, hreq⟩ := sock5Auth_ok h
            have hm : peer.buf .method 0 = 5 ∧
                (peer.buf .method 1 = 0 ∨ peer.buf .method 1 = 2) := by
              rw [not_or, not_not, Classical.not_and_iff_not_or_not, not_not, not_not] at hb
              exact hb
            refine ⟨⟨?_, not_not.mp hw, by simpa using hy, not_not.mp hr⟩, hm, hauth, hreq⟩
            rw [hs]
            simpa using hc

theorem sock5AuthT_passes (hauth : info.need_check = true → Accepts peer .auth (socks5AuthReq info) 1 0)
    (hreq : Accepts peer .request (socks5Req2 host addr) 5 0) :
    sock5AuthT host peer info addr = ((.OK, 0),
      (if info.need_check then [(.auth, (peer.read_some .auth).2)] else []) ++
        [(.request, (peer.read_some .request).2)]) := by
  unfold sock5AuthT
  by_cases hn : info.need_check = true
  · obtain ⟨⟨hw, hr⟩, h0, h1⟩ := hauth hn
    have hb : ¬ (peer.buf .auth 0 ≠ 1 ∨ peer.buf .auth 1 ≠ 0) := by
      rw [h0, h1]
      simp
    rw [if_pos hn, if_pos hn, hw, hr, if_neg (not_not.mpr rfl), if_neg (not_not.mpr rfl), if_neg hb,
      sock5RequestT_passes hreq]
  · rw [if_neg hn, if_neg hn, sock5RequestT_passes hreq, List.nil_append]

/-- **What a handshake that passes has read.** -/
theorem sock5ProxyT_passes (h : Passes5 host peer info addr) :
    sock5ProxyT host peer info addr = ((.OK, 0), passingReads peer info) := by
  obtain ⟨⟨hc, hw, hy, hr⟩, ⟨h0, h1⟩, hauth, hreq⟩ := h
  have hb : ¬ (peer.buf .method 0 ≠ 5 ∨ (peer.buf .method 1 ≠ 0 ∧ peer.buf .method 1 ≠ 2)) := by
    rintro (h | ⟨ha, hb⟩)
    · exact h h0
    · exact h1.elim ha hb
  rcases hs : connectSocket peer info.ip (BitVec.ofInt 16 info.port) with ⟨connected, error⟩
  have hconn : connected = true := by rwa [hs] at hc
  rw [sock5ProxyT, hs, hconn, hw, hy, hr, if_neg (not_not.mpr rfl)]
  dsimp only
  rw [if_neg (by simp), if_neg (by simp), if_neg (not_not.mpr rfl), if_neg hb,
    sock5AuthT_passes hauth hreq]
  rfl

/-! ## what was received -/

/-- the array shows two bytes that were received if two were received -/
theorem received_iff (x : Exchange) (b0 b1 : BYTE) :
    [b0, b1] <+: (peer.read_some x).2 ↔
      2 ≤ (peer.read_some x).2.length ∧ peer.buf x 0 = b0 ∧ peer.buf x 1 = b1 := by
  unfold Peer.buf
  match (peer.read_some x).2 with
  | [] => simp
  | [a] => simp
  | a :: b :: rest => simp [eq_comm]

/-- **A handshake that passes is backed by what was received exactly if nothing in it slips.** -/
theorem conversation_iff (h : Passes5 host peer info addr) :
    Conversation (method1 info) (passingReads peer info) ↔ ¬ Slips5 peer info := by
  obtain ⟨-, ⟨h0, h1⟩, hauth, hreq⟩ := h
  have hr := @received_iff peer .request 5 0
  have hm := @received_iff peer .method 5 (method1 info)
  unfold Slips5 passingReads
  rw [not_or, not_or, not_or, not_lt, not_not, not_lt, not_and]
  constructor
  · intro hc
    generalize hoff : method1 info = offered at hc hm ⊢
    rw [method1] at hoff
    split at hc
    · rename_i hn
      rw [if_pos hn] at hoff
      cases hc with
      | authenticated hoff h1 h2 h3 hlen =>
        obtain ⟨hl, -, hsel⟩ := hm.mp h1
        obtain ⟨hla, -⟩ := (received_iff .auth 1 0).mp h2
        exact ⟨hl, hsel, fun _ => Nat.not_lt.mpr hla, hlen⟩
    · rename_i hn
      cases hc with
      | bare hoff h1 h3 hlen =>
        obtain ⟨hl, -, hsel⟩ := hm.mp h1
        exact ⟨hl, hsel, fun hy => absurd hy hn, hlen⟩
  · rintro ⟨hl, hsel, hla, hlen⟩
    have hmethod := hm.mpr ⟨hl, h0, hsel⟩
    have hrequest := hr.mpr ⟨Nat.le_trans (by decide) hlen, hreq.2⟩
    by_cases hn : info.need_check = true
    · have ha := (received_iff .auth 1 0).mpr ⟨Nat.not_lt.mp (hla hn), (hauth hn).2⟩
      rw [if_pos hn]
      exact .authenticated (if_pos hn) hmethod ha hrequest hlen
    · rw [if_neg hn]
      exact .bare (if_neg hn) hmethod hrequest hlen

end

section
variable (host : Host) (peer : Peer) (info : ProxyInfo) (addr : ByteArray)

/-- a success is backed by what was received -/
def Backed5 : Prop :=
  (sock5ProxyT host peer info addr).1.1 = .OK →
    Conversation (method1 info) (sock5ProxyT host peer info addr).2

theorem not_backed {host : Host} {peer : Peer} {info : ProxyInfo} {addr : ByteArray}
    (hp : Passes5 host peer info addr) (hs : Slips5 peer info) : ¬ Backed5 host peer info addr := by
  intro hb
  have hc := hb (by rw [sock5ProxyT_passes hp])
  rw [sock5ProxyT_passes hp] at hc
  exact (conversation_iff hp).mp hc hs

/-- **The SOCKS5 handshake succeeds only after a valid conversation, unless replies that pass the
checks are cut or select another method than the one offered.** -/
theorem sock5Proxy_conversation_iff :
    Backed5 host peer info addr ↔ ¬ (Passes5 host peer info addr ∧ Slips5 peer info) := by
  constructor
  · intro hb h
    exact not_backed h.1 h.2 hb
  · intro hn h
    rw [sock5ProxyT_erase] at h
    have hp := sock5Proxy_ok h
    rw [sock5ProxyT_passes hp]
    exact (conversation_iff hp).mpr fun hs => hn ⟨hp, hs⟩

end

/-- a proxy that takes everything, with a reply for each exchange -/
def replying (method auth request : ByteArray) : Peer :=
  { CommonSocket.answering [] with
    read_some := fun
      | .method => (0, method)
      | .auth => (0, auth)
      | .request => (0, request) }

/-- a proxy selects authentication, which was not offered, and nobody authenticates -/
theorem sock5Proxy_unauthenticated :
    let peer := replying [5, 2] [] [5, 0, 0, 1, 0, 0, 0, 0, 0, 0]
    let info : ProxyInfo := ⟨.SOCKS5, ascii "10.0.0.1", 1080, false, [], []⟩
    sock5Proxy CommonSocket.someHost peer info (ascii "10.0.0.2:80") = (.OK, 0) ∧
      ¬ Backed5 CommonSocket.someHost peer info (ascii "10.0.0.2:80") := by
  have hok : sock5Proxy CommonSocket.someHost (replying [5, 2] [] [5, 0, 0, 1, 0, 0, 0, 0, 0, 0])
      ⟨.SOCKS5, ascii "10.0.0.1", 1080, false, [], []⟩ (ascii "10.0.0.2:80") = (.OK, 0) := by decide
  exact ⟨hok, not_backed (sock5Proxy_ok (by rw [hok])) (.inr (.inl (by decide)))⟩

end Netwb
