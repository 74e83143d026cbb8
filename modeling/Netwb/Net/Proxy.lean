import Netwb.Net.Package

/-!
# Connecting through a proxy

`ProxyHelper::passProxy` and its three handshakes (`net/ProxyHelper.cpp`), and `CommonSocket`'s
`async_connect` and `connect` on top of them (`net/NetSocket.cpp`).  Success is told twice, by the
returned status and by the `error` argument.  What the socket does is a parameter (`Peer`): any
error code may come out of any operation, a read may bring any bytes, and the rest of the array it
reads into holds whatever was there.  An error code is its value, 0 if it is clear.

* `httpProxy_agrees`   status and error code agree on every exit of the HTTP handshake;
* `sock4Proxy_agrees`  of the SOCKS4 handshake on all exits but one: for a reply that refuses the
                       request the error code is put into a new variable;
* `sock5Proxy_agrees`  of the SOCKS5 handshake on all exits but one: the same happens for a reply
                       that selects no usable method;
* `connect_reports_iff`  so a connect is reported as a success exactly when the proxy was passed,
                       unless one of these two replies comes.
-/

namespace Netwb
open Wire

abbrev error_code := Int

/-- `boost::asio::error::timed_out` -/
def timed_out : error_code := 110

inductive PROXY_TYPE where
  | NON
  | HTTP
  | SOCKS4
  | SOCKS5
deriving DecidableEq, Repr

structure ProxyInfo where
  type : PROXY_TYPE
  ip : ByteArray
  port : Int
  need_check : Bool
  username : ByteArray
  password : ByteArray
deriving DecidableEq, Repr

def ProxyInfo.isEnabled (p : ProxyInfo) : Bool := p.type != .NON

inductive PROXY_CONNECT_STATUS where
  | OK
  | PROXY_ERROR
  | ENDPOINT_ERROR
  | TIMTOUT_ERROR
  | UNKNOWN_ERROR
deriving DecidableEq, Repr

/-- the exchanges of a handshake -/
inductive Exchange where
  | method
  | auth
  | request
deriving DecidableEq, Repr

/-- what the operations on the socket give -/
structure Peer where
  /-- `resolve` of a host and a service: the error code and the number of endpoints -/
  resolve : ByteArray → ByteArray → error_code × Nat
  /-- `boost::asio::connect` from the `k`-th endpoint on -/
  connect : Nat → error_code
  /-- `write_some`; how many bytes it takes is not looked at -/
  write_some : Exchange → ByteArray → error_code
  /-- whether `select` finds the socket readable within ten seconds -/
  ready : Bool
  read_some : Exchange → error_code × ByteArray
  /-- what the array of a `read_some` held before -/
  stale : Exchange → Nat → BYTE
  /-- `read_until`: the error code, the bytes read, and their number up to the delimiter -/
  read_until : error_code × ByteArray × Nat

/-- `buf[i]` after the `read_some` of an exchange -/
def Peer.buf (peer : Peer) (x : Exchange) (i : Nat) : BYTE :=
  (peer.read_some x).2.getD i (peer.stale x i)

/-- the host: its byte order, `inet_addr`, the address texts that `address::from_string` takes,
and the base64 text of the boost iterators behind `encodeBase64` -/
structure Host where
  order : ByteOrder
  inet_addr : ByteArray → BitVec 32
  isAddress : ByteArray → Bool
  encodeBase64 : ByteArray → ByteArray

/-! ## texts -/

def ascii (s : String) : ByteArray := s.toList.map fun c => BitVec.ofNat 8 c.toNat

def decimal (n : Int) : ByteArray := ascii (toString n)

def digits (s : ByteArray) : Int :=
  (s.takeWhile fun c => 48 ≤ c.toNat && c.toNat ≤ 57).foldl (fun n c => 10 * n + (c.toNat - 48)) 0

def atoi (s : ByteArray) : Int :=
  match s.dropWhile fun c => c.toNat = 32 || (9 ≤ c.toNat && c.toNat ≤ 13) with
  | 0x2d :: s => -digits s
  | 0x2b :: s => digits s
  | s => digits s

def getIpPort (data : ByteArray) : ByteArray × BitVec 16 :=
  match data.splitOn 0x3a with
  | [ip, port] => (ip, BitVec.ofInt 16 (atoi port))
  | _ => (ascii "0.0.0.0", 0)

/-! ## the handshakes -/

/-- the loop over the endpoints -/
def connectLoop (connect : Nat → error_code) : Nat → Nat → error_code → error_code
  | 0, _, error => error
  | n + 1, k, _ =>
    let error := connect k
    if error ≠ 0 then connectLoop connect n (k + 1) error else error

def connectSocket (peer : Peer) (ip : ByteArray) (port : BitVec 16) : Bool × error_code :=
  let (error, n) := peer.resolve ip (decimal port.toNat)
  let error := connectLoop peer.connect n 0 error
  if error = 0 then (true, error) else (false, error)

def httpCommand (host : Host) (info : ProxyInfo) (address : ByteArray) : ByteArray :=
  let auth := host.encodeBase64 (info.username ++ ascii ":" ++ info.password)
  ascii "CONNECT " ++ address ++ ascii " HTTP/1.1\r\n" ++
    ascii "Proxy-Authorization: Basic " ++ auth ++ ascii "\r\n" ++
    ascii "Authorization: Basic " ++ auth ++ ascii "\r\n\r\n"

def httpProxy (host : Host) (peer : Peer) (info : ProxyInfo) (address : ByteArray) :
    PROXY_CONNECT_STATUS × error_code :=
  let (connected, error) := connectSocket peer info.ip (BitVec.ofInt 16 info.port)
  if !connected then (.PROXY_ERROR, error)
  else
    let error := peer.write_some .request (httpCommand host info address)
    if error ≠ 0 then (.ENDPOINT_ERROR, error)
    else if !peer.ready then (.TIMTOUT_ERROR, error)
    else
      let (error, response, n) := peer.read_until
      if error ≠ 0 then (.ENDPOINT_ERROR, error)
      else
        let item := (response.take n).takeWhile (· != 0x0a)
        if ¬ ascii "HTTP/1.0 200" <:+: item then (.ENDPOINT_ERROR, 11130)
        else (.OK, error)

/-- a `SOCKS4_REQ` -/
def socks4Req (host : Host) (address : ByteArray) : ByteArray :=
  let (ip, port) := getIpPort address
  [4, 1] ++ store16 host.order (hton16 host.order port) ++
    store32 host.order (host.inet_addr ip) ++ [0]

def sock4Proxy (host : Host) (peer : Peer) (info : ProxyInfo) (address : ByteArray) :
    PROXY_CONNECT_STATUS × error_code :=
  let (connected, error) := connectSocket peer info.ip (BitVec.ofInt 16 info.port)
  if !connected then (.PROXY_ERROR, error)
  else
    let error := peer.write_some .request (socks4Req host address)
    if error ≠ 0 then (.PROXY_ERROR, error)
    else if !peer.ready then (.TIMTOUT_ERROR, error)
    else
      let error := (peer.read_some .request).1
      if error ≠ 0 then (.PROXY_ERROR, error)
      else if peer.buf .request 0 ≠ 0 ∨ peer.buf .request 1 ≠ 90 then
        -- 17026 goes into a local variable that hides the argument
        (.ENDPOINT_ERROR, error)
      else (.OK, error)

/-- a `SOCKS5_REQ1` -/
def socks5Req1 (info : ProxyInfo) : ByteArray := [5, 1, if info.need_check then 2 else 0]

/-- the used part of a `SOCKS5_AUTH_REQ` -/
def socks5AuthReq (info : ProxyInfo) : ByteArray :=
  let ulen := min 255 info.username.length
  let plen := min 255 info.password.length
  [1, BitVec.ofNat 8 ulen] ++ info.username.take ulen ++ [BitVec.ofNat 8 plen] ++
    info.password.take plen

/-- a `SOCKS5_REQ2` -/
def socks5Req2 (host : Host) (address : ByteArray) : ByteArray :=
  let (ip, port) := getIpPort address
  [5, 1, 0, 1] ++ store32 host.order (host.inet_addr ip) ++
    store16 host.order (hton16 host.order port)

/-- the part of `sock5Proxy` behind the authentication -/
def sock5Request (host : Host) (peer : Peer) (address : ByteArray) :
    PROXY_CONNECT_STATUS × error_code :=
  let error := peer.write_some .request (socks5Req2 host address)
  if error ≠ 0 then (.ENDPOINT_ERROR, error)
  else
    let error := (peer.read_some .request).1
    if error ≠ 0 then (.ENDPOINT_ERROR, error)
    else if peer.buf .request 0 ≠ 5 ∨ peer.buf .request 1 ≠ 0 then (.ENDPOINT_ERROR, 31826)
    else (.OK, error)

/-- the part of `sock5Proxy` behind the choice of a method -/
def sock5Auth (host : Host) (peer : Peer) (info : ProxyInfo) (address : ByteArray) :
    PROXY_CONNECT_STATUS × error_code :=
  if info.need_check then
    let error := peer.write_some .auth (socks5AuthReq info)
    if error ≠ 0 then (.PROXY_ERROR, error)
    else
      let error := (peer.read_some .auth).1
      if error ≠ 0 then (.PROXY_ERROR, error)
      else if peer.buf .auth 0 ≠ 1 ∨ peer.buf .auth 1 ≠ 0 then (.PROXY_ERROR, 27526)
      else sock5Request host peer address
  else sock5Request host peer address

def sock5Proxy (host : Host) (peer : Peer) (info : ProxyInfo) (address : ByteArray) :
    PROXY_CONNECT_STATUS × error_code :=
  let (connected, error) := connectSocket peer info.ip (BitVec.ofInt 16 info.port)
  if !connected then (.PROXY_ERROR, error)
  else
    let error := peer.write_some .method (socks5Req1 info)
    if error ≠ 0 then (.PROXY_ERROR, error)
    else if !peer.ready then (.TIMTOUT_ERROR, error)
    else
      let error := (peer.read_some .method).1
      if error ≠ 0 then (.PROXY_ERROR, error)
      else if peer.buf .method 0 ≠ 5 ∨ (peer.buf .method 1 ≠ 0 ∧ peer.buf .method 1 ≠ 2) then
        -- 21726 goes into a local variable that hides the argument
        (.PROXY_ERROR, error)
      else sock5Auth host peer info address

/-- `ProxyHelper::passProxy`: the status, and the `error` argument -/
def passProxy (host : Host) (peer : Peer) (info : ProxyInfo) (address : ByteArray) :
    PROXY_CONNECT_STATUS × error_code :=
  match info.type with
  | .NON =>
    let (ip, port) := getIpPort address
    let (connected, error) := connectSocket peer ip port
    if connected then (.OK, error) else (.ENDPOINT_ERROR, error)
  | .HTTP => httpProxy host peer info address
  | .SOCKS4 => sock4Proxy host peer info address
  | .SOCKS5 => sock5Proxy host peer info address

/-! ## connecting -/

namespace CommonSocket

/-- the text that `async_connect` and `connect` build -/
def address (serverIp : ByteArray) (port : Int) : ByteArray :=
  serverIp ++ ascii ":" ++ decimal port

/-- what the callback of `async_connect` is called with; without a proxy it is called later -/
def async_connect (host : Host) (peer : Peer) (info : ProxyInfo) (serverIp : ByteArray)
    (port : Int) : Option error_code :=
  if info.isEnabled then
    let (pstat, error) := passProxy host peer info (address serverIp port)
    match pstat with
    | .OK => some error
    | .TIMTOUT_ERROR => some timed_out
    | _ => some error
  else none

/-- the `error` argument after `connect`; an address text that is none is answered by an exception,
before anything else happens -/
def connect (host : Host) (peer : Peer) (info : ProxyInfo) (serverIp : ByteArray) (port : Int) :
    Option error_code :=
  if host.isAddress serverIp then
    let (pstat, error) := passProxy host peer info (address serverIp port)
    if pstat = .TIMTOUT_ERROR then some timed_out else some error
  else none

end CommonSocket

/-! ## status and error code -/

/-- the error code that a connect reports -/
def reported (r : PROXY_CONNECT_STATUS × error_code) : error_code :=
  if r.1 = .TIMTOUT_ERROR then timed_out else r.2

def Agrees (r : PROXY_CONNECT_STATUS × error_code) : Prop := reported r = 0 ↔ r.1 = .OK

theorem agrees_ok {e : error_code} (he : e = 0) : Agrees (.OK, e) := by
  rw [he]
  exact ⟨fun _ => rfl, fun _ => rfl⟩

theorem agrees_timeout (e : error_code) : Agrees (.TIMTOUT_ERROR, e) := by
  constructor
  · intro h
    cases h
  · intro h
    cases h

theorem agrees_fail {st : PROXY_CONNECT_STATUS} {e : error_code} (hst : st ≠ .OK) (he : e ≠ 0) :
    Agrees (st, e) := by
  refine ⟨fun h => ?_, fun h => absurd h hst⟩
  unfold reported at h
  split at h
  · cases h
  · exact absurd h he

/-- a failure with a clear error code -/
theorem not_agrees {st : PROXY_CONNECT_STATUS} {e : error_code} (hst : st ≠ .OK)
    (ht : st ≠ .TIMTOUT_ERROR) (he : e = 0) : ¬ Agrees (st, e) := by
  intro h
  refine hst (h.mp ?_)
  rw [reported, if_neg ht, he]

theorem connectSocket_error (peer : Peer) (ip : ByteArray) (port : BitVec 16) :
    (connectSocket peer ip port).1 = true ↔ (connectSocket peer ip port).2 = 0 := by
  unfold connectSocket
  dsimp only
  split
  · rename_i h
    exact ⟨fun _ => h, fun _ => rfl⟩
  · rename_i h
    exact iff_of_false (by simp) h

section
variable (host : Host) (peer : Peer) (info : ProxyInfo) (addr : ByteArray)

/-- the proxy takes the connection and the first message, and its answer is read -/
def Answers (x : Exchange) (message : ByteArray) : Prop :=
  (connectSocket peer info.ip (BitVec.ofInt 16 info.port)).1 = true ∧
    peer.write_some x message = 0 ∧ peer.ready = true ∧ (peer.read_some x).1 = 0

/-- a SOCKS4 proxy answers, and refuses the request -/
def Refuses4 : Prop :=
  Answers peer info .request (socks4Req host addr) ∧
    (peer.buf .request 0 ≠ 0 ∨ peer.buf .request 1 ≠ 90)

/-- a SOCKS5 proxy answers, and selects no usable method -/
def NoMethod5 : Prop :=
  Answers peer info .method (socks5Req1 info) ∧
    (peer.buf .method 0 ≠ 5 ∨ (peer.buf .method 1 ≠ 0 ∧ peer.buf .method 1 ≠ 2))

/-- what the handshakes have in common up to the first answer: on the exits before it status and
error code agree -/
theorem agrees_answer (x : Exchange) (message : ByteArray) (fail : PROXY_CONNECT_STATUS)
    (hf : fail ≠ .OK) (rest : error_code → PROXY_CONNECT_STATUS × error_code) {P : Prop}
    (hrest : Answers peer info x message → (Agrees (rest 0) ↔ P))
    (hP : ¬ Answers peer info x message → P) :
    Agrees (
      let (connected, error) := connectSocket peer info.ip (BitVec.ofInt 16 info.port)
      if !connected then (.PROXY_ERROR, error)
      else
        let error := peer.write_some x message
        if error ≠ 0 then (fail, error)
        else if !peer.ready then (.TIMTOUT_ERROR, error)
        else
          let error := (peer.read_some x).1
          if error ≠ 0 then (fail, error) else rest error) ↔ P := by
  have hc := connectSocket_error peer info.ip (BitVec.ofInt 16 info.port)
  unfold Answers at hrest hP
  obtain ⟨⟨connected, error⟩, hs⟩ :
    ∃ q, connectSocket peer info.ip (BitVec.ofInt 16 info.port) = q := ⟨_, rfl⟩
  simp only [hs] at hc hrest hP ⊢
  cases connected with
  | false =>
    have he : error ≠ 0 := fun h => Bool.false_ne_true (hc.mpr h)
    exact iff_of_true (agrees_fail (by simp) he) (hP fun h => Bool.false_ne_true h.1)
  | true =>
    rw [if_neg (by simp)]
    by_cases hw : peer.write_some x message = 0
    · rw [if_neg (by rw [hw]; simp)]
      cases hr : peer.ready with
      | false => exact iff_of_true (agrees_timeout _) (hP fun h => by rw [hr] at h; cases h.2.2.1)
      | true =>
        rw [if_neg (by simp)]
        by_cases hd : (peer.read_some x).1 = 0
        · rw [if_neg (by rw [hd]; simp), hd]
          exact hrest ⟨rfl, hw, hr, hd⟩
        · rw [if_pos hd]
          exact iff_of_true (agrees_fail hf hd) (hP fun h => hd h.2.2.2)
    · rw [if_pos hw]
      exact iff_of_true (agrees_fail hf hw) (hP fun h => hw h.2.1)

theorem httpProxy_agrees : Agrees (httpProxy host peer info addr) := by
  have hc := connectSocket_error peer info.ip (BitVec.ofInt 16 info.port)
  unfold httpProxy
  split
  rename_i connected error hs
  simp only [hs] at hc
  split
  · rename_i hn
    have he : error ≠ 0 := by
      intro h
      rw [hc.mpr h] at hn
      cases hn
    exact agrees_fail (by simp) he
  · dsimp only
    split
    · rename_i hw
      exact agrees_fail (by simp) hw
    · split
      · exact agrees_timeout _
      · split
        · rename_i hr
          exact agrees_fail (by simp) hr
        · rename_i hr
          split
          · exact agrees_fail (by simp) (by decide)
          · exact agrees_ok (not_not.mp hr)

/-- **SOCKS4: status and error code agree, unless the proxy refuses the request.** -/
theorem sock4Proxy_agrees :
    Agrees (sock4Proxy host peer info addr) ↔ ¬ Refuses4 host peer info addr := by
  refine agrees_answer peer info .request (socks4Req host addr) .PROXY_ERROR (by simp)
    (fun error => if peer.buf .request 0 ≠ 0 ∨ peer.buf .request 1 ≠ 90 then
      (.ENDPOINT_ERROR, error) else (.OK, error)) ?_ (fun hn h => hn h.1)
  intro ha
  by_cases hb : peer.buf .request 0 ≠ 0 ∨ peer.buf .request 1 ≠ 90
  · rw [if_pos hb]
    exact iff_of_false (not_agrees (by simp) (by simp) rfl) (not_not.mpr ⟨ha, hb⟩)
  · rw [if_neg hb]
    exact iff_of_true (agrees_ok rfl) fun h => hb h.2

theorem sock5Request_agrees : Agrees (sock5Request host peer addr) := by
  unfold sock5Request
  dsimp only
  split
  · rename_i hw
    exact agrees_fail (by simp) hw
  · split
    · rename_i hr
      exact agrees_fail (by simp) hr
    · rename_i hr
      split
      · exact agrees_fail (by simp) (by decide)
      · exact agrees_ok (not_not.mp hr)

/-- behind the choice of a method status and error code agree -/
theorem sock5Auth_agrees : Agrees (sock5Auth host peer info addr) := by
  unfold sock5Auth
  dsimp only
  split
  · split
    · rename_i hw
      exact agrees_fail (by simp) hw
    · split
      · rename_i hr
        exact agrees_fail (by simp) hr
      · split
        · exact agrees_fail (by simp) (by decide)
        · exact sock5Request_agrees host peer addr
  · exact sock5Request_agrees host peer addr

/-- **SOCKS5: status and error code agree, unless the proxy selects no usable method.** -/
theorem sock5Proxy_agrees :
    Agrees (sock5Proxy host peer info addr) ↔ ¬ NoMethod5 peer info := by
  refine agrees_answer peer info .method (socks5Req1 info) .PROXY_ERROR (by simp)
    (fun error => if peer.buf .method 0 ≠ 5 ∨ (peer.buf .method 1 ≠ 0 ∧ peer.buf .method 1 ≠ 2) then
      (.PROXY_ERROR, error) else sock5Auth host peer info addr) ?_ (fun hn h => hn h.1)
  intro ha
  by_cases hb : peer.buf .method 0 ≠ 5 ∨ (peer.buf .method 1 ≠ 0 ∧ peer.buf .method 1 ≠ 2)
  · rw [if_pos hb]
    exact iff_of_false (not_agrees (by simp) (by simp) rfl) (not_not.mpr ⟨ha, hb⟩)
  · rw [if_neg hb]
    exact iff_of_true (sock5Auth_agrees host peer info addr) fun h => hb h.2

/-- the replies whose error code is lost: a SOCKS4 refusal, a SOCKS5 answer without a usable
method -/
def Hidden : Prop :=
  (info.type = .SOCKS4 ∧ Refuses4 host peer info addr) ∨ (info.type = .SOCKS5 ∧ NoMethod5 peer info)

theorem passProxy_agrees :
    Agrees (passProxy host peer info addr) ↔ ¬ Hidden host peer info addr := by
  unfold passProxy Hidden
  cases ht : info.type with
  | NON =>
    refine iff_of_true ?_ (by simp)
    dsimp only
    have hc := connectSocket_error peer (getIpPort addr).1 (getIpPort addr).2
    split
    · rename_i h
      exact agrees_ok (hc.mp h)
    · rename_i h
      exact agrees_fail (by simp) fun h' => h (hc.mpr h')
  | HTTP => exact iff_of_true (httpProxy_agrees host peer info addr) (by simp)
  | SOCKS4 => simpa using sock4Proxy_agrees host peer info addr
  | SOCKS5 => simpa using sock5Proxy_agrees host peer info addr

end

namespace CommonSocket
variable (host : Host) (peer : Peer) (info : ProxyInfo) (serverIp : ByteArray) (port : Int)

theorem async_connect_reported (h : info.isEnabled = true) :
    async_connect host peer info serverIp port
      = some (reported (passProxy host peer info (address serverIp port))) := by
  unfold async_connect reported
  rw [if_pos h]
  generalize passProxy host peer info (address serverIp port) = r
  obtain ⟨st, e⟩ := r
  cases st <;> rfl

theorem connect_reported (h : host.isAddress serverIp = true) :
    connect host peer info serverIp port
      = some (reported (passProxy host peer info (address serverIp port))) := by
  unfold connect reported
  rw [if_pos h]
  generalize passProxy host peer info (address serverIp port) = r
  obtain ⟨st, e⟩ := r
  dsimp only
  split <;> rfl

/-- a connect that ends without an exception reports a clear error code exactly if the proxy was
passed -/
def Reports : Prop :=
  (∀ e ∈ async_connect host peer info serverIp port,
    e = 0 ↔ (passProxy host peer info (address serverIp port)).1 = .OK) ∧
  (∀ e ∈ connect host peer info serverIp port,
    e = 0 ↔ (passProxy host peer info (address serverIp port)).1 = .OK)

/-- **A connect reports success exactly when the proxy was passed, unless one of the two replies
comes whose error code is lost.** -/
theorem connect_reports_iff :
    Reports host peer info serverIp port ↔ ¬ Hidden host peer info (address serverIp port) := by
  constructor
  · rintro ⟨ha, -⟩ hh
    have he : info.isEnabled = true := by
      rcases hh with ⟨ht, -⟩ | ⟨ht, -⟩ <;>
      · rw [ProxyInfo.isEnabled, ht]
        rfl
    exact (passProxy_agrees host peer info _).mp
      (ha _ (async_connect_reported host peer info serverIp port he)) hh
  · intro hh
    have hag := (passProxy_agrees host peer info (address serverIp port)).mpr hh
    refine ⟨fun e he => ?_, fun e he => ?_⟩
    · by_cases hen : info.isEnabled = true
      · rw [async_connect_reported host peer info serverIp port hen] at he
        injection he with he
        exact he ▸ hag
      · rw [async_connect, if_neg hen] at he
        cases he
    · by_cases hadr : host.isAddress serverIp = true
      · rw [connect_reported host peer info serverIp port hadr] at he
        injection he with he
        exact he ▸ hag
      · rw [connect, if_neg hadr] at he
        cases he

/-- a proxy that takes everything and answers each exchange with the same two bytes -/
def answering (reply : ByteArray) : Peer where
  resolve := fun _ _ => (0, 1)
  connect := fun _ => 0
  write_some := fun _ _ => 0
  ready := true
  read_some := fun _ => (0, reply)
  stale := fun _ _ => 0
  read_until := (0, [], 0)

def someHost : Host := ⟨.little, fun _ => 0, fun _ => true, fun _ => []⟩

def socks4At (ip : String) : ProxyInfo := ⟨.SOCKS4, ascii ip, 1080, false, [], []⟩

/-- a SOCKS4 proxy rejects the request (code 91), and both connects report success -/
theorem refusal_hidden :
    let peer := answering [0, 91, 0, 0, 0, 0, 0, 0]
    let info := socks4At "10.0.0.1"
    let serverIp := ascii "10.0.0.2"
    (passProxy someHost peer info (address serverIp 80)).1 = .ENDPOINT_ERROR ∧
      async_connect someHost peer info serverIp 80 = some 0 ∧
      connect someHost peer info serverIp 80 = some 0 ∧
      ¬ Reports someHost peer info serverIp 80 := by
  intro peer info serverIp
  have hp : (passProxy someHost peer info (address serverIp 80)).1 = .ENDPOINT_ERROR := by decide
  have ha : async_connect someHost peer info serverIp 80 = some 0 := by decide
  refine ⟨hp, ha, by decide, fun h => ?_⟩
  have := (h.1 0 ha).mp rfl
  rw [hp] at this
  cases this

end CommonSocket

end Netwb
