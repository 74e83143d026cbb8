import Mathlib.Data.List.TakeWhile
import Netwb.Net.Socks5

/-!
# What a proxy is asked for

The target of a connect goes through a text: `async_connect` and `connect` write `ip:port`, and the
handshakes take the text apart again with `getIpPort`.  `passProxyW` is `passProxy` with its writes
noted down (`passProxyW_erase`), and `hear` reads them as a SOCKS proxy does: numbers in network
order, a length in front of each part of the login.

* `getIpPort_address`   an address without a colon and its port come back from the text; any other
                        address becomes 0.0.0.0, port 0;
* `passProxyW_begins`   what a handshake writes is a beginning of one conversation, and all of it if
                        the proxy was passed;
* `asked_for`           this conversation asks for the address and the port of the connect, whatever
                        the byte order of the host, with the login cut at 255 bytes.
-/

namespace Netwb
open Wire

/-! ## the text of the target -/

theorem ascii_append (s t : String) : ascii (s ++ t) = ascii s ++ ascii t := by
  rw [ascii, ascii, ascii, String.toList_append, List.map_append]

/-- the digits of a number, as bytes -/
def digitBytes (n : Nat) : ByteArray := (Nat.toDigits 10 n).map fun c => BitVec.ofNat 8 c.toNat

theorem decimal_natCast (n : Nat) : decimal (n : Int) = digitBytes n := by
  have h : toString (n : Int) = n.repr := rfl
  rw [decimal, h, ascii, Nat.toList_repr]
  rfl

theorem decimal_negSucc (n : Nat) : decimal (Int.negSucc n) = 0x2d :: digitBytes (n + 1) := by
  have h : toString (Int.negSucc n) = "-" ++ (n + 1).repr := rfl
  rw [decimal, h, ascii_append]
  exact congrArg (0x2d :: ·) (by rw [ascii, Nat.toList_repr]; rfl)

theorem isDigit_byte {c : Char} (h : c.isDigit = true) :
    48 ≤ (BitVec.ofNat 8 c.toNat).toNat ∧ (BitVec.ofNat 8 c.toNat).toNat ≤ 57 ∧
      (BitVec.ofNat 8 c.toNat).toNat = c.toNat := by
  rw [Char.isDigit, Bool.and_eq_true, decide_eq_true_iff, decide_eq_true_iff] at h
  have h0 : 48 ≤ c.toNat := UInt32.le_iff_toNat_le.mp h.1
  have h9 : c.toNat ≤ 57 := UInt32.le_iff_toNat_le.mp h.2
  rw [BitVec.toNat_ofNat, Nat.mod_eq_of_lt (by omega)]
  exact ⟨h0, h9, rfl⟩

theorem digitBytes_bounds (n : Nat) : ∀ c ∈ digitBytes n, 48 ≤ c.toNat ∧ c.toNat ≤ 57 := by
  intro c hc
  obtain ⟨d, hd, rfl⟩ := List.mem_map.mp hc
  have h := isDigit_byte (Nat.isDigit_of_mem_toDigits (by decide) (by decide) hd)
  exact ⟨h.1, h.2.1⟩

theorem digitBytes_cons (n : Nat) : ∃ c s, digitBytes n = c :: s := by
  cases h : digitBytes n with
  | nil => exact absurd (List.map_eq_nil_iff.mp h) Nat.toDigits_ne_nil
  | cons c s => exact ⟨c, s, rfl⟩

/-- reading digits on from a number -/
theorem fold_bytes {cs : List Char} (h : ∀ c ∈ cs, c.isDigit = true) (k : Nat) :
    (cs.map fun c => BitVec.ofNat 8 c.toNat).foldl
        (fun (n : Int) (c : BYTE) => 10 * n + ((c.toNat : Int) - 48)) k
      = Nat.ofDigitChars 10 cs k := by
  induction cs generalizing k with
  | nil => rfl
  | cons c cs ih =>
    obtain ⟨h0, -, he⟩ := isDigit_byte (h c (List.mem_cons_self ..))
    have hk : 10 * (k : Int) + (((BitVec.ofNat 8 c.toNat).toNat : Int) - 48)
        = (10 * k + (c.toNat - 48) : Nat) := by
      rw [he] at h0 ⊢
      omega
    rw [List.map_cons, List.foldl_cons, hk, ih fun d hd => h d (List.mem_cons_of_mem _ hd),
      Nat.ofDigitChars_cons]
    rfl

theorem digits_digitBytes (n : Nat) : digits (digitBytes n) = n := by
  have hall : (digitBytes n).takeWhile (fun c => 48 ≤ c.toNat && c.toNat ≤ 57) = digitBytes n := by
    refine List.takeWhile_eq_self_iff.mpr fun c hc => ?_
    have h := digitBytes_bounds n c hc
    rw [Bool.and_eq_true, decide_eq_true_iff, decide_eq_true_iff]
    exact h
  rw [digits, hall]
  have hd : ∀ c ∈ Nat.toDigits 10 n, c.isDigit = true := fun c hc =>
    Nat.isDigit_of_mem_toDigits (by decide) (by decide) hc
  exact (fold_bytes hd 0).trans (congrArg Nat.cast Nat.ofDigitChars_ten_toDigits)

/-- **`atoi` takes back what was printed.** -/
theorem atoi_decimal (n : Int) : atoi (decimal n) = n := by
  cases n with
  | ofNat n =>
    obtain ⟨c, s, hs⟩ := digitBytes_cons n
    have hc := digitBytes_bounds n c (hs ▸ List.mem_cons_self ..)
    have hd : (digitBytes n).dropWhile (fun c => c.toNat = 32 || (9 ≤ c.toNat && c.toNat ≤ 13))
        = digitBytes n := by
      rw [hs, List.dropWhile_cons_of_neg]
      rw [Bool.or_eq_true, Bool.and_eq_true, decide_eq_true_iff, decide_eq_true_iff,
        decide_eq_true_iff]
      omega
    have hm : decimal (Int.ofNat n) = digitBytes n := decimal_natCast n
    rw [hm, atoi, hd]
    split
    · rename_i h
      rw [h] at hs
      cases hs
      exact absurd hc.1 (by decide)
    · rename_i h
      rw [h] at hs
      cases hs
      exact absurd hc.1 (by decide)
    · exact digits_digitBytes n
  | negSucc n =>
    have hd : atoi (decimal (Int.negSucc n)) = -digits (digitBytes (n + 1)) := by
      rw [decimal_negSucc]
      rfl
    rw [hd, digits_digitBytes]
    rfl

/-- no colon is printed -/
theorem colon_not_mem_decimal (n : Int) : 0x3a ∉ decimal n := by
  have hb : ∀ n, 0x3a ∉ digitBytes n := fun n h => absurd (digitBytes_bounds n _ h).2 (by decide)
  cases n with
  | ofNat n => exact fun h => hb n (decimal_natCast n ▸ h)
  | negSucc n =>
    rw [decimal_negSucc]
    intro h
    rcases List.mem_cons.mp h with h | h
    · exact absurd h (by decide)
    · exact hb _ h

/-- the address and the port that come out of the text -/
def textTarget (serverIp : ByteArray) (port : Int) : ByteArray × BitVec 16 :=
  if serverIp.contains 0x3a then (ascii "0.0.0.0", 0) else (serverIp, BitVec.ofInt 16 port)

/-- **What becomes of a target on its way through the text.** -/
theorem getIpPort_address (serverIp : ByteArray) (port : Int) :
    getIpPort (CommonSocket.address serverIp port) = textTarget serverIp port := by
  have haddr : CommonSocket.address serverIp port = serverIp ++ 0x3a :: decimal port := by
    rw [CommonSocket.address, List.append_assoc]
    rfl
  have hport := List.splitOn_eq_singleton (colon_not_mem_decimal port)
  rw [getIpPort, haddr, textTarget]
  by_cases hc : 0x3a ∈ serverIp
  · obtain ⟨front, back, hs⟩ := List.append_of_mem hc
    rw [if_pos (List.contains_iff_mem.mpr hc), hs, List.append_assoc, List.cons_append, List.splitOn_append_cons_self,
      List.splitOn_append_cons_self, hport]
    have hf := List.length_pos_iff.mpr (List.splitOn_ne_nil (0x3a : BYTE) front)
    have hb := List.length_pos_iff.mpr (List.splitOn_ne_nil (0x3a : BYTE) back)
    split
    · rename_i h
      -- there are three parts at least
      have hl := congrArg List.length h
      rw [List.length_append, List.length_append, List.length_singleton, List.length_cons,
        List.length_singleton] at hl
      omega
    · rfl
  · have hn : ¬ serverIp.contains 0x3a = true := fun h => hc (List.contains_iff_mem.mp h)
    rw [if_neg hn, List.splitOn_append_cons_self_of_not_mem hc, hport]
    show (serverIp, BitVec.ofInt 16 (atoi (decimal port))) = _
    rw [atoi_decimal]

/-! ## the handshakes with their writes -/

/-- what was handed to `write_some`, in its order -/
abbrev Writes := List (Exchange × ByteArray)

section
variable (host : Host) (peer : Peer) (info : ProxyInfo) (addr : ByteArray)

/-- `httpProxy` with its write -/
def httpProxyW : (PROXY_CONNECT_STATUS × error_code) × Writes :=
  let (connected, error) := connectSocket peer info.ip (BitVec.ofInt 16 info.port)
  if !connected then ((.PROXY_ERROR, error), [])
  else
    let command := httpCommand host info addr
    let writes : Writes := [(.request, command)]
    let error := peer.write_some .request command
    if error ≠ 0 then ((.ENDPOINT_ERROR, error), writes)
    else if !peer.ready then ((.TIMTOUT_ERROR, error), writes)
    else
      let (error, response, n) := peer.read_until
      if error ≠ 0 then ((.ENDPOINT_ERROR, error), writes)
      else
        let item := (response.take n).takeWhile (· != 0x0a)
        if ¬ ascii "HTTP/1.0 200" <:+: item then ((.ENDPOINT_ERROR, 11130), writes)
        else ((.OK, error), writes)

/-- `sock4Proxy` with its write -/
def sock4ProxyW : (PROXY_CONNECT_STATUS × error_code) × Writes :=
  let (connected, error) := connectSocket peer info.ip (BitVec.ofInt 16 info.port)
  if !connected then ((.PROXY_ERROR, error), [])
  else
    let req := socks4Req host addr
    let writes : Writes := [(.request, req)]
    let error := peer.write_some .request req
    if error ≠ 0 then ((.PROXY_ERROR, error), writes)
    else if !peer.ready then ((.TIMTOUT_ERROR, error), writes)
    else
      let error := (peer.read_some .request).1
      if error ≠ 0 then ((.PROXY_ERROR, error), writes)
      else if peer.buf .request 0 ≠ 0 ∨ peer.buf .request 1 ≠ 90 then
        ((.ENDPOINT_ERROR, error), writes)
      else ((.OK, error), writes)

/-- `sock5Request` with its write, which comes before everything else -/
def sock5RequestW : (PROXY_CONNECT_STATUS × error_code) × Writes :=
  (sock5Request host peer addr, [(.request, socks5Req2 host addr)])

/-- `sock5Auth` with its writes -/
def sock5AuthW : (PROXY_CONNECT_STATUS × error_code) × Writes :=
  if info.need_check then
    let req := socks5AuthReq info
    let error := peer.write_some .auth req
    if error ≠ 0 then ((.PROXY_ERROR, error), [(.auth, req)])
    else
      let error := (peer.read_some .auth).1
      if error ≠ 0 then ((.PROXY_ERROR, error), [(.auth, req)])
      else if peer.buf .auth 0 ≠ 1 ∨ peer.buf .auth 1 ≠ 0 then
        ((.PROXY_ERROR, 27526), [(.auth, req)])
      else
        let r := sock5RequestW host peer addr
        (r.1, (.auth, req) :: r.2)
  else sock5RequestW host peer addr

/-- `sock5Proxy` with its writes -/
def sock5ProxyW : (PROXY_CONNECT_STATUS × error_code) × Writes :=
  let (connected, error) := connectSocket peer info.ip (BitVec.ofInt 16 info.port)
  if !connected then ((.PROXY_ERROR, error), [])
  else
    let req := socks5Req1 info
    let error := peer.write_some .method req
    if error ≠ 0 then ((.PROXY_ERROR, error), [(.method, req)])
    else if !peer.ready then ((.TIMTOUT_ERROR, error), [(.method, req)])
    else
      let error := (peer.read_some .method).1
      if error ≠ 0 then ((.PROXY_ERROR, error), [(.method, req)])
      else if peer.buf .method 0 ≠ 5 ∨ (peer.buf .method 1 ≠ 0 ∧ peer.buf .method 1 ≠ 2) then
        ((.PROXY_ERROR, error), [(.method, req)])
      else
        let r := sock5AuthW host peer info addr
        (r.1, (.method, req) :: r.2)

/-- `passProxy` with its writes; without a proxy nothing is written -/
def passProxyW : (PROXY_CONNECT_STATUS × error_code) × Writes :=
  match info.type with
  | .NON => (passProxy host peer info addr, [])
  | .HTTP => httpProxyW host peer info addr
  | .SOCKS4 => sock4ProxyW host peer info addr
  | .SOCKS5 => sock5ProxyW host peer info addr

theorem sock5AuthW_erase : (sock5AuthW host peer info addr).1 = sock5Auth host peer info addr := by
  unfold sock5AuthW sock5Auth
  simp only [apply_ite Prod.fst, sock5RequestW]

/-- **Without the notes it is `passProxy`.** -/
theorem passProxyW_erase :
    (passProxyW host peer info addr).1 = passProxy host peer info addr := by
  unfold passProxyW passProxy
  cases info.type with
  | NON => rfl
  | HTTP => simp only [httpProxyW, httpProxy, apply_ite Prod.fst]
  | SOCKS4 => simp only [sock4ProxyW, sock4Proxy, apply_ite Prod.fst]
  | SOCKS5 => simp only [sock5ProxyW, sock5Proxy, apply_ite Prod.fst, sock5AuthW_erase]

/-! ## one conversation -/

/-- what follows the choice of a SOCKS5 method -/
def behindMethod : Writes :=
  (if info.need_check then [(.auth, socks5AuthReq info)] else []) ++
    [(.request, socks5Req2 host addr)]

/-- all that a handshake has to say -/
def conversation : Writes :=
  match info.type with
  | .NON => []
  | .HTTP => [(.request, httpCommand host info addr)]
  | .SOCKS4 => [(.request, socks4Req host addr)]
  | .SOCKS5 => (.method, socks5Req1 info) :: behindMethod host info addr

end

/-- what was written is a beginning, and all of it on a success -/
structure Begins (all : Writes) (r : (PROXY_CONNECT_STATUS × error_code) × Writes) : Prop where
  beginning : r.2 <+: all
  whole : r.1.1 = .OK → r.2 = all

theorem Begins.all (r : PROXY_CONNECT_STATUS × error_code) (ws : Writes) : Begins ws (r, ws) :=
  ⟨List.prefix_rfl, fun _ => rfl⟩

/-- a handshake that ends in an error may end anywhere -/
theorem Begins.fails {r : PROXY_CONNECT_STATUS × error_code} {ws all : Writes} (hr : r.1 ≠ .OK)
    (h : ws <+: all) : Begins all (r, ws) :=
  ⟨h, fun hok => absurd hok hr⟩

theorem Begins.cons {r : (PROXY_CONNECT_STATUS × error_code) × Writes} {all : Writes}
    (w : Exchange × ByteArray) (h : Begins all r) : Begins (w :: all) (r.1, w :: r.2) :=
  ⟨(List.prefix_cons_inj w).mpr h.beginning, fun hok => congrArg (w :: ·) (h.whole hok)⟩

section
variable (host : Host) (peer : Peer) (info : ProxyInfo) (addr : ByteArray)

theorem httpProxyW_begins :
    Begins [(.request, httpCommand host info addr)] (httpProxyW host peer info addr) := by
  unfold httpProxyW
  dsimp only
  split
  · exact .fails (by simp) List.nil_prefix
  · repeat' split
    all_goals exact .all _ _

theorem sock4ProxyW_begins :
    Begins [(.request, socks4Req host addr)] (sock4ProxyW host peer info addr) := by
  unfold sock4ProxyW
  dsimp only
  split
  · exact .fails (by simp) List.nil_prefix
  · repeat' split
    all_goals exact .all _ _

theorem sock5AuthW_begins :
    Begins (behindMethod host info addr) (sock5AuthW host peer info addr) := by
  have hstop : [(Exchange.auth, socks5AuthReq info)] <+:
      [(.auth, socks5AuthReq info)] ++ [(.request, socks5Req2 host addr)] := List.prefix_append ..
  unfold sock5AuthW behindMethod
  dsimp only
  split
  · split
    · exact .fails (by simp) hstop
    · split
      · exact .fails (by simp) hstop
      · split
        · exact .fails (by simp) hstop
        · exact (Begins.all _ _).cons _
  · exact .all _ _

theorem sock5ProxyW_begins :
    Begins ((.method, socks5Req1 info) :: behindMethod host info addr)
      (sock5ProxyW host peer info addr) := by
  have hstop : ∀ rest : Writes, [(Exchange.method, socks5Req1 info)] <+:
      (.method, socks5Req1 info) :: rest := fun rest => ⟨rest, rfl⟩
  unfold sock5ProxyW
  dsimp only
  split
  · exact .fails (by simp) List.nil_prefix
  · split
    · exact .fails (by simp) (hstop _)
    · split
      · exact .fails (by simp) (hstop _)
      · split
        · exact .fails (by simp) (hstop _)
        · split
          · exact .fails (by simp) (hstop _)
          · exact (sock5AuthW_begins host peer info addr).cons _

/-- **A handshake writes a beginning of one conversation**, and all of it if the proxy was
passed. -/
theorem passProxyW_begins :
    Begins (conversation host info addr) (passProxyW host peer info addr) := by
  unfold passProxyW conversation
  cases info.type with
  | NON => exact .all _ _
  | HTTP => exact httpProxyW_begins host peer info addr
  | SOCKS4 => exact sock4ProxyW_begins host peer info addr
  | SOCKS5 => exact sock5ProxyW_begins host peer info addr

end

/-! ## what the proxy reads -/

/-- what a proxy is asked for -/
structure ProxyRequest where
  login : Option (ByteArray × ByteArray)
  /-- in network order -/
  address : ByteArray
  port : BitVec 16
deriving DecidableEq, Repr

/-- a length and as many bytes, and what is left -/
def hearString : ByteArray → Option (ByteArray × ByteArray)
  | [] => none
  | len :: s => if len.toNat ≤ s.length then some (s.take len.toNat, s.drop len.toNat) else none

def hear4 : ByteArray → Option ProxyRequest
  | [vn, cd, p1, p0, a3, a2, a1, a0, other] =>
    if vn = 4 ∧ cd = 1 ∧ other = 0 then some ⟨none, [a3, a2, a1, a0], join16 p1 p0⟩ else none
  | _ => none

/-- the request of a SOCKS5 conversation -/
def hearRequest (login : Option (ByteArray × ByteArray)) : ByteArray → Option ProxyRequest
  | [ver, command, reserved, atype, a3, a2, a1, a0, p1, p0] =>
    if ver = 5 ∧ command = 1 ∧ reserved = 0 ∧ atype = 1 then
      some ⟨login, [a3, a2, a1, a0], join16 p1 p0⟩
    else none
  | _ => none

/-- the login of a SOCKS5 conversation, and the request behind it -/
def hearAuth : ByteArray → Option ProxyRequest
  | [] => none
  | ver :: s =>
    if ver = 1 then do
      let (username, s) ← hearString s
      let (password, s) ← hearString s
      hearRequest (some (username, password)) s
    else none

def hear5 : ByteArray → Option ProxyRequest
  | ver :: nmethods :: method :: s =>
    if ver = 5 ∧ nmethods = 1 then
      if method = 0 then hearRequest none s else if method = 2 then hearAuth s else none
    else none
  | _ => none

/-- what a SOCKS proxy makes of all that it is sent -/
def hear (type : PROXY_TYPE) (sent : Writes) : Option ProxyRequest :=
  let s := sent.flatMap Prod.snd
  match type with
  | .SOCKS4 => hear4 s
  | .SOCKS5 => hear5 s
  | _ => none

/-- what a connect wants of a proxy -/
def wanted (host : Host) (info : ProxyInfo) (serverIp : ByteArray) (port : Int) : ProxyRequest where
  login := if info.type = .SOCKS5 ∧ info.need_check then
    some (info.username.take 255, info.password.take 255) else none
  address := store32 host.order (host.inet_addr (textTarget serverIp port).1)
  port := (textTarget serverIp port).2

/-- a string of the login is read back, cut at 255 bytes -/
theorem hearString_string (s rest : ByteArray) :
    hearString (BitVec.ofNat 8 (min 255 s.length) :: (s.take (min 255 s.length) ++ rest))
      = some (s.take 255, rest) := by
  have hn : (BitVec.ofNat 8 (min 255 s.length)).toNat = min 255 s.length := by
    rw [BitVec.toNat_ofNat]
    omega
  have hl : (s.take (min 255 s.length)).length = min 255 s.length := by
    rw [List.length_take]
    omega
  have ht : s.take (min 255 s.length) = s.take 255 := by
    rw [← List.take_take, List.take_length]
  rw [hearString, hn, if_pos (by rw [List.length_append, hl]; omega), List.take_left' hl,
    List.drop_left' hl, ht]

/-- a word that `inet_addr` gave lies in memory byte by byte -/
theorem store32_cons (o : ByteOrder) (x : BitVec 32) :
    ∃ a b c d, store32 o x = [a, b, c, d] := by
  cases o with
  | little => exact ⟨_, _, _, _, rfl⟩
  | big => exact ⟨_, _, _, _, rfl⟩

theorem hear4_socks4Req (host : Host) (addr : ByteArray) :
    hear4 (socks4Req host addr) = some ⟨none,
      store32 host.order (host.inet_addr (getIpPort addr).1), (getIpPort addr).2⟩ := by
  obtain ⟨a, b, c, d, hs⟩ := store32_cons host.order (host.inet_addr (getIpPort addr).1)
  rw [socks4Req]
  dsimp only
  rw [store16_hton, hs]
  show some _ = _
  rw [join16_byteAt]

theorem hearRequest_socks5Req2 (login : Option (ByteArray × ByteArray)) (host : Host)
    (addr : ByteArray) :
    hearRequest login (socks5Req2 host addr) = some ⟨login,
      store32 host.order (host.inet_addr (getIpPort addr).1), (getIpPort addr).2⟩ := by
  obtain ⟨a, b, c, d, hs⟩ := store32_cons host.order (host.inet_addr (getIpPort addr).1)
  rw [socks5Req2]
  dsimp only
  rw [store16_hton, hs]
  show some _ = _
  rw [join16_byteAt]

theorem hearAuth_socks5AuthReq (info : ProxyInfo) (rest : ByteArray) :
    hearAuth (socks5AuthReq info ++ rest)
      = hearRequest (some (info.username.take 255, info.password.take 255)) rest := by
  have hs : socks5AuthReq info ++ rest = 1 :: BitVec.ofNat 8 (min 255 info.username.length) ::
      (info.username.take (min 255 info.username.length) ++
        (BitVec.ofNat 8 (min 255 info.password.length) ::
          (info.password.take (min 255 info.password.length) ++ rest))) := by
    simp [socks5AuthReq]
  rw [hs, hearAuth, if_pos rfl, hearString_string]
  show (hearString _).bind _ = _
  rw [hearString_string]
  rfl

/-- **The conversation says what the connect wants.** -/
theorem hear_conversation (host : Host) (info : ProxyInfo) (serverIp : ByteArray) (port : Int)
    (ht : info.type = .SOCKS4 ∨ info.type = .SOCKS5) :
    hear info.type (conversation host info (CommonSocket.address serverIp port))
      = some (wanted host info serverIp port) := by
  unfold conversation wanted
  rw [← getIpPort_address]
  rcases ht with ht | ht
  · rw [ht]
    exact (congrArg hear4 (List.append_nil _)).trans (hear4_socks4Req host _)
  · rw [ht]
    cases hn : info.need_check with
    | false =>
      have hm : socks5Req1 info = [5, 1, 0] := by rw [socks5Req1, hn]; rfl
      rw [hear, behindMethod, hn, hm]
      exact (congrArg (hearRequest none) (List.append_nil _)).trans
        (hearRequest_socks5Req2 none host _)
    | true =>
      have hm : socks5Req1 info = [5, 1, 2] := by rw [socks5Req1, hn]; rfl
      rw [hear, behindMethod, hn, hm]
      refine Eq.trans ?_ (hearRequest_socks5Req2 _ host _)
      exact (hearAuth_socks5AuthReq info _).trans (congrArg _ (List.append_nil _))

namespace CommonSocket

/-- **A SOCKS proxy is asked for the target of the connect and nothing else.**  Whatever comes back,
what is written is a beginning of a conversation that says what the connect wants, and the
handshake has said all of it when it succeeds. -/
theorem asked_for (host : Host) (peer : Peer) (info : ProxyInfo) (serverIp : ByteArray) (port : Int)
    (ht : info.type = .SOCKS4 ∨ info.type = .SOCKS5) :
    let r := passProxyW host peer info (address serverIp port)
    r.1 = passProxy host peer info (address serverIp port) ∧
      (∃ rest, hear info.type (r.2 ++ rest) = some (wanted host info serverIp port)) ∧
      (r.1.1 = .OK → hear info.type r.2 = some (wanted host info serverIp port)) := by
  intro r
  have hb := passProxyW_begins host peer info (address serverIp port)
  have hc := hear_conversation host info serverIp port ht
  obtain ⟨rest, hrest⟩ := hb.beginning
  refine ⟨passProxyW_erase host peer info _, ⟨rest, ?_⟩, fun hok => ?_⟩
  · rw [hrest, hc]
  · rw [hb.whole hok, hc]

/-- the address 10.0.0.2 on a little-endian host -/
def testHost : Host := ⟨.little, fun _ => 0x0200000a, fun _ => true, fun _ => []⟩

def testProxy : ProxyInfo := ⟨.SOCKS5, ascii "10.0.0.1", 1080, true, ascii "user", ascii "word"⟩

theorem asked_for_test :
    let r := passProxyW testHost (replying [5, 2] [1, 0] [5, 0]) testProxy
      (address (ascii "10.0.0.2") 8080)
    r.1.1 = .OK ∧
      hear .SOCKS5 r.2 = some ⟨some (ascii "user", ascii "word"), [10, 0, 0, 2], 8080⟩ := by
  intro r
  have h := asked_for testHost (replying [5, 2] [1, 0] [5, 0]) testProxy (ascii "10.0.0.2") 8080
    (.inr rfl)
  have hok : r.1.1 = .OK := by decide
  refine ⟨hok, (h.2.2 hok).trans (congrArg some ?_)⟩
  decide

end CommonSocket

end Netwb
