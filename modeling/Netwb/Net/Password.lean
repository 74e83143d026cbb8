import Netwb.Net.Base64
import Netwb.Net.Cipher

/-!
# Stored passwords

`AESCipher::encrypt` and `AESCipher::decrypt`, and the two functions over them that store a password
and recover it, of `net/Cipher.cpp`.  The library behind `EVP_EncryptUpdate` and `EVP_DecryptUpdate`
is a parameter (`Evp`).  Beside its result a function reports the ranges that it writes.

There are three limits.  The cipher takes 1024 bytes; the characters of 381 bytes and a NUL fit into
512 bytes; and a password that the cipher refused is stored as it is, and decoded as if it were not.

* `stored_short`             up to 1024 bytes: what is stored, and the room that it takes;
* `stored_long`              beyond: the password itself;
* `password_recovered_iff`   when a password is recovered, and nothing is written outside.
-/

namespace Netwb
open Wire Vec

/-- AES-256 in CFB mode, the key and the initial vector derived from key data by
`EVP_BytesToKey` -/
structure Evp where
  encrypt : ByteArray → ByteArray → ByteArray
  decrypt : ByteArray → ByteArray → ByteArray
  encrypt_length : ∀ key raw, (encrypt key raw).length = raw.length
  decrypt_length : ∀ key raw, (decrypt key raw).length = raw.length
  decrypt_encrypt : ∀ key raw, decrypt key (encrypt key raw) = raw

section
variable (evp : Evp) (wild : Int → BYTE)

/-- `EVP_EncryptUpdate` and `EVP_DecryptUpdate`: the bytes written, or a failure for a negative
length.  `EVP_EncryptFinal_ex` and `EVP_DecryptFinal_ex` add none in this mode. -/
def evpUpdate (f : ByteArray → ByteArray) (raw : ByteArray) (inl : Int) : Option ByteArray :=
  if inl < 0 then none else some (f (peeks wild raw 0 inl.toNat))

/-- `AESCipher::encrypt(raw, rawLen, dest, destLen)`: the status, what is written to `dest`, and
`*destLen` -/
def AESCipher.encrypt (key raw : ByteArray) (rawLen destLen : Nat) :
    CIPHER_STATUS × ByteArray × Nat :=
  let c_len := toInt32 (if rawLen % AES_BLOCK_SIZE = 0 then rawLen
    else (rawLen / AES_BLOCK_SIZE + 1) * AES_BLOCK_SIZE : Nat)
  if destLen < toSize c_len then (.BUFFER_ERROR, [], destLen)
  else
    match evpUpdate wild (evp.encrypt key) raw (toInt32 rawLen) with
    | none => (.UNKNOWN_ERROR, [], destLen)
    | some out => (.OK, out, out.length)

def AESCipher.decrypt (key raw : ByteArray) (rawLen destLen : Nat) :
    CIPHER_STATUS × ByteArray × Nat :=
  if destLen < rawLen then (.BUFFER_ERROR, [], destLen)
  else
    match evpUpdate wild (evp.decrypt key) raw (toInt32 rawLen) with
    | none => (.UNKNOWN_ERROR, [], destLen)
    | some out => (.OK, out, out.length)

/-- `rzrk.key` -/
def passwordKey : ByteArray := [0x72, 0x7a, 0x72, 0x6b, 0x2e, 0x6b, 0x65, 0x79]

/-- the key data of a user: the first letters of the name are added to it -/
def keysOf (strUser : ByteArray) : ByteArray :=
  (List.range passwordKey.length).map fun i => passwordKey.getD i 0 + strUser.getD i 0

/-- `encryptPassword`, with the ranges that it writes to `out` and `buf`; `string(&buf[0], buflen)`
is taken for what was just written there -/
def encryptPassword (strUser strPassword : ByteArray) : ByteArray × List Span :=
  let r := AESCipher.encrypt evp wild (keysOf strUser) strPassword strPassword.length 1024
  let written := r.2.1
  let outlen := r.2.2
  let out := memcpy (List.replicate 1024 0) 0 written
  if outlen ≠ strPassword.length then (strPassword, [⟨0, written.length, 1024⟩])
  else
    let buf := base64_encode urlTables BASE64_IGNORE_SPACE 0 (peeks wild out 0 outlen)
    (buf, [⟨0, written.length, 1024⟩, ⟨0, buf.length + 1, 512⟩])

/-- `decryptPassword`, with the ranges that it writes to `buf` and `out` -/
def decryptPassword (strUser strPassword : ByteArray) : ByteArray × List Span :=
  let d := base64_decode urlTables BASE64_IGNORE_SPACE strPassword
  let decoded := d.2
  let buflen := toInt32 d.1
  let buf := memcpy (List.replicate 512 0) 0 decoded
  let r := AESCipher.decrypt evp wild (keysOf strUser) buf (toSize buflen) 512
  let written := r.2.1
  let outlen := r.2.2
  let out := memcpy (List.replicate 512 0) 0 written
  let writes : List Span := [⟨0, decoded.length, 512⟩, ⟨0, written.length, 512⟩]
  if outlen ≠ toSize buflen then (strPassword, writes) else (peeks wild out 0 outlen, writes)

/-- the password comes back, and nothing is written outside -/
def Recovered (strUser strPassword : ByteArray) : Prop :=
  let stored := encryptPassword evp wild strUser strPassword
  let back := decryptPassword evp wild strUser stored.1
  back.1 = strPassword ∧ ∀ s ∈ stored.2 ++ back.2, s.Inside

/-! ## storing -/

theorem encrypt_short (key raw : ByteArray) (h : raw.length ≤ 1024) :
    AESCipher.encrypt evp wild key raw raw.length 1024
      = (.OK, evp.encrypt key raw, raw.length) := by
  have hlen : toInt32 (raw.length : Int) = raw.length := toInt32_eq (by omega) (by omega)
  have hroom : ¬ 1024 < toSize (toInt32 (if raw.length % AES_BLOCK_SIZE = 0 then raw.length
      else (raw.length / AES_BLOCK_SIZE + 1) * AES_BLOCK_SIZE : Nat)) := by
    unfold toInt32 toSize AES_BLOCK_SIZE
    split <;> omega
  have hupdate : evpUpdate wild (evp.encrypt key) raw (toInt32 raw.length)
      = some (evp.encrypt key raw) := by
    rw [evpUpdate, hlen, if_neg (by omega), Int.toNat_natCast, peeks_all]
  rw [AESCipher.encrypt, if_neg hroom, hupdate]
  dsimp only
  rw [evp.encrypt_length]

/-- the room that it asks for, cut to an `int`, is more than 1024 bytes, or the number of bytes that
it takes is cut as well -/
theorem encrypt_room {n : Nat} (h : 1024 < n)
    (hroom : ¬ 1024 < toSize (toInt32 (if n % AES_BLOCK_SIZE = 0 then n
      else (n / AES_BLOCK_SIZE + 1) * AES_BLOCK_SIZE : Nat))) :
    toInt32 (n : Int) ≤ 1024 ∧ toInt32 (n : Int) < n := by
  unfold toInt32 toSize AES_BLOCK_SIZE at *
  split at hroom <;> omega

/-- beyond that either it refuses, or it takes fewer bytes because their number is cut to an
`int`; what it writes is within its room -/
theorem encrypt_long (key raw : ByteArray) (h : 1024 < raw.length) :
    ∃ status written outlen, AESCipher.encrypt evp wild key raw raw.length 1024
      = (status, written, outlen) ∧ outlen ≠ raw.length ∧ written.length ≤ 1024 := by
  have hne : 1024 ≠ raw.length := by omega
  by_cases hroom : 1024 < toSize (toInt32 (if raw.length % AES_BLOCK_SIZE = 0 then raw.length
      else (raw.length / AES_BLOCK_SIZE + 1) * AES_BLOCK_SIZE : Nat))
  · refine ⟨.BUFFER_ERROR, [], 1024, ?_, hne, Nat.zero_le _⟩
    rw [AESCipher.encrypt, if_pos hroom]
  · obtain ⟨hle, hlt⟩ := encrypt_room h hroom
    by_cases hneg : toInt32 (raw.length : Int) < 0
    · refine ⟨.UNKNOWN_ERROR, [], 1024, ?_, hne, Nat.zero_le _⟩
      rw [AESCipher.encrypt, if_neg hroom, evpUpdate, if_pos hneg]
    · have hwritten : (evp.encrypt key (peeks wild raw 0 (toInt32 raw.length).toNat)).length
          = (toInt32 raw.length).toNat := by rw [evp.encrypt_length, peeks_length]
      refine ⟨.OK, evp.encrypt key (peeks wild raw 0 (toInt32 raw.length).toNat),
        (toInt32 raw.length).toNat, ?_, by omega, by omega⟩
      rw [AESCipher.encrypt, if_neg hroom, evpUpdate, if_neg hneg]
      dsimp only
      rw [hwritten]

theorem stored_short (strUser strPassword : ByteArray) (h : strPassword.length ≤ 1024) :
    encryptPassword evp wild strUser strPassword
      = (base64_encode urlTables BASE64_IGNORE_SPACE 0
          (evp.encrypt (keysOf strUser) strPassword),
        [⟨0, strPassword.length, 1024⟩, ⟨0, (strPassword.length + 2) / 3 * 4 + 1, 512⟩]) := by
  have hlen := evp.encrypt_length (keysOf strUser) strPassword
  have hout : peeks wild (memcpy (List.replicate 1024 0) 0
      (evp.encrypt (keysOf strUser) strPassword)) 0 strPassword.length
        = evp.encrypt (keysOf strUser) strPassword := by
    have hp := peeks_memcpy wild (List.replicate 1024 0) (evp.encrypt (keysOf strUser) strPassword)
      (by rw [hlen, List.length_replicate]; exact h)
    rwa [hlen] at hp
  rw [encryptPassword, encrypt_short evp wild _ _ h]
  dsimp only
  rw [if_neg (fun hne => hne rfl), hout, base64_encode_length, hlen]

theorem stored_long (strUser strPassword : ByteArray) (h : 1024 < strPassword.length) :
    ∃ n ≤ 1024, encryptPassword evp wild strUser strPassword = (strPassword, [⟨0, n, 1024⟩]) := by
  obtain ⟨status, written, outlen, he, hne, hle⟩ :=
    encrypt_long evp wild (keysOf strUser) strPassword h
  refine ⟨written.length, hle, ?_⟩
  rw [encryptPassword, he]
  exact if_pos hne

/-! ## recovering -/

theorem decrypt_takes (key raw : ByteArray) {n : Nat} (h : n ≤ 512) :
    AESCipher.decrypt evp wild key raw n 512 = (.OK, evp.decrypt key (peeks wild raw 0 n), n) := by
  have hlen : toInt32 (n : Int) = n := toInt32_eq (by omega) (by omega)
  rw [AESCipher.decrypt, if_neg (by omega), evpUpdate, hlen, if_neg (by omega), Int.toNat_natCast]
  dsimp only
  rw [evp.decrypt_length, peeks_length]

/-- what the decoder accepts is taken for a stored password -/
theorem back_taken (strUser text : ByteArray) {n : Nat}
    (hret : toInt32 (base64_decode urlTables BASE64_IGNORE_SPACE text).1 = n) (h : n ≤ 512) :
    decryptPassword evp wild strUser text
      = (evp.decrypt (keysOf strUser) (peeks wild (memcpy (List.replicate 512 0) 0
          (base64_decode urlTables BASE64_IGNORE_SPACE text).2) 0 n),
        [⟨0, (base64_decode urlTables BASE64_IGNORE_SPACE text).2.length, 512⟩, ⟨0, n, 512⟩]) := by
  have hsize : toSize (n : Int) = n := by
    rw [toSize_eq (by omega) (by omega), Int.toNat_natCast]
  have hlen : ∀ raw, (evp.decrypt (keysOf strUser) (peeks wild raw 0 n)).length = n := fun raw => by
    rw [evp.decrypt_length, peeks_length]
  rw [decryptPassword, hret, hsize, decrypt_takes evp wild _ _ h]
  dsimp only
  rw [if_neg (fun hne => hne rfl), hlen]
  congr 1
  have hout := peeks_memcpy wild (List.replicate 512 0) (evp.decrypt (keysOf strUser)
    (peeks wild (memcpy (List.replicate 512 0) 0
      (base64_decode urlTables BASE64_IGNORE_SPACE text).2) 0 n))
    (by rw [hlen, List.length_replicate]; exact h)
  rwa [hlen] at hout

/-- what it does not accept is given back as it is -/
theorem back_refused (strUser text : ByteArray)
    (hret : ¬ (0 ≤ toInt32 (base64_decode urlTables BASE64_IGNORE_SPACE text).1 ∧
      toInt32 (base64_decode urlTables BASE64_IGNORE_SPACE text).1 ≤ 512)) :
    decryptPassword evp wild strUser text
      = (text, [⟨0, (base64_decode urlTables BASE64_IGNORE_SPACE text).2.length, 512⟩,
          ⟨0, 0, 512⟩]) := by
  have hbig : 512 < toSize (toInt32 (base64_decode urlTables BASE64_IGNORE_SPACE text).1) := by
    unfold toSize toInt32 at *
    omega
  have hrefuse : ∀ raw, AESCipher.decrypt evp wild (keysOf strUser) raw
      (toSize (toInt32 (base64_decode urlTables BASE64_IGNORE_SPACE text).1)) 512
        = (.BUFFER_ERROR, [], 512) := fun raw => if_pos hbig
  have hne : 512 ≠ toSize (toInt32 (base64_decode urlTables BASE64_IGNORE_SPACE text).1) := by
    omega
  rw [decryptPassword, hrefuse]
  exact if_pos hne

theorem inside_front (n size : Nat) : Span.Inside ⟨0, n, size⟩ ↔ n ≤ size := by
  show n = 0 ∨ (0 : Int) ≤ 0 ∧ (0 : Int) + n ≤ size ↔ _
  omega

/-- a password of at most 381 bytes, or one that the cipher refuses and the decoder, run over it,
refuses as well before it has written more than 512 bytes -/
def Recoverable (strPassword : ByteArray) : Prop :=
  let d := base64_decode urlTables BASE64_IGNORE_SPACE strPassword
  strPassword.length ≤ 381 ∨
    1024 < strPassword.length ∧ d.2.length ≤ 512 ∧ ¬ (0 ≤ toInt32 d.1 ∧ toInt32 d.1 ≤ 512)

theorem recovered_short (strUser strPassword : ByteArray) (h : strPassword.length ≤ 1024) :
    Recovered evp wild strUser strPassword ↔ strPassword.length ≤ 381 := by
  have hlen := evp.encrypt_length (keysOf strUser) strPassword
  rw [Recovered, stored_short evp wild strUser strPassword h]
  constructor
  · rintro ⟨-, hin⟩
    have hbuf := (inside_front _ _).mp (hin ⟨0, (strPassword.length + 2) / 3 * 4 + 1, 512⟩
      (by simp))
    omega
  · intro hfits
    have hdec := base64_decode_encode (evp.encrypt (keysOf strUser) strPassword)
    have hret : toInt32 (base64_decode urlTables BASE64_IGNORE_SPACE (base64_encode urlTables
        BASE64_IGNORE_SPACE 0 (evp.encrypt (keysOf strUser) strPassword))).1
          = strPassword.length := by
      rw [hdec, hlen]
      exact toInt32_eq (by omega) (by omega)
    have hread := peeks_memcpy wild (List.replicate 512 0)
      (evp.encrypt (keysOf strUser) strPassword) (by rw [hlen, List.length_replicate]; omega)
    rw [hlen] at hread
    have hback := back_taken evp wild strUser _ hret (by omega)
    rw [hdec, hread, evp.decrypt_encrypt, hlen] at hback
    dsimp only
    rw [hback]
    refine ⟨rfl, ?_⟩
    simp only [List.cons_append, List.nil_append, List.forall_mem_cons, inside_front]
    exact ⟨h, by omega, by omega, by omega, List.forall_mem_nil _⟩

theorem recovered_long (strUser strPassword : ByteArray) (h : 1024 < strPassword.length) :
    Recovered evp wild strUser strPassword ↔
      (base64_decode urlTables BASE64_IGNORE_SPACE strPassword).2.length ≤ 512 ∧
      ¬ (0 ≤ toInt32 (base64_decode urlTables BASE64_IGNORE_SPACE strPassword).1 ∧
        toInt32 (base64_decode urlTables BASE64_IGNORE_SPACE strPassword).1 ≤ 512) := by
  obtain ⟨k, hk, hstored⟩ := stored_long evp wild strUser strPassword h
  rw [Recovered, hstored]
  dsimp only
  by_cases hret : 0 ≤ toInt32 (base64_decode urlTables BASE64_IGNORE_SPACE strPassword).1 ∧
      toInt32 (base64_decode urlTables BASE64_IGNORE_SPACE strPassword).1 ≤ 512
  · -- what comes back is too short
    refine iff_of_false ?_ fun hno => hno.2 hret
    rintro ⟨hsame, -⟩
    obtain ⟨n, hn⟩ := Int.eq_ofNat_of_zero_le hret.1
    rw [back_taken evp wild strUser strPassword hn (by omega)] at hsame
    have hlen := congrArg List.length hsame
    rw [evp.decrypt_length, peeks_length] at hlen
    omega
  · rw [back_refused evp wild strUser strPassword hret, and_iff_left hret,
      and_iff_right rfl]
    simp only [List.cons_append, List.nil_append, List.forall_mem_cons, inside_front]
    constructor
    · exact fun hin => hin.2.1
    · exact fun hle => ⟨hk, hle, Nat.zero_le _, List.forall_mem_nil _⟩

/-- **A password is recovered, and nothing is written outside, exactly when it is short enough for
the characters to fit, or refused by the cipher and by the decoder.** -/
theorem password_recovered_iff (strUser strPassword : ByteArray) :
    Recovered evp wild strUser strPassword ↔ Recoverable strPassword := by
  by_cases h : strPassword.length ≤ 1024
  · rw [recovered_short evp wild strUser strPassword h]
    exact ⟨.inl, fun hr => hr.elim id fun hl => absurd hl.1 (by omega)⟩
  · rw [recovered_long evp wild strUser strPassword (by omega)]
    exact ⟨fun hl => .inr ⟨by omega, hl⟩,
      fun hr => hr.elim (fun hs => absurd hs (by omega)) And.right⟩

end

/-- a cipher that adds nothing -/
def evpPlain : Evp where
  encrypt _ raw := raw
  decrypt _ raw := raw
  encrypt_length _ _ := rfl
  decrypt_length _ _ := rfl
  decrypt_encrypt _ _ := rfl

/-- **A password of 382 bytes is encoded over the end of `buf`.** -/
theorem password_overflow :
    ¬ Recovered evpPlain (fun _ => 0) [0x61] (List.replicate 382 0x62) := by
  rw [recovered_short _ _ _ _ (by rw [List.length_replicate]; norm_num), List.length_replicate]
  norm_num

end Netwb
