import Netwb.Net.Package

/-!
# The cipher interface

`BaseCipher` of `net/BaseCipher.h`.  A call gets the raw bytes and the room at the destination and
answers a status with the bytes it writes there.  Every call starts the cipher afresh (the
`EVP_*Init_ex` at the head of `AESCipher::encrypt` and `decrypt`), so a cipher is a pair of
functions.
-/

namespace Netwb
open Wire

inductive CIPHER_STATUS where
  | OK
  | BUFFER_ERROR
  | UNKNOWN_ERROR
deriving DecidableEq, Repr

structure BaseCipher where
  encrypt : ByteArray → Nat → CIPHER_STATUS × ByteArray
  decrypt : ByteArray → Nat → CIPHER_STATUS × ByteArray

def AES_BLOCK_SIZE : Nat := 16

/-- what the two ends of a channel rely on: with room for whole blocks `encrypt` succeeds and keeps
the length, and `decrypt` of a ciphertext with anything behind it gives the plaintext with
something behind it -/
structure BaseCipher.Matching (c : BaseCipher) where
  cipherOf : ByteArray → ByteArray
  cipher_length : ∀ p, (cipherOf p).length = p.length
  encrypt_ok : ∀ p room, p.length + AES_BLOCK_SIZE ≤ room → c.encrypt p room = (.OK, cipherOf p)
  decrypt_ok : ∀ p tail room, p.length + tail.length ≤ room →
    ∃ rest, c.decrypt (cipherOf p ++ tail) room = (.OK, p ++ rest)

/-- the frame of a plaintext block: the length of the whole, the length of the block, the
ciphertext -/
def BaseCipher.Matching.sealed {c : BaseCipher} (m : c.Matching) (p : ByteArray) : ByteArray :=
  be32 (BitVec.ofNat 32 (8 + (m.cipherOf p).length)) ++ be32 (BitVec.ofNat 32 p.length) ++
    m.cipherOf p

theorem sealed_length {c : BaseCipher} (m : c.Matching) (p : ByteArray) :
    (m.sealed p).length = 8 + p.length := by
  rw [BaseCipher.Matching.sealed, List.length_append, m.cipher_length]
  rfl

/-- different blocks have different ciphertexts: they are decrypted to different blocks -/
theorem cipherOf_injective {c : BaseCipher} (m : c.Matching) {p q : ByteArray}
    (h : m.cipherOf p = m.cipherOf q) : p = q := by
  have hl : p.length = q.length := by rw [← m.cipher_length p, h, m.cipher_length]
  obtain ⟨r, hr⟩ := m.decrypt_ok p [] p.length (by simp)
  obtain ⟨s, hs⟩ := m.decrypt_ok q [] p.length (by simp [hl])
  rw [h, hs] at hr
  injection hr with _ hr
  exact (List.append_inj hr hl.symm).1.symm

theorem sealed_injective {c : BaseCipher} (m : c.Matching) {p q : ByteArray}
    (h : m.sealed p = m.sealed q) : p = q :=
  cipherOf_injective m (List.append_inj h rfl).2

end Netwb
