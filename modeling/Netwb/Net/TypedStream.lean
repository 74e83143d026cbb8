import Netwb.Net.Package
import Netwb.Lib.Cursor

/-!
# Typed streams

The functions `encodeBool` .. `encodeString` and `decodeBool` .. `decodeString` of `net/stream.cpp`.
Each takes the address of a pointer into the stream and moves that pointer behind the value, so here
each takes the memory and the pointer and answers the new ones.  A floating-point number is its raw
bytes.  `decodeString` throws when the length word is negative.

* `typedStream`             the fields as a cursor format: one lemma each way for every kind;
* `typedStream_round_trip`  any list of fields, of any kinds and byte orders.
-/

namespace Netwb
open Wire Cursor

/-- the bytes of an object of `n` bytes -/
def Raw (n : Nat) : Type := { bytes : ByteArray // bytes.length = n }

/-- a string whose size is an `r_int32` -/
def Text : Type := { bytes : ByteArray // bytes.length < 2 ^ 31 }

section
variable (o : ByteOrder)

/-! ## the functions of the source -/

def encodeBool (value : Bool) (m : Memory BYTE) (p : Nat) : Memory BYTE × Nat :=
  let ch : BYTE := if value then 0x31 else 0x30
  (store m p [ch], p + 1)

def encodeShort (value : Int16) (toNet : Bool) (m : Memory BYTE) (p : Nat) : Memory BYTE × Nat :=
  let t := if toNet then Int16.ofBitVec (hton16 o value.toBitVec) else value
  (store m p (store16 o t.toBitVec), p + 2)

def encodeInt (value : Int32) (toNet : Bool) (m : Memory BYTE) (p : Nat) : Memory BYTE × Nat :=
  let t := if toNet then Int32.ofBitVec (hton32 o value.toBitVec) else value
  (store m p (store32 o t.toBitVec), p + 4)

def encodeUint (value : UInt32) (toNet : Bool) (m : Memory BYTE) (p : Nat) : Memory BYTE × Nat :=
  let t := if toNet then UInt32.ofBitVec (hton32 o value.toBitVec) else value
  (store m p (store32 o t.toBitVec), p + 4)

def encodeFloat (value : Raw 4) (m : Memory BYTE) (p : Nat) : Memory BYTE × Nat :=
  (store m p value.1, p + 4)

def encodeDouble (value : Raw 8) (m : Memory BYTE) (p : Nat) : Memory BYTE × Nat :=
  (store m p value.1, p + 8)

def encodeString (value : ByteArray) (toNet : Bool) (m : Memory BYTE) (p : Nat) :
    Memory BYTE × Nat :=
  let nSize := Int32.ofNat value.length
  let nSize := if toNet then Int32.ofBitVec (hton32 o nSize.toBitVec) else nSize
  let m := store m p (store32 o nSize.toBitVec)
  let p := p + 4
  (store m p value, p + value.length)

def decodeBool (m : Memory BYTE) (p : Nat) : Bool × Nat :=
  let ch := m p
  (if ch = 0x31 then true else false, p + 1)

/-- the word of 16 bits at an address -/
def load16At (m : Memory BYTE) (p : Nat) : BitVec 16 := load16 o (m p) (m (p + 1))

def load32At (m : Memory BYTE) (p : Nat) : BitVec 32 :=
  load32 o (m p) (m (p + 1)) (m (p + 2)) (m (p + 3))

def decodeShort (fromNet : Bool) (m : Memory BYTE) (p : Nat) : Int16 × Nat :=
  let value := Int16.ofBitVec (load16At o m p)
  let value := if fromNet then Int16.ofBitVec (hton16 o value.toBitVec) else value
  (value, p + 2)

def decodeInt (fromNet : Bool) (m : Memory BYTE) (p : Nat) : Int32 × Nat :=
  let value := Int32.ofBitVec (load32At o m p)
  let value := if fromNet then Int32.ofBitVec (hton32 o value.toBitVec) else value
  (value, p + 4)

def decodeUint (fromNet : Bool) (m : Memory BYTE) (p : Nat) : UInt32 × Nat :=
  let value := UInt32.ofBitVec (load32At o m p)
  let value := if fromNet then UInt32.ofBitVec (hton32 o value.toBitVec) else value
  (value, p + 4)

def decodeFloat (m : Memory BYTE) (p : Nat) : Raw 4 × Nat :=
  (⟨fetch m p 4, fetch_length m p 4⟩, p + 4)

def decodeDouble (m : Memory BYTE) (p : Nat) : Raw 8 × Nat :=
  (⟨fetch m p 8, fetch_length m p 8⟩, p + 8)

/-- `none` when `value.resize(nLength)` throws -/
def decodeString (fromNet : Bool) (m : Memory BYTE) (p : Nat) : Option (ByteArray × Nat) :=
  let nLength := Int32.ofBitVec (load32At o m p)
  let nLength := if fromNet then Int32.ofBitVec (hton32 o nLength.toBitVec) else nLength
  let p := p + 4
  if nLength.toInt < 0 then none
  else
    let nLength := nLength.toInt.toNat
    some (fetch m p nLength, p + nLength)

end

/-! ## fields -/

/-- a value with the byte order it is written in -/
inductive Field where
  | bool (value : Bool)
  | short (value : Int16) (toNet : Bool)
  | int (value : Int32) (toNet : Bool)
  | uint (value : UInt32) (toNet : Bool)
  | float (value : Raw 4)
  | double (value : Raw 8)
  | string (value : Text) (toNet : Bool)

/-- what the reader is told of a field -/
inductive Kind where
  | bool
  | short (fromNet : Bool)
  | int (fromNet : Bool)
  | uint (fromNet : Bool)
  | float
  | double
  | string (fromNet : Bool)

def Field.kind : Field → Kind
  | .bool _ => .bool
  | .short _ toNet => .short toNet
  | .int _ toNet => .int toNet
  | .uint _ toNet => .uint toNet
  | .float _ => .float
  | .double _ => .double
  | .string _ toNet => .string toNet

def Field.size : Field → Nat
  | .bool _ => 1
  | .short .. => 2
  | .int .. => 4
  | .uint .. => 4
  | .float _ => 4
  | .double _ => 8
  | .string value _ => 4 + value.1.length

section
variable (o : ByteOrder)

def encodeField : Field → Memory BYTE → Nat → Memory BYTE × Nat
  | .bool value => encodeBool value
  | .short value toNet => encodeShort o value toNet
  | .int value toNet => encodeInt o value toNet
  | .uint value toNet => encodeUint o value toNet
  | .float value => encodeFloat value
  | .double value => encodeDouble value
  | .string value toNet => encodeString o value.1 toNet

def decodeField : Kind → Memory BYTE → Nat → Option (Field × Nat)
  | .bool, m, p => let (value, p) := decodeBool m p; some (.bool value, p)
  | .short fromNet, m, p => let (value, p) := decodeShort o fromNet m p; some (.short value fromNet, p)
  | .int fromNet, m, p => let (value, p) := decodeInt o fromNet m p; some (.int value fromNet, p)
  | .uint fromNet, m, p => let (value, p) := decodeUint o fromNet m p; some (.uint value fromNet, p)
  | .float, m, p => let (value, p) := decodeFloat m p; some (.float value, p)
  | .double, m, p => let (value, p) := decodeDouble m p; some (.double value, p)
  | .string fromNet, m, p =>
    (decodeString o fromNet m p).bind fun (value, p) =>
      if h : value.length < 2 ^ 31 then some (.string ⟨value, h⟩ fromNet, p) else none

/-! ## the bytes of a field -/

/-- a word in the order that the flag asks for -/
def ordered16 (toNet : Bool) (x : BitVec 16) : ByteArray := if toNet then be16 x else store16 o x
def ordered32 (toNet : Bool) (x : BitVec 32) : ByteArray := if toNet then be32 x else store32 o x

def Field.bytes : Field → ByteArray
  | .bool value => [if value then 0x31 else 0x30]
  | .short value toNet => ordered16 o toNet value.toBitVec
  | .int value toNet => ordered32 o toNet value.toBitVec
  | .uint value toNet => ordered32 o toNet value.toBitVec
  | .float value => value.1
  | .double value => value.1
  | .string value toNet => ordered32 o toNet (BitVec.ofNat 32 value.1.length) ++ value.1

@[simp] theorem ordered16_length (toNet : Bool) (x : BitVec 16) :
    (ordered16 o toNet x).length = 2 := by
  cases toNet <;> cases o <;> rfl

@[simp] theorem ordered32_length (toNet : Bool) (x : BitVec 32) :
    (ordered32 o toNet x).length = 4 := by
  cases toNet <;> cases o <;> rfl

@[simp] theorem bytes_length (f : Field) : (f.bytes o).length = f.size := by
  cases f with
  | bool value => rfl
  | short value toNet => exact ordered16_length o toNet _
  | int value toNet => exact ordered32_length o toNet _
  | uint value toNet => exact ordered32_length o toNet _
  | float value => exact value.2
  | double value => exact value.2
  | string value toNet =>
    show (_ ++ _ : ByteArray).length = 4 + _
    rw [List.length_append, ordered32_length]

/-! ## words -/

theorem store16_ordered (toNet : Bool) (x : BitVec 16) :
    store16 o (if toNet then hton16 o x else x) = ordered16 o toNet x := by
  cases toNet with
  | false => rfl
  | true => exact store16_hton o x

theorem store32_ordered (toNet : Bool) (x : BitVec 32) :
    store32 o (if toNet then hton32 o x else x) = ordered32 o toNet x := by
  cases toNet with
  | false => rfl
  | true => exact store32_hton o x

theorem load16_store (x : BitVec 16) {m : Memory BYTE} {p : Nat}
    (h : fetch m p 2 = store16 o x) : load16At o m p = x := by
  cases o with
  | little =>
    injection h with h0 h
    injection h with h1 _
    rw [load16At, h0, h1]
    exact join16_byteAt x
  | big =>
    injection h with h0 h
    injection h with h1 _
    rw [load16At, h0, h1]
    exact join16_byteAt x

theorem load32_store (x : BitVec 32) {m : Memory BYTE} {p : Nat}
    (h : fetch m p 4 = store32 o x) : load32At o m p = x := by
  cases o with
  | little =>
    injection h with h0 h
    injection h with h1 h
    injection h with h2 h
    injection h with h3 _
    rw [load32At, h0, h1, h2, h3]
    exact join32_byteAt x
  | big =>
    injection h with h0 h
    injection h with h1 h
    injection h with h2 h
    injection h with h3 _
    rw [load32At, h0, h1, h2, h3]
    exact join32_byteAt x

theorem hton16_hton16 (x : BitVec 16) : hton16 o (hton16 o x) = x := by
  cases o with
  | little =>
    show swap16 (join16 (byteAt x 0) (byteAt x 1)) = x
    rw [swap16_join16, join16_byteAt]
  | big => rfl

theorem hton32_hton32 (x : BitVec 32) : hton32 o (hton32 o x) = x := by
  cases o with
  | little =>
    show swap32 (join32 (byteAt x 0) (byteAt x 1) (byteAt x 2) (byteAt x 3)) = x
    rw [swap32_join32, join32_byteAt]
  | big => rfl

theorem load16_ordered (toNet : Bool) (x : BitVec 16) {m : Memory BYTE} {p : Nat}
    (h : fetch m p 2 = ordered16 o toNet x) :
    (if toNet then hton16 o (load16At o m p) else load16At o m p) = x := by
  cases toNet with
  | false => exact load16_store o x h
  | true =>
    have hload := load16_store o (hton16 o x) (h.trans (store16_hton o x).symm)
    show hton16 o (load16At o m p) = x
    rw [hload, hton16_hton16]

theorem load32_ordered (toNet : Bool) (x : BitVec 32) {m : Memory BYTE} {p : Nat}
    (h : fetch m p 4 = ordered32 o toNet x) :
    (if toNet then hton32 o (load32At o m p) else load32At o m p) = x := by
  cases toNet with
  | false => exact load32_store o x h
  | true =>
    have hload := load32_store o (hton32 o x) (h.trans (store32_hton o x).symm)
    show hton32 o (load32At o m p) = x
    rw [hload, hton32_hton32]

/-! ## one function after the other -/

variable (m : Memory BYTE) (p : Nat)

theorem encodeShort_bytes (value : Int16) (toNet : Bool) :
    encodeShort o value toNet m p = (store m p (ordered16 o toNet value.toBitVec), p + 2) := by
  rw [← store16_ordered]
  cases toNet <;> rfl

theorem encodeInt_bytes (value : Int32) (toNet : Bool) :
    encodeInt o value toNet m p = (store m p (ordered32 o toNet value.toBitVec), p + 4) := by
  rw [← store32_ordered]
  cases toNet <;> rfl

theorem encodeUint_bytes (value : UInt32) (toNet : Bool) :
    encodeUint o value toNet m p = (store m p (ordered32 o toNet value.toBitVec), p + 4) := by
  rw [← store32_ordered]
  cases toNet <;> rfl

theorem encodeString_bytes (value : ByteArray) (toNet : Bool) :
    encodeString o value toNet m p
      = (store m p (ordered32 o toNet (BitVec.ofNat 32 value.length) ++ value),
          p + (4 + value.length)) := by
  have hsize : (Int32.ofNat value.length).toBitVec = BitVec.ofNat 32 value.length := rfl
  rw [store_append, ordered32_length, ← store32_ordered, ← hsize, ← Nat.add_assoc]
  cases toNet <;> rfl

variable {m p}

theorem decodeBool_bytes (value : Bool) (h : fetch m p 1 = [if value then 0x31 else 0x30]) :
    decodeBool m p = (value, p + 1) := by
  injection h with h _
  rw [decodeBool, h]
  cases value <;> rfl

theorem decodeShort_bytes (value : Int16) (toNet : Bool)
    (h : fetch m p 2 = ordered16 o toNet value.toBitVec) :
    decodeShort o toNet m p = (value, p + 2) := by
  have hload := congrArg Int16.ofBitVec (load16_ordered o toNet _ h)
  rw [Int16.ofBitVec_toBitVec] at hload
  cases toNet <;> exact congrArg (·, p + 2) hload

theorem decodeInt_bytes (value : Int32) (toNet : Bool)
    (h : fetch m p 4 = ordered32 o toNet value.toBitVec) :
    decodeInt o toNet m p = (value, p + 4) := by
  have hload := congrArg Int32.ofBitVec (load32_ordered o toNet _ h)
  rw [Int32.ofBitVec_toBitVec] at hload
  cases toNet <;> exact congrArg (·, p + 4) hload

theorem decodeUint_bytes (value : UInt32) (toNet : Bool)
    (h : fetch m p 4 = ordered32 o toNet value.toBitVec) :
    decodeUint o toNet m p = (value, p + 4) := by
  have hload := congrArg UInt32.ofBitVec (load32_ordered o toNet _ h)
  cases toNet <;> exact congrArg (·, p + 4) hload

theorem decodeString_bytes (value : ByteArray) (hfit : value.length < 2 ^ 31) (toNet : Bool)
    (h : fetch m p (4 + value.length) = ordered32 o toNet (BitVec.ofNat 32 value.length) ++ value) :
    decodeString o toNet m p = some (value, p + (4 + value.length)) := by
  rw [fetch_add] at h
  obtain ⟨hword, hrest⟩ := List.append_inj h (by rw [fetch_length, ordered32_length])
  have hload := congrArg Int32.ofBitVec (load32_ordered o toNet _ hword)
  have hlen : (if toNet then Int32.ofBitVec (hton32 o (Int32.ofBitVec (load32At o m p)).toBitVec)
      else Int32.ofBitVec (load32At o m p)) = Int32.ofNat value.length := by
    cases toNet <;> exact hload
  have hint : (Int32.ofNat value.length).toInt = value.length := Int32.toInt_ofNat_of_lt hfit
  rw [decodeString]
  dsimp only
  rw [hlen, hint, if_neg (by omega), Int.toNat_natCast, hrest, Nat.add_assoc]

/-! ## the format -/

theorem encodeField_bytes (f : Field) (m : Memory BYTE) (p : Nat) :
    encodeField o f m p = (store m p (f.bytes o), p + (f.bytes o).length) := by
  rw [bytes_length]
  cases f with
  | bool value => rfl
  | short value toNet => exact encodeShort_bytes o m p value toNet
  | int value toNet => exact encodeInt_bytes o m p value toNet
  | uint value toNet => exact encodeUint_bytes o m p value toNet
  | float value => rfl
  | double value => rfl
  | string value toNet => exact encodeString_bytes o m p value.1 toNet

theorem decodeField_bytes (f : Field) (m : Memory BYTE) (p : Nat)
    (h : fetch m p (f.bytes o).length = f.bytes o) :
    decodeField o f.kind m p = some (f, p + (f.bytes o).length) := by
  rw [bytes_length] at h ⊢
  cases f with
  | bool value =>
    rw [Field.kind, decodeField, decodeBool_bytes value h]
    rfl
  | short value toNet =>
    rw [Field.kind, decodeField, decodeShort_bytes o value toNet h]
    rfl
  | int value toNet =>
    rw [Field.kind, decodeField, decodeInt_bytes o value toNet h]
    rfl
  | uint value toNet =>
    rw [Field.kind, decodeField, decodeUint_bytes o value toNet h]
    rfl
  | float value => exact congrArg (fun v => some (Field.float v, p + 4)) (Subtype.ext h)
  | double value => exact congrArg (fun v => some (Field.double v, p + 8)) (Subtype.ext h)
  | string value toNet =>
    rw [Field.kind, decodeField, decodeString_bytes o value.1 value.2 toNet h, Option.bind_some]
    exact dif_pos value.2

/-- the fields of a stream as a cursor format -/
def typedStream : Format BYTE Field Kind where
  kind := Field.kind
  cells := Field.bytes o
  write := encodeField o
  read := decodeField o
  write_cells := encodeField_bytes o
  read_cells := decodeField_bytes o

/-- the encoders, one after the other through one cursor -/
def encodeFields (fields : List Field) (m : Memory BYTE) (p : Nat) : Memory BYTE × Nat :=
  (typedStream o).writeAll fields m p

/-- the matching decoders, with the same flags -/
def decodeFields (kinds : List Kind) (m : Memory BYTE) (p : Nat) : Option (List Field × Nat) :=
  (typedStream o).readAll kinds m p

/-- **Fields of any kinds, each in its own byte order, are read back as they were written**; both
cursors end behind the sum of the sizes, and nothing else of the memory is touched. -/
theorem typedStream_round_trip (fields : List Field) (m : Memory BYTE) (p : Nat) :
    let written := encodeFields o fields m p
    decodeFields o (fields.map Field.kind) written.1 p = some (fields, written.2) ∧
      written.2 = p + (fields.map Field.size).sum ∧
      ∀ i, i < p ∨ written.2 ≤ i → written.1 i = m i := by
  obtain ⟨hend, hread, hkeep⟩ := (typedStream o).round_trip fields m p
  refine ⟨hread, ?_, hkeep⟩
  have hsizes : (fields.flatMap (Field.bytes o)).length = (fields.map Field.size).sum := by
    rw [List.length_flatMap]
    exact congrArg List.sum (List.map_congr_left fun f _ => bytes_length o f)
  rw [← hsizes]
  exact hend

end

/-- a negative number in network order and an empty string, at address 3 -/
example : (decodeFields .little [.short true, .string false]
    (encodeFields .little [.short (-2) true, .string ⟨[], by decide⟩ false] (fun _ => 0) 3).1 3).map
      Prod.snd = some 9 := by decide

end Netwb
