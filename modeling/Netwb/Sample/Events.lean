import Mathlib.Data.List.TakeWhile
import Netwb.Lib.Decimal
import Netwb.Net.Base64
import Netwb.Sample.Json

/-!
# The records of events

`DataEventRaw` and its codec of `sample/StructsHelper.h`, the codec of vectors, and what
`BaseServer::_stat` reads.  A number is written to and read from a stream; a `sourcetable` is
written as a C string, and what is read is copied into the 50 bytes with its NUL, whatever its
length.

* `record_round_trip`     a record is read as it was written;
* `stat_round_trip`       so are the two vectors of a request for `stat`;
* `record_inside_iff`     when the copy stays within the 50 bytes;
* `events_codec_iff`      both.
-/

namespace Netwb
open Wire Vec

/-! ## numbers -/

/-- `pt.put(field, n)` for an `int` -/
def putInt (n : BitVec 32) : ByteArray :=
  if n.toInt < 0 then 0x2d :: Decimal.text n.toInt.natAbs else Decimal.text n.toInt.natAbs

/-- a sign, if there is one, and what is behind it -/
def takeSign : ByteArray → Bool × ByteArray
  | c :: rest =>
    if c = 0x2d then (true, rest) else if c = 0x2b then (false, rest) else (false, c :: rest)
  | [] => (false, [])

/-- `pt.get<int>(field)`: white space, a sign, digits, white space, and nothing else; a number that
is no `int` is refused -/
def getInt (text : ByteArray) : Option (BitVec 32) :=
  let signed := takeSign (text.dropWhile isspace)
  let digits := signed.2.takeWhile Decimal.isDigit
  if digits = [] ∨ (signed.2.dropWhile Decimal.isDigit).dropWhile isspace ≠ [] then none
  else
    let n : Int := if signed.1 then -Decimal.value digits else Decimal.value digits
    if -INT32_MAX - 1 ≤ n ∧ n ≤ INT32_MAX then some (BitVec.ofInt 32 n) else none

/-- `pt.get<int>(field)` -/
def ptree.getInt (pt : ptree) (field : ByteArray) : Option (BitVec 32) :=
  (pt.get field).bind Netwb.getInt

theorem isspace_digit {c : BYTE} (h : Decimal.isDigit c = true) :
    isspace c = false ∧ c ≠ 0x2d ∧ c ≠ 0x2b := by
  rw [Decimal.isDigit, decide_eq_true_iff] at h
  refine ⟨?_, ?_, ?_⟩
  · rw [isspace, decide_eq_false_iff_not]
    rintro (rfl | hc)
    · exact absurd h (by decide)
    · omega
  · rintro rfl
    exact absurd h (by decide)
  · rintro rfl
    exact absurd h (by decide)

theorem scan_digits {ds : ByteArray} (h : ∀ c ∈ ds, Decimal.isDigit c = true) :
    ds.takeWhile Decimal.isDigit = ds ∧ ds.dropWhile Decimal.isDigit = [] :=
  ⟨List.takeWhile_eq_self_iff.mpr h, List.dropWhile_eq_nil_iff.mpr h⟩

/-- **A number is read as it was written.** -/
theorem getInt_putInt (n : BitVec 32) : getInt (putInt n) = some n := by
  have hlt := n.toInt_lt
  have hle := n.le_toInt
  obtain ⟨htake, hdrop⟩ := scan_digits (Decimal.isDigit_text n.toInt.natAbs)
  have hne := Decimal.text_ne_nil n.toInt.natAbs
  have hvalue := Decimal.value_text n.toInt.natAbs
  have hsigned : takeSign ((putInt n).dropWhile isspace)
      = (decide (n.toInt < 0), Decimal.text n.toInt.natAbs) := by
    unfold putInt
    split
    · rename_i hneg
      have hminus : isspace 0x2d = false := by decide
      rw [List.dropWhile_cons_of_neg (by rw [hminus]; exact Bool.false_ne_true), takeSign,
        if_pos rfl, decide_eq_true hneg]
    · rename_i hpos
      obtain ⟨c, cs, htext⟩ := List.exists_cons_of_ne_nil hne
      have hc := isspace_digit (Decimal.isDigit_text n.toInt.natAbs c (by simp [htext]))
      rw [htext, List.dropWhile_cons_of_neg (by rw [hc.1]; exact Bool.false_ne_true), takeSign,
        if_neg hc.2.1, if_neg hc.2.2, decide_eq_false hpos]
  have hint : (if decide (n.toInt < 0) then -(n.toInt.natAbs : Int) else n.toInt.natAbs)
      = n.toInt := by
    by_cases hneg : n.toInt < 0
    · rw [decide_eq_true hneg, if_pos rfl]
      omega
    · rw [decide_eq_false hneg, if_neg Bool.false_ne_true]
      omega
  have hrange : -INT32_MAX - 1 ≤ n.toInt ∧ n.toInt ≤ INT32_MAX := by
    unfold INT32_MAX
    omega
  rw [getInt, hsigned]
  dsimp only
  rw [htake, hdrop, hvalue, hint, if_neg (by simp [hne]), if_pos hrange, BitVec.ofInt_toInt]

/-! ## names -/

/-- `id` -/
def kId : ByteArray := [0x69, 0x64]
/-- `userid` -/
def kUserid : ByteArray := [0x75, 0x73, 0x65, 0x72, 0x69, 0x64]
/-- `activeid` -/
def kActiveid : ByteArray := [0x61, 0x63, 0x74, 0x69, 0x76, 0x65, 0x69, 0x64]
/-- `walkdate` -/
def kWalkdate : ByteArray := [0x77, 0x61, 0x6c, 0x6b, 0x64, 0x61, 0x74, 0x65]
/-- `sourcetable` -/
def kSourcetable : ByteArray := [0x73, 0x6f, 0x75, 0x72, 0x63, 0x65, 0x74, 0x61, 0x62, 0x6c, 0x65]
/-- `UploadEvents` -/
def kUploadEvents : ByteArray :=
  [0x55, 0x70, 0x6c, 0x6f, 0x61, 0x64, 0x45, 0x76, 0x65, 0x6e, 0x74, 0x73]
/-- `CreditEvents` -/
def kCreditEvents : ByteArray :=
  [0x43, 0x72, 0x65, 0x64, 0x69, 0x74, 0x45, 0x76, 0x65, 0x6e, 0x74, 0x73]

/-! ## records -/

/-- `DataEventRaw`; `sourcetable` has its 50 bytes -/
structure DataEventRaw where
  id : BitVec 32
  userid : BitVec 32
  activeid : BitVec 32
  walkdate : BitVec 32
  sourcetable : ByteArray
  length : sourcetable.length = 50

namespace DataEventRaw

/-- the `put`s of `makeJsonPt` and `makeArrayElement`; `behind` is what lies behind the record -/
def puts (behind : ByteArray) (value : DataEventRaw) : ptree :=
  (((((PTree.leaf []).put kId (putInt value.id)).put kUserid (putInt value.userid)).put
    kActiveid (putInt value.activeid)).put kWalkdate (putInt value.walkdate)).put
    kSourcetable (cString behind value.sourcetable)

/-- `memcpy(value.sourcetable, sourcetable.c_str(), sourcetable.length() + 1)` -/
def copy (value : DataEventRaw) (text : ByteArray) : DataEventRaw :=
  { value with
    sourcetable := memcpy value.sourcetable 0 (text ++ [0])
    length := (memcpy_length _ _ _).trans value.length }

/-- the `get`s of `getField` and `write`, and the bytes of `sourcetable` that are stored; `none`
when one of them throws -/
def gets (value : DataEventRaw) (pt : ptree) : Option (DataEventRaw × Span) :=
  (pt.getInt kId).bind fun id =>
  (pt.getInt kUserid).bind fun userid =>
  (pt.getInt kActiveid).bind fun activeid =>
  (pt.getInt kWalkdate).bind fun walkdate =>
  (pt.get kSourcetable).map fun text =>
    (({ value with id, userid, activeid, walkdate } : DataEventRaw).copy text,
      ⟨0, text.length + 1, 50⟩)

/-- the same numbers, and the same string in `sourcetable` -/
structure Same (a b : DataEventRaw) : Prop where
  id : a.id = b.id
  userid : a.userid = b.userid
  activeid : a.activeid = b.activeid
  walkdate : a.walkdate = b.walkdate
  sourcetable : cString [] a.sourcetable = cString [] b.sourcetable
  terminated : Terminated b.sourcetable

theorem puts_get (behind : ByteArray) (value : DataEventRaw) :
    (value.puts behind).get kId = some (putInt value.id) ∧
    (value.puts behind).get kUserid = some (putInt value.userid) ∧
    (value.puts behind).get kActiveid = some (putInt value.activeid) ∧
    (value.puts behind).get kWalkdate = some (putInt value.walkdate) ∧
    (value.puts behind).get kSourcetable = some (cString behind value.sourcetable) := by
  unfold puts
  refine ⟨?_, ?_, ?_, ?_, ?_⟩ <;> simp (disch := decide) only [PTree.get_put_ne, PTree.get_put]

theorem getInt_of_get {pt : ptree} {field : ByteArray} {n : BitVec 32}
    (h : pt.get field = some (putInt n)) : pt.getInt field = some n := by
  rw [ptree.getInt, h, Option.bind_some, getInt_putInt]

/-- the string of a terminated array has no zero byte and is shorter than the array -/
theorem cString_fits {strJson : ByteArray} (h : Terminated strJson) (behind : ByteArray) :
    (0 : BYTE) ∉ cString behind strJson ∧ (cString behind strJson).length < strJson.length := by
  rw [cString_terminated h]
  refine ⟨fun hmem => ?_, ?_⟩
  · have hne := List.mem_takeWhile_imp hmem
    exact absurd hne (by decide)
  · have hle := (List.takeWhile_prefix (· ≠ (0 : BYTE)) (l := strJson)).length_le
    refine lt_of_le_of_ne hle fun heq => ?_
    have hall := List.takeWhile_eq_self_iff.mp
      ((List.takeWhile_prefix (· ≠ (0 : BYTE)) (l := strJson)).eq_of_length heq)
    exact absurd (hall 0 h) (by decide)

/-- a string that fits is found in the array that it was copied to -/
theorem copy_text (value : DataEventRaw) {text : ByteArray} (h : (0 : BYTE) ∉ text)
    (hlen : text.length < 50) :
    Terminated (value.copy text).sourcetable ∧ cString [] (value.copy text).sourcetable = text := by
  have hfits : 0 + (text ++ [0]).length ≤ value.sourcetable.length := by
    rw [value.length, List.length_append, List.length_singleton]
    omega
  have hcopy : (value.copy text).sourcetable
      = text ++ [0] ++ value.sourcetable.drop (0 + (text ++ [0]).length) :=
    memcpy_inside value.sourcetable 0 (text ++ [0]) hfits
  have hzero : (0 : BYTE) ∈ text ++ [0] := List.mem_append_right _ (List.mem_singleton.mpr rfl)
  have hterm : Terminated (value.copy text).sourcetable := by
    rw [hcopy]
    exact List.mem_append_left _ hzero
  refine ⟨hterm, ?_⟩
  rw [cString_terminated hterm, hcopy, takeWhile_stops hzero, ← cString_terminated hzero []]
  exact cString_text h []

/-- what is read when everything is there -/
theorem gets_eq (value : DataEventRaw) {pt : ptree} {id userid activeid walkdate : BitVec 32}
    {text : ByteArray} (hid : pt.getInt kId = some id) (huserid : pt.getInt kUserid = some userid)
    (hactiveid : pt.getInt kActiveid = some activeid)
    (hwalkdate : pt.getInt kWalkdate = some walkdate) (htext : pt.get kSourcetable = some text) :
    value.gets pt = some
      (({ value with id, userid, activeid, walkdate } : DataEventRaw).copy text,
        ⟨0, text.length + 1, 50⟩) := by
  rw [gets, hid, Option.bind_some, huserid, Option.bind_some, hactiveid, Option.bind_some,
    hwalkdate, Option.bind_some, htext, Option.map_some]

/-- **A record is read as it was written.** -/
theorem record_round_trip (behind : ByteArray) {value : DataEventRaw}
    (h : Terminated value.sourcetable) (fresh : DataEventRaw) :
    ∃ e span, fresh.gets (value.puts behind) = some (e, span) ∧ Same value e ∧ span.Inside := by
  obtain ⟨hid, huserid, hactiveid, hwalkdate, htable⟩ := puts_get behind value
  obtain ⟨hno, hlt⟩ := cString_fits h behind
  rw [value.length] at hlt
  have hgets := fresh.gets_eq (getInt_of_get hid) (getInt_of_get huserid)
    (getInt_of_get hactiveid) (getInt_of_get hwalkdate) htable
  obtain ⟨hterm, htext⟩ := copy_text
    { fresh with
      id := value.id, userid := value.userid, activeid := value.activeid,
      walkdate := value.walkdate } hno hlt
  have hsame : cString behind value.sourcetable = cString [] value.sourcetable := by
    rw [cString_terminated h, cString_terminated h]
  refine ⟨_, _, hgets, ⟨rfl, rfl, rfl, rfl, ?_, hterm⟩, .inr ⟨le_refl _, ?_⟩⟩
  · rw [htext, hsame]
  · dsimp only
    omega

/-! ### what a peer can send -/

/-- the four numbers and the string are there -/
def Readable (pt : ptree) : Bool :=
  (pt.getInt kId).isSome && (pt.getInt kUserid).isSome && (pt.getInt kActiveid).isSome &&
    (pt.getInt kWalkdate).isSome && (pt.get kSourcetable).isSome

/-- when they are, the string has at most 49 bytes -/
def Fits (pt : ptree) : Prop := Readable pt → ∀ text ∈ pt.get kSourcetable, text.length ≤ 49

theorem gets_readable (value : DataEventRaw) (pt : ptree) :
    (value.gets pt).isSome = Readable pt := by
  unfold gets Readable
  cases pt.getInt kId <;> cases pt.getInt kUserid <;> cases pt.getInt kActiveid <;>
    cases pt.getInt kWalkdate <;> cases pt.get kSourcetable <;> rfl

theorem gets_span {value e : DataEventRaw} {pt : ptree} {span : Span}
    (h : value.gets pt = some (e, span)) :
    ∃ text, pt.get kSourcetable = some text ∧ span = ⟨0, text.length + 1, 50⟩ := by
  obtain ⟨_, _, h⟩ := Option.bind_eq_some_iff.mp h
  obtain ⟨_, _, h⟩ := Option.bind_eq_some_iff.mp h
  obtain ⟨_, _, h⟩ := Option.bind_eq_some_iff.mp h
  obtain ⟨_, _, h⟩ := Option.bind_eq_some_iff.mp h
  obtain ⟨text, htext, h⟩ := Option.map_eq_some_iff.mp h
  exact ⟨text, htext, (Prod.mk.inj h).2.symm⟩

/-- **The copy stays inside the array when the string has at most 49 bytes**, and for no other
record that is read. -/
theorem record_inside_iff (value : DataEventRaw) (pt : ptree) :
    (∀ r ∈ value.gets pt, r.2.Inside) ↔ Fits pt := by
  have hread := value.gets_readable pt
  have hinside : ∀ n : Nat, (⟨0, n + 1, 50⟩ : Span).Inside ↔ n ≤ 49 := by
    intro n
    unfold Span.Inside
    dsimp only
    omega
  cases hg : value.gets pt with
  | none =>
    rw [hg] at hread
    refine iff_of_true (fun r hr => absurd hr (Option.not_mem_none r)) fun hr => ?_
    rw [← hread] at hr
    cases hr
  | some r =>
    obtain ⟨text, htext, hspan⟩ := gets_span hg
    rw [hg] at hread
    refine ⟨fun h _ text' ht => ?_, fun h r' hr => ?_⟩
    · rw [htext, Option.mem_some_iff] at ht
      rw [← ht, ← hinside, ← hspan]
      exact h r rfl
    · rw [Option.mem_some_iff] at hr
      rw [← hr, hspan, hinside]
      exact h hread.symm text htext

/-! ### the codec -/

section
variable (j : Json) (behind : ByteArray)

/-- `getField(field, value, strJson)` -/
def getField (field strJson : ByteArray) (value : DataEventRaw) : Option (DataEventRaw × Span) :=
  jsonHelper.getField j (fun pts => (pts.get_child field).bind value.gets) behind strJson

/-- `makeJsonPt(field, value, pts)` -/
def makeJsonPt (field : ByteArray) (value : DataEventRaw) (pts : ptree) : ptree :=
  pts.put_child field (value.puts behind)

/-- `write(value, pts)` -/
def write (value : DataEventRaw) (pts : ByteArray × ptree) : Option (DataEventRaw × Span) :=
  value.gets pts.2

/-- `makeArrayElement(value, pts)` -/
def makeArrayElement (value : DataEventRaw) (pts : ptree) : ptree :=
  pts.push_back [] (value.puts behind)

/-- a text with no such field, and one that is no JSON, is refused -/
theorem getField_inside_iff (field strJson : ByteArray) (value : DataEventRaw) :
    (∀ r ∈ getField j behind field strJson value, r.2.Inside) ↔
      ∀ pt, jsonHelper.getField j (fun pts => pts.get_child field) behind strJson = some pt →
        Fits pt := by
  have hsplit : getField j behind field strJson value
      = (jsonHelper.getField j (fun pts => pts.get_child field) behind strJson).bind
        value.gets := by
    unfold getField jsonHelper.getField
    split
    · rfl
    · rw [Option.bind_assoc]
  rw [hsplit]
  cases jsonHelper.getField j (fun pts => pts.get_child field) behind strJson with
  | none =>
    refine iff_of_true (fun r hr => absurd hr (Option.not_mem_none r)) fun pt hpt => ?_
    cases hpt
  | some pt =>
    rw [Option.bind_some, record_inside_iff]
    refine ⟨fun h pt' hpt => ?_, fun h => h pt rfl⟩
    cases hpt
    exact h

/-- what is put does not depend on what lies behind a terminated array -/
theorem puts_terminated {value : DataEventRaw} (h : Terminated value.sourcetable) :
    value.puts behind = value.puts [] := by
  rw [puts, puts, cString_terminated h, cString_terminated h]

end

end DataEventRaw

/-! ## vectors -/

/-- what `Codec<std::vector<DataEventRaw>>::getField` leaves in `values`, the bytes of a
`sourcetable` that it stores, and whether it comes to its end -/
structure Gotten where
  values : List DataEventRaw
  stored : List Span
  ok : Bool

namespace Events

/-- the loop of `makeJsonPt`; `behind i` is what lies behind the record `i` -/
def makeArray (behind : Nat → ByteArray) : Nat → List DataEventRaw → ptree → ptree
  | _, [], pt => pt
  | i, value :: values, pt =>
    makeArray behind (i + 1) values (value.makeArrayElement (behind i) pt)

/-- `makeJsonPt(field, values, pts)`; the counter is an `int`, and `none` is when it overflows -/
def makeJsonPt (behind : Nat → ByteArray) (field : ByteArray) (values : List DataEventRaw)
    (pts : ptree) : Option ptree :=
  if values.length ≤ INT32_MAX then
    some (pts.put_child field (makeArray behind 0 values (.leaf [])))
  else none

/-- the `BOOST_FOREACH` of `getField`, up to the first `write` that throws; `fresh i` is what is in
`e` when there are `i` records in `values` -/
def foreach (fresh : Nat → DataEventRaw) :
    List (ByteArray × ptree) → List DataEventRaw → Gotten
  | [], values => ⟨values, [], true⟩
  | v :: vs, values =>
    match (fresh values.length).write v with
    | none => ⟨values, [], false⟩
    | some (e, span) =>
      let rest := foreach fresh vs (values ++ [e])
      { rest with stored := span :: rest.stored }

/-- `getField(field, values, strJson)` -/
def getField (j : Json) (behind : ByteArray) (fresh : Nat → DataEventRaw)
    (field strJson : ByteArray) (values : List DataEventRaw) : Gotten :=
  match jsonHelper.getField j (fun pt => pt.get_child field) behind strJson with
  | none => ⟨values, [], false⟩
  | some pts => foreach fresh pts.children values

/-- the records have arrived, and nothing was stored outside of one -/
def Arrived (values : List DataEventRaw) (g : Gotten) : Prop :=
  g.ok = true ∧ List.Forall₂ DataEventRaw.Same values g.values ∧ ∀ s ∈ g.stored, s.Inside

section
variable (behind : Nat → ByteArray) (fresh : Nat → DataEventRaw)

theorem makeArray_children {values : List DataEventRaw}
    (h : ∀ v ∈ values, Terminated v.sourcetable) (i : Nat) (pt : ptree) :
    (makeArray behind i values pt).children
      = pt.children ++ values.map fun v => ([], v.puts []) := by
  induction values generalizing i pt with
  | nil => rw [makeArray, List.map_nil, List.append_nil]
  | cons v vs ih =>
    rw [makeArray, ih fun x hx => h x (List.mem_cons_of_mem _ hx), DataEventRaw.makeArrayElement,
      PTree.children_push_back, DataEventRaw.puts_terminated _ (h v (List.mem_cons_self ..)),
      List.append_assoc]
    rfl

/-- **An array is read as it was written.** -/
theorem foreach_round_trip {values : List DataEventRaw}
    (h : ∀ v ∈ values, Terminated v.sourcetable) (before : List DataEventRaw) :
    ∃ es stored, foreach fresh (values.map fun v => ([], v.puts [])) before
        = ⟨before ++ es, stored, true⟩ ∧
      List.Forall₂ DataEventRaw.Same values es ∧ ∀ s ∈ stored, s.Inside := by
  induction values generalizing before with
  | nil =>
    refine ⟨[], [], ?_, .nil, List.forall_mem_nil _⟩
    rw [List.map_nil, foreach, List.append_nil]
  | cons v vs ih =>
    obtain ⟨e, span, hgets, hsame, hspan⟩ := DataEventRaw.record_round_trip []
      (h v (List.mem_cons_self ..)) (fresh before.length)
    obtain ⟨es, stored, hrest, hall, hstored⟩ :=
      ih (fun x hx => h x (List.mem_cons_of_mem _ hx)) (before ++ [e])
    have hwrite : (fresh before.length).write ([], v.puts []) = some (e, span) := hgets
    refine ⟨e :: es, span :: stored, ?_, .cons hsame hall, ?_⟩
    · rw [List.map_cons, foreach, hwrite]
      dsimp only
      rw [hrest, List.append_assoc]
      rfl
    · rw [List.forall_mem_cons]
      exact ⟨hspan, hstored⟩

/-- **The copies of a vector stay inside when each record that is reached fits.** -/
theorem foreach_inside_iff (vs : List (ByteArray × ptree)) (values : List DataEventRaw) :
    (∀ s ∈ (foreach fresh vs values).stored, s.Inside) ↔
      ∀ v ∈ vs.takeWhile fun v => DataEventRaw.Readable v.2, DataEventRaw.Fits v.2 := by
  induction vs generalizing values with
  | nil => exact iff_of_true (List.forall_mem_nil _) (List.forall_mem_nil _)
  | cons v vs ih =>
    have hread := (fresh values.length).gets_readable v.2
    have hinside := (fresh values.length).record_inside_iff v.2
    rw [List.takeWhile_cons, foreach, DataEventRaw.write]
    cases hg : (fresh values.length).gets v.2 with
    | none =>
      rw [hg] at hread
      rw [← hread]
      exact iff_of_true (List.forall_mem_nil _) (List.forall_mem_nil _)
    | some r =>
      rw [hg] at hread hinside
      rw [← hread, Option.isSome_some, if_pos rfl, List.forall_mem_cons, List.forall_mem_cons,
        ← hinside, ← ih (values ++ [r.1])]
      refine and_congr_left fun _ => ⟨fun h r' hr => ?_, fun h => h r rfl⟩
      rw [← Option.mem_some_iff.mp hr]
      exact h

theorem getField_inside_iff (j : Json) (behind : ByteArray) (field strJson : ByteArray)
    (values : List DataEventRaw) :
    (∀ s ∈ (getField j behind fresh field strJson values).stored, s.Inside) ↔
      ∀ pts, jsonHelper.getField j (fun pt => pt.get_child field) behind strJson = some pts →
        ∀ v ∈ pts.children.takeWhile fun v => DataEventRaw.Readable v.2,
          DataEventRaw.Fits v.2 := by
  unfold getField
  cases jsonHelper.getField j (fun pt => pt.get_child field) behind strJson with
  | none =>
    refine iff_of_true (List.forall_mem_nil _) fun pts hpts => ?_
    cases hpts
  | some pts =>
    dsimp only
    rw [foreach_inside_iff]
    refine ⟨fun h pts' hpts => ?_, fun h => h pts rfl⟩
    cases hpts
    exact h

end

end Events

/-! ## a request for `stat` -/

/-- what `MAKEREQBEGIN("stat")` makes -/
def statFunc : ptree := (PTree.leaf []).put kFunc kStat

/-- `ADDPARAM("UploadEvents", UpdateEvents)` and `ADDPARAM("CreditEvents", CreditEvents)` -/
def statParam (behind behind' : Nat → ByteArray) (UpdateEvents CreditEvents : List DataEventRaw) :
    Option ptree :=
  (Events.makeJsonPt behind kUploadEvents UpdateEvents (.leaf [])).bind
    (Events.makeJsonPt behind' kCreditEvents CreditEvents)

/-- what `_stat` reads: `getField(UploadEvents, "UploadEvents", param)` and
`getField(CreditEvents, "CreditEvents", param)` -/
def BaseServer.statEvents (j : Json) (behind : ByteArray) (fresh fresh' : Nat → DataEventRaw)
    (param : ByteArray) : Gotten × Gotten :=
  (Events.getField j behind fresh kUploadEvents param [],
    Events.getField j behind fresh' kCreditEvents param [])

/-- the tree is written, and read again -/
def Json.RoundTrips (j : Json) (pt : ptree) : Prop :=
  ∃ text, j.write_json pt = some text ∧ j.read_json text = some pt

/-- the request is made; and from an array that streams as its payload, `getSubJson` and `_stat` get
both vectors -/
def Survive (j : Json) (behind behind' : Nat → ByteArray)
    (UpdateEvents CreditEvents : List DataEventRaw) : Prop :=
  ∃ pts payload, statParam behind behind' UpdateEvents CreditEvents = some pts ∧
    jsonHelper.getJson j statFunc pts = some payload ∧
    ∀ wild strJson, strJson ≠ [] → cString wild strJson = payload →
      ∃ param, jsonHelper.getSubJson j kParam wild strJson = some param ∧
        ∀ wild' fresh fresh',
          Events.Arrived UpdateEvents (BaseServer.statEvents j wild' fresh fresh' param).1 ∧
          Events.Arrived CreditEvents (BaseServer.statEvents j wild' fresh fresh' param).2

section
variable (j : Json) {behind behind' : Nat → ByteArray}
  {UpdateEvents CreditEvents : List DataEventRaw}

theorem makeJsonPt_some {behind : Nat → ByteArray} {field : ByteArray} {values : List DataEventRaw}
    {pt pts : ptree} (h : Events.makeJsonPt behind field values pt = some pts) :
    values.length ≤ INT32_MAX ∧
      pts = pt.put_child field (Events.makeArray behind 0 values (.leaf [])) := by
  unfold Events.makeJsonPt at h
  split at h
  · rename_i hlen
    exact ⟨hlen, (Option.some.inj h).symm⟩
  · cases h

theorem statParam_some {pts : ptree}
    (h : statParam behind behind' UpdateEvents CreditEvents = some pts) :
    (UpdateEvents.length ≤ INT32_MAX ∧ CreditEvents.length ≤ INT32_MAX) ∧
    pts.get_child kUploadEvents = some (Events.makeArray behind 0 UpdateEvents (.leaf [])) ∧
    pts.get_child kCreditEvents = some (Events.makeArray behind' 0 CreditEvents (.leaf [])) := by
  obtain ⟨pt, hup, hcr⟩ := Option.bind_eq_some_iff.mp h
  obtain ⟨hulen, rfl⟩ := makeJsonPt_some hup
  obtain ⟨hclen, rfl⟩ := makeJsonPt_some hcr
  refine ⟨⟨hulen, hclen⟩, ?_, PTree.get_child_put_child _ _ _⟩
  rw [PTree.get_child_put_child_ne _ (by decide), PTree.get_child_put_child]

/-- a text and its NUL are read as the tree of the text -/
theorem getField_text {α : Type} {codec : ptree → Option α} {pt : ptree} {text : ByteArray}
    (hwrite : j.write_json pt = some text) (hread : j.read_json text = some pt)
    (wild : ByteArray) : jsonHelper.getField j codec wild (text ++ [0]) = codec pt := by
  rw [jsonHelper.getField, if_neg (List.append_ne_nil_of_right_ne_nil _ (List.cons_ne_nil _ _)),
    cString_text (j.no_nul hwrite), hread, Option.bind_some]

/-- an array under a name is read from the text of the parameters -/
theorem array_arrives {values : List DataEventRaw} (h : ∀ v ∈ values, Terminated v.sourcetable)
    {pts : ptree} {text field : ByteArray} (hwrite : j.write_json pts = some text)
    (hread : j.read_json text = some pts)
    (hchild : pts.get_child field = some (Events.makeArray behind 0 values (.leaf [])))
    (wild : ByteArray) (fresh : Nat → DataEventRaw) :
    Events.Arrived values (Events.getField j wild fresh field (text ++ [0]) []) := by
  obtain ⟨es, stored, hfor, hall, hstored⟩ := Events.foreach_round_trip fresh h []
  have hget : Events.getField j wild fresh field (text ++ [0]) [] = ⟨[] ++ es, stored, true⟩ := by
    rw [Events.getField, getField_text j hwrite hread, hchild]
    dsimp only
    rw [Events.makeArray_children behind h, PTree.children_leaf, List.nil_append, hfor]
  rw [hget]
  exact ⟨rfl, hall, hstored⟩

/-- **A request for `stat` brings both vectors**, when neither is longer than its counter counts. -/
theorem stat_round_trip (hup : ∀ v ∈ UpdateEvents, Terminated v.sourcetable)
    (hcr : ∀ v ∈ CreditEvents, Terminated v.sourcetable)
    (hj : ∀ pts ∈ statParam behind behind' UpdateEvents CreditEvents,
      j.RoundTrips pts ∧ j.RoundTrips (statFunc.put_child kParam pts)) :
    Survive j behind behind' UpdateEvents CreditEvents ↔
      UpdateEvents.length ≤ INT32_MAX ∧ CreditEvents.length ≤ INT32_MAX := by
  constructor
  · rintro ⟨pts, _, hpts, _, _⟩
    exact (statParam_some hpts).1
  · rintro ⟨hulen, hclen⟩
    obtain ⟨pts, hpts⟩ : ∃ pts, statParam behind behind' UpdateEvents CreditEvents = some pts := by
      rw [statParam, Events.makeJsonPt, if_pos hulen, Option.bind_some, Events.makeJsonPt,
        if_pos hclen]
      exact ⟨_, rfl⟩
    obtain ⟨-, huchild, hcchild⟩ := statParam_some hpts
    obtain ⟨⟨text, hwrite, hread⟩, payload, hpayload, hrequest⟩ := hj pts hpts
    refine ⟨pts, payload, hpts, hpayload, fun wild strJson hne hstream => ?_⟩
    refine ⟨text ++ [0], ?_, fun wild' fresh fresh' => ⟨?_, ?_⟩⟩
    · rw [jsonHelper.getSubJson, jsonHelper.getField, if_neg hne, hstream, hrequest,
        Option.bind_some, PTree.get_child_put_child, Option.bind_some, hwrite, Option.map_some]
    · exact array_arrives j hup hwrite hread huchild wild' fresh
    · exact array_arrives j hcr hwrite hread hcchild wild' fresh'

/-- **What the codec of records does**: for all vectors whose strings are terminated, and for all
trees that a peer may have sent. -/
theorem events_codec_iff (hup : ∀ v ∈ UpdateEvents, Terminated v.sourcetable)
    (hcr : ∀ v ∈ CreditEvents, Terminated v.sourcetable)
    (hj : ∀ pts ∈ statParam behind behind' UpdateEvents CreditEvents,
      j.RoundTrips pts ∧ j.RoundTrips (statFunc.put_child kParam pts)) :
    (Survive j behind behind' UpdateEvents CreditEvents ↔
      UpdateEvents.length ≤ INT32_MAX ∧ CreditEvents.length ≤ INT32_MAX) ∧
    (∀ (value : DataEventRaw) (pts : ByteArray × ptree),
      (∀ r ∈ value.write pts, r.2.Inside) ↔ DataEventRaw.Fits pts.2) ∧
    (∀ (wild field strJson : ByteArray) (value : DataEventRaw),
      (∀ r ∈ DataEventRaw.getField j wild field strJson value, r.2.Inside) ↔
        ∀ pt, jsonHelper.getField j (fun pts => pts.get_child field) wild strJson = some pt →
          DataEventRaw.Fits pt) ∧
    ∀ (wild field strJson : ByteArray) (fresh : Nat → DataEventRaw) (values : List DataEventRaw),
      (∀ s ∈ (Events.getField j wild fresh field strJson values).stored, s.Inside) ↔
        ∀ pts, jsonHelper.getField j (fun pt => pt.get_child field) wild strJson = some pts →
          ∀ v ∈ pts.children.takeWhile fun v => DataEventRaw.Readable v.2,
            DataEventRaw.Fits v.2 :=
  ⟨stat_round_trip j hup hcr hj, fun value pts => value.record_inside_iff pts.2,
    fun wild field strJson value => DataEventRaw.getField_inside_iff j wild field strJson value,
    fun wild field strJson fresh values =>
      Events.getField_inside_iff fresh j wild field strJson values⟩

end

/-! ### two requests -/

/-- the record 1, -2, 3, 4 of `hello` -/
def helloEvent : DataEventRaw :=
  ⟨1, -2, 3, 4, [0x68, 0x65, 0x6c, 0x6c, 0x6f] ++ List.replicate 45 0, by decide⟩

/-- the children of its element, and those of an element with another string -/
def eventTree (text : ByteArray) : ptree :=
  .node [] [(kId, .leaf [0x31]), (kUserid, .leaf [0x2d, 0x32]), (kActiveid, .leaf [0x33]),
    (kWalkdate, .leaf [0x34]), (kSourcetable, .leaf text)]

/-- the parameters with one record, and none -/
def eventsTree (text : ByteArray) : ptree :=
  .node [] [(kUploadEvents, .node [] [([], eventTree text)]), (kCreditEvents, .leaf [])]

/-- `{"id":"1","userid":"-2","activeid":"3","walkdate":"4","sourcetable":".."}` -/
def eventText (text : ByteArray) : ByteArray :=
  [0x7b, 0x22] ++ kId ++ [0x22, 0x3a, 0x22, 0x31, 0x22, 0x2c, 0x22] ++
    kUserid ++ [0x22, 0x3a, 0x22, 0x2d, 0x32, 0x22, 0x2c, 0x22] ++
    kActiveid ++ [0x22, 0x3a, 0x22, 0x33, 0x22, 0x2c, 0x22] ++
    kWalkdate ++ [0x22, 0x3a, 0x22, 0x34, 0x22, 0x2c, 0x22] ++
    kSourcetable ++ [0x22, 0x3a, 0x22] ++ text ++ [0x22, 0x7d]

/-- `{"UploadEvents":[..],"CreditEvents":""}` -/
def eventsText (text : ByteArray) : ByteArray :=
  [0x7b, 0x22] ++ kUploadEvents ++ [0x22, 0x3a, 0x5b] ++ eventText text ++ [0x5d, 0x2c, 0x22] ++
    kCreditEvents ++ [0x22, 0x3a, 0x22, 0x22, 0x7d]

/-- `{"func":"stat","param":..}` -/
def statText (text : ByteArray) : ByteArray :=
  [0x7b, 0x22] ++ kFunc ++ [0x22, 0x3a, 0x22] ++ kStat ++ [0x22, 0x2c, 0x22] ++ kParam ++
    [0x22, 0x3a] ++ eventsText text ++ [0x7d, 0x0a]

/-- a helper that knows the two trees of a request for `stat` -/
def statJson (text : ByteArray)
    (h : ∀ e ∈ [(eventsTree text, eventsText text ++ [0x0a]),
      (statFunc.put_child kParam (eventsTree text), statText text)],
      (0 : BYTE) ∉ e.2 ∧ e.2 ≠ []) : Json := .of _ h

/-- `hello` -/
def hello : ByteArray := [0x68, 0x65, 0x6c, 0x6c, 0x6f]

def helloJson : Json := statJson hello (by decide)

theorem helloJson_roundTrips : ∀ pts ∈ statParam (fun _ => []) (fun _ => []) [helloEvent] [],
    helloJson.RoundTrips pts ∧ helloJson.RoundTrips (statFunc.put_child kParam pts) := by
  have hparam : statParam (fun _ => []) (fun _ => []) [helloEvent] []
      = some (eventsTree hello) := by decide
  intro pts hpts
  rw [hparam, Option.mem_some_iff] at hpts
  subst hpts
  exact ⟨⟨eventsText hello ++ [0x0a], by decide, by decide⟩, ⟨statText hello, by decide, by decide⟩⟩

/-- a request with the record of `hello` -/
theorem events_codec_iff_hello :
    (Survive helloJson (fun _ => []) (fun _ => []) [helloEvent] [] ↔
      [helloEvent].length ≤ INT32_MAX ∧ ([] : List DataEventRaw).length ≤ INT32_MAX) ∧
    (∀ (value : DataEventRaw) (pts : ByteArray × ptree),
      (∀ r ∈ value.write pts, r.2.Inside) ↔ DataEventRaw.Fits pts.2) ∧
    (∀ (wild field strJson : ByteArray) (value : DataEventRaw),
      (∀ r ∈ DataEventRaw.getField helloJson wild field strJson value, r.2.Inside) ↔
        ∀ pt, jsonHelper.getField helloJson (fun pts => pts.get_child field) wild strJson
          = some pt → DataEventRaw.Fits pt) ∧
    ∀ (wild field strJson : ByteArray) (fresh : Nat → DataEventRaw) (values : List DataEventRaw),
      (∀ s ∈ (Events.getField helloJson wild fresh field strJson values).stored, s.Inside) ↔
        ∀ pts, jsonHelper.getField helloJson (fun pt => pt.get_child field) wild strJson
          = some pts → ∀ v ∈ pts.children.takeWhile fun v => DataEventRaw.Readable v.2,
            DataEventRaw.Fits v.2 :=
  events_codec_iff helloJson (by decide) (List.forall_mem_nil _) helloJson_roundTrips

/-- 50 letters -/
def letters50 : ByteArray := List.replicate 50 0x61

def longJson : Json := statJson letters50 (by decide)

/-- what `getSubJson` gives of the request with this string -/
def longParam : ByteArray := eventsText letters50 ++ [0x0a] ++ [0]

/-- **A request for `stat` with a `sourcetable` of 50 letters**: its parameters are read, and the
NUL lands behind the array. -/
theorem sourcetable_overrun :
    jsonHelper.getSubJson longJson kParam [] (statText letters50 ++ [0]) = some longParam ∧
    (BaseServer.statEvents longJson [] (fun _ => helloEvent) (fun _ => helloEvent)
      longParam).1.ok = true ∧
    ¬ ∀ s ∈ (BaseServer.statEvents longJson [] (fun _ => helloEvent) (fun _ => helloEvent)
      longParam).1.stored, s.Inside := by
  have hstored : (BaseServer.statEvents longJson [] (fun _ => helloEvent) (fun _ => helloEvent)
      longParam).1.stored = [⟨0, 51, 50⟩] := by decide +kernel
  refine ⟨by decide +kernel, by decide +kernel, fun h => ?_⟩
  rw [hstored] at h
  exact absurd (h _ (List.mem_singleton.mpr rfl)) (by decide)

end Netwb
