import Netwb.Lib.PTree
import Netwb.Sample.Rpc

/-!
# The JSON helper

`jsonHelper` of `sample/jsonHelper.h`.  Boost's `read_json` and `write_json` are a parameter
(`Json`); of the text it is used that the writer escapes a zero byte.  The paths that the two
programs pass are single names.

A reader is given a `ByteArray` and streams it as a C string: it ends at the first zero byte, which
may be one behind the array (`behind` is what lies there).  `getSubJson` and `makeJson` copy the NUL
of the text as well, `getJson` does not.
-/

namespace Netwb
open Wire

/-- `boost::property_tree::ptree` -/
abbrev ptree := PTree ByteArray ByteArray

/-- `write_json(stream, pt, false)` and `read_json(stream, pt)`, which may throw -/
structure Json where
  write_json : ptree → Option ByteArray
  read_json : ByteArray → Option ptree
  no_nul : ∀ {pt text}, write_json pt = some text → (0 : BYTE) ∉ text
  not_empty : ∀ {pt text}, write_json pt = some text → text ≠ []

/-! ## names -/

/-- `func` -/
def kFunc : ByteArray := [0x66, 0x75, 0x6e, 0x63]
/-- `param` -/
def kParam : ByteArray := [0x70, 0x61, 0x72, 0x61, 0x6d]
/-- `status` -/
def kStatus : ByteArray := [0x73, 0x74, 0x61, 0x74, 0x75, 0x73]
/-- `stat` -/
def kStat : ByteArray := [0x73, 0x74, 0x61, 0x74]
/-- `test` -/
def kTest : ByteArray := [0x74, 0x65, 0x73, 0x74]

/-- `ss << (char *)&strJson[0]` -/
def cString (behind strJson : ByteArray) : ByteArray := (strJson ++ behind).takeWhile (· ≠ 0)

namespace jsonHelper
variable (j : Json)

/-- `getJson(resp, pt, pts)`: what is in `resp` when it returns true -/
def getJson (pt pts : ptree) : Option ByteArray := j.write_json (pt.put_child kParam pts)

/-- `getField(value, field, strJson)`, with what the codec of the type makes of the tree -/
def getField {α : Type} (codec : ptree → Option α) (behind strJson : ByteArray) : Option α :=
  if strJson = [] then none else (j.read_json (cString behind strJson)).bind codec

/-- `Codec<string>::getField` behind its `read` -/
def getString (field behind strJson : ByteArray) : Option ByteArray :=
  getField j (fun pt => pt.get field) behind strJson

/-- `getSubJson(value, field, strJson)` -/
def getSubJson (field behind strJson : ByteArray) : Option ByteArray :=
  getField j (fun pt => (pt.get_child field).bind fun child =>
    (j.write_json child).map fun text => text ++ [0]) behind strJson

end jsonHelper

/-! ## what is streamed -/

/-- an array that ends the C string that begins in it -/
def Terminated (strJson : ByteArray) : Prop := (0 : BYTE) ∈ strJson

instance (strJson : ByteArray) : Decidable (Terminated strJson) :=
  inferInstanceAs (Decidable (_ ∈ _))

theorem takeWhile_stops {xs ys : ByteArray} (h : (0 : BYTE) ∈ xs) :
    (xs ++ ys).takeWhile (· ≠ 0) = xs.takeWhile (· ≠ 0) := by
  induction xs with
  | nil => cases h
  | cons x xs ih =>
    by_cases hx : x = 0
    · simp [hx]
    · have hmem : (0 : BYTE) ∈ xs := (List.mem_cons.mp h).resolve_left fun e => hx e.symm
      simp only [List.cons_append, List.takeWhile_cons, ih hmem]

/-- **What is read of a terminated array does not depend on what lies behind it.** -/
theorem cString_terminated {strJson : ByteArray} (h : Terminated strJson) (behind : ByteArray) :
    cString behind strJson = strJson.takeWhile (· ≠ 0) := takeWhile_stops h

theorem cString_text {text : ByteArray} (h : (0 : BYTE) ∉ text) (behind : ByteArray) :
    cString behind (text ++ [0]) = text := by
  have hall : ∀ x ∈ text, decide (x ≠ 0) = true := by
    intro x hx
    rw [decide_eq_true_iff]
    rintro rfl
    exact h hx
  rw [cString_terminated (List.mem_append_right _ (List.mem_singleton.mpr rfl)),
    List.takeWhile_append_of_pos hall]
  simp

section
variable (j : Json)

theorem getField_some {α : Type} {codec : ptree → Option α} {behind strJson : ByteArray} {a : α}
    (h : jsonHelper.getField j codec behind strJson = some a) :
    ∃ pt, j.read_json (cString behind strJson) = some pt ∧ codec pt = some a := by
  rw [jsonHelper.getField] at h
  split at h
  · cases h
  · exact Option.bind_eq_some_iff.mp h

/-- what `getSubJson` gives is the text of a child, and its NUL -/
theorem getSubJson_some {field behind strJson value : ByteArray}
    (h : jsonHelper.getSubJson j field behind strJson = some value) :
    ∃ pt child text, j.read_json (cString behind strJson) = some pt ∧
      pt.get_child field = some child ∧ j.write_json child = some text ∧ value = text ++ [0] := by
  obtain ⟨pt, hread, hcodec⟩ := getField_some j h
  obtain ⟨child, hchild, hmap⟩ := Option.bind_eq_some_iff.mp hcodec
  obtain ⟨text, htext, hvalue⟩ := Option.map_eq_some_iff.mp hmap
  exact ⟨pt, child, text, hread, hchild, htext, hvalue.symm⟩

/-- **What `getSubJson` gives is terminated.** -/
theorem getSubJson_terminated {field behind strJson value : ByteArray}
    (h : jsonHelper.getSubJson j field behind strJson = some value) : Terminated value := by
  obtain ⟨_, _, text, _, _, _, rfl⟩ := getSubJson_some j h
  exact List.mem_append_right text (List.mem_singleton.mpr rfl)

/-- **What `getJson` builds never is.** -/
theorem getJson_unterminated {pt pts : ptree} {payload : ByteArray}
    (h : jsonHelper.getJson j pt pts = some payload) : ¬ Terminated payload := j.no_nul h

end

/-! ### a helper that knows some trees -/

/-- `write_json` and `read_json` when they know the texts of some trees -/
def Json.of (entries : List (ptree × ByteArray))
    (h : ∀ e ∈ entries, (0 : BYTE) ∉ e.2 ∧ e.2 ≠ []) : Json where
  write_json pt := (entries.find? fun e => e.1 = pt).map Prod.snd
  read_json text := (entries.find? fun e => e.2 = text).map Prod.fst
  no_nul := by
    intro pt text he
    obtain ⟨e, hfind, rfl⟩ := Option.map_eq_some_iff.mp he
    exact (h e (List.mem_of_find?_eq_some hfind)).1
  not_empty := by
    intro pt text he
    obtain ⟨e, hfind, rfl⟩ := Option.map_eq_some_iff.mp he
    exact (h e (List.mem_of_find?_eq_some hfind)).2

/-- a request for `test` with the id 7: what `MAKEREQBEGIN` makes of its name -/
def testFunc : ptree := (PTree.leaf []).put kFunc kTest

/-- and its parameters, as `ADDPARAM` makes them -/
def testParam : ptree := (PTree.leaf []).put [0x69, 0x64] [0x37]

/-- `{"func":"test","param":{"id":"7"}}` and a newline -/
def testText : ByteArray :=
  [0x7b, 0x22, 0x66, 0x75, 0x6e, 0x63, 0x22, 0x3a, 0x22, 0x74, 0x65, 0x73, 0x74, 0x22, 0x2c, 0x22,
   0x70, 0x61, 0x72, 0x61, 0x6d, 0x22, 0x3a, 0x7b, 0x22, 0x69, 0x64, 0x22, 0x3a, 0x22, 0x37, 0x22,
   0x7d, 0x7d, 0x0a]

/-- `{"id":"7"}` and a newline -/
def testParamText : ByteArray :=
  [0x7b, 0x22, 0x69, 0x64, 0x22, 0x3a, 0x22, 0x37, 0x22, 0x7d, 0x0a]

def testJson : Json :=
  .of [(testFunc.put_child kParam testParam, testText), (testParam, testParamText)] (by decide)

theorem testJson_text : jsonHelper.getJson testJson testFunc testParam = some testText := by decide

end Netwb
