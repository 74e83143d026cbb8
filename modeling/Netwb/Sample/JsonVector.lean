import Netwb.Sample.Json

/-!
# Vectors as JSON fields

`Codec<std::vector<Type> >` of `sample/jsonHelper.h` for strings.  Both sides name the field by a
path, whose fragments are set apart by dots; the name of a child may be such a path as well.

`makeJson` puts the array under the field twice, first in `makeJsonPt` and then itself.  `getField`
takes the child of the field for the array and reads each of its children under that child's own
name: of a plain array, whose elements have no name, it gives the elements (`getVector_array`); of
what `makeJson` has made it gives nothing (`vector_round_trip_iff`).
-/

namespace Netwb
open Wire

/-- the fragments of a path behind the beginning of one -/
def fragmentsFrom (part : ByteArray) : ByteArray → List ByteArray
  | [] => [part]
  | c :: rest =>
    if c = 0x2e then part :: (if rest = [] then [] else fragmentsFrom [] rest)
    else fragmentsFrom (part ++ [c]) rest

/-- the fragments of a `ptree::path_type`, as `reduce` takes them off -/
def fragments (path : ByteArray) : List ByteArray :=
  if path = [] then [] else fragmentsFrom [] path

/-- `pt.get_child(path)`, which throws if there is none -/
def path_get_child (pt : ptree) (path : ByteArray) : Option ptree := pt.walk (fragments path)

/-- `pt.put_child(path, child)`; the path must not be empty -/
def path_put_child (pt : ptree) (path : ByteArray) (child : ptree) : ptree :=
  pt.put_at [] (fragments path) child

/-- `pt.get<string>(path)`, which throws if there is none -/
def path_get (pt : ptree) (path : ByteArray) : Option ByteArray := (path_get_child pt path).map PTree.data

/-- what was put under a path is found under it -/
theorem path_get_child_put_child (pt child : ptree) (path : ByteArray) :
    path_get_child (path_put_child pt path child) path = some child :=
  PTree.walk_put_at [] (fragments path) child pt

/-! ## the codec -/

/-- `Codec<string>::makeArrayElement(value, pt)` -/
def makeArrayElement (value : ByteArray) (pt : ptree) : ptree := pt.push_back [] (.leaf value)

namespace VectorCodec

/-- `makeJsonPt(field, values, pts)` -/
def makeJsonPt (field : ByteArray) (values : List ByteArray) (pts : ptree) : ptree :=
  path_put_child pts field (values.foldl (fun pt value => makeArrayElement value pt) (.leaf []))

/-- the tree that `makeJson(field, values, strJson)` writes -/
def tree (field : ByteArray) (values : List ByteArray) : ptree :=
  path_put_child (.leaf []) field (makeJsonPt field values (.leaf []))

/-- the loop of `getField`: whether it comes to its end, and the vector -/
def readAll : List (ByteArray × ptree) → List ByteArray → Bool × List ByteArray
  | [], values => (true, values)
  | v :: vs, values =>
    match path_get v.2 v.1 with
    | none => (false, values)
    | some e => readAll vs (values ++ [e])

end VectorCodec

namespace jsonHelper
variable (j : Json)

/-- `makeJson(field, values, strJson)`: what is in `strJson` when it returns true -/
def makeVector (field : ByteArray) (values : List ByteArray) : Option ByteArray :=
  (j.write_json (VectorCodec.tree field values)).map fun text => text ++ [0]

/-- `getField(values, field, strJson)`: what it returns, and the vector behind it -/
def getVector (field : ByteArray) (values : List ByteArray) (behind strJson : ByteArray) :
    Bool × List ByteArray :=
  if strJson = [] then (false, values)
  else
    match j.read_json (cString behind strJson) with
    | none => (false, values)
    | some pt =>
      match path_get_child pt field with
      | none => (false, values)
      | some pts => VectorCodec.readAll pts.children values

end jsonHelper

/-! ## single names -/

/-- a path that is a single name -/
def Single (field : ByteArray) : Prop := field ≠ [] ∧ (0x2e : BYTE) ∉ field

instance (field : ByteArray) : Decidable (Single field) := inferInstanceAs (Decidable (_ ∧ _))

theorem fragmentsFrom_name (rest : ByteArray) (h : (0x2e : BYTE) ∉ rest) :
    ∀ part, fragmentsFrom part rest = [part ++ rest] := by
  induction rest with
  | nil =>
    intro part
    rw [List.append_nil]
    rfl
  | cons c rest ih =>
    intro part
    rw [List.mem_cons, not_or] at h
    rw [fragmentsFrom, if_neg (Ne.symm h.1), ih h.2, List.append_assoc]
    rfl

theorem fragments_name {field : ByteArray} (h : Single field) : fragments field = [field] := by
  rw [fragments, if_neg h.1, fragmentsFrom_name field h.2, List.nil_append]

theorem path_get_child_name {field : ByteArray} (h : Single field) (pt : ptree) :
    path_get_child pt field = pt.get_child field := by
  rw [path_get_child, fragments_name h, PTree.walk_single]

theorem path_put_child_name {field : ByteArray} (h : Single field) (pt child : ptree) :
    path_put_child pt field child = pt.put_child field child := by
  rw [path_put_child, fragments_name h, PTree.put_at_single]

/-! ## what is written -/

/-- the array of a vector -/
def arrayOf (values : List ByteArray) : ptree := .node [] (values.map fun value => ([], .leaf value))

theorem makeArrayElement_foldl (values : List ByteArray) : ∀ pt : ptree,
    values.foldl (fun pt value => makeArrayElement value pt) pt
      = .node pt.data (pt.children ++ values.map fun value => ([], .leaf value)) := by
  induction values with
  | nil =>
    intro pt
    cases pt
    simp
  | cons value values ih =>
    intro pt
    rw [List.foldl_cons, ih, makeArrayElement, PTree.data_push_back, PTree.children_push_back,
      List.append_assoc]
    rfl

/-- the tree that `makeJson` puts under the field has the array under the field once more -/
theorem makeJsonPt_array {field : ByteArray} (h : Single field) (values : List ByteArray) :
    VectorCodec.makeJsonPt field values (.leaf []) = .node [] [(field, arrayOf values)] := by
  rw [VectorCodec.makeJsonPt, path_put_child_name h, makeArrayElement_foldl]
  rfl

/-! ## what is read -/

/-- elements without a name are read as they are -/
theorem readAll_unnamed (elements : List ByteArray) : ∀ values : List ByteArray,
    VectorCodec.readAll (elements.map fun value => ([], .leaf value)) values
      = (true, values ++ elements) := by
  induction elements with
  | nil =>
    intro values
    rw [List.append_nil]
    rfl
  | cons e elements ih =>
    intro values
    rw [List.map_cons, VectorCodec.readAll]
    show VectorCodec.readAll _ (values ++ [e]) = _
    rw [ih, List.append_assoc]
    rfl

/-- elements without a name are not found under one -/
theorem arrayOf_get_child {field : ByteArray} (h : field ≠ []) (values : List ByteArray) :
    (arrayOf values).get_child field = none := by
  rw [PTree.get_child, arrayOf, PTree.children_node, Option.map_eq_none_iff, List.find?_eq_none]
  intro x hx
  obtain ⟨value, -, rfl⟩ := List.mem_map.mp hx
  simpa using Ne.symm h

section
variable {j : Json}

/-- `read_json` undoes `write_json` -/
def Json.Undoes (j : Json) : Prop := ∀ pt text, j.write_json pt = some text → j.read_json text = some pt

/-- what `getField` makes of a text -/
theorem getVector_text {pt : ptree} {text : ByteArray} (hj : j.Undoes)
    (hw : j.write_json pt = some text) (field : ByteArray) (values : List ByteArray)
    (behind : ByteArray) :
    jsonHelper.getVector j field values behind (text ++ [0])
      = match path_get_child pt field with
        | none => (false, values)
        | some pts => VectorCodec.readAll pts.children values := by
  rw [jsonHelper.getVector, if_neg (by simp), cString_text (j.no_nul hw), hj pt text hw]

/-- **A plain array is read as its elements.** -/
theorem getVector_array {text field : ByteArray} {pt : ptree} {elements : List ByteArray}
    (hj : j.Undoes) (hw : j.write_json pt = some text)
    (ha : path_get_child pt field = some (arrayOf elements)) (values : List ByteArray)
    (behind : ByteArray) :
    jsonHelper.getVector j field values behind (text ++ [0]) = (true, values ++ elements) := by
  rw [getVector_text hj hw, ha]
  exact readAll_unnamed elements values

/-- **Of what `makeJson` has made nothing is read.** -/
theorem getVector_makeVector {field json : ByteArray} {v : List ByteArray} (hj : j.Undoes)
    (h : Single field) (hm : jsonHelper.makeVector j field v = some json) (values : List ByteArray)
    (behind : ByteArray) : jsonHelper.getVector j field values behind json = (false, values) := by
  obtain ⟨text, hw, rfl⟩ := Option.map_eq_some_iff.mp hm
  have hfound : path_get_child (VectorCodec.tree field v) field
      = some (.node [] [(field, arrayOf v)]) := by
    rw [VectorCodec.tree, path_get_child_put_child, makeJsonPt_array h]
  have helement : path_get (arrayOf v) field = none := by
    rw [path_get, path_get_child_name h, arrayOf_get_child h.1]
    rfl
  rw [getVector_text hj hw, hfound]
  dsimp only [PTree.children_node]
  rw [VectorCodec.readAll, helement]

/-- what `makeJson` has made of a vector is read as the vector -/
def RoundTrips (j : Json) (field : ByteArray) (v : List ByteArray) (behind : ByteArray) : Prop :=
  ∀ json, jsonHelper.makeVector j field v = some json →
    jsonHelper.getVector j field [] behind json = (true, v)

/-- **A vector never comes back: only a `makeJson` that returns false keeps the promise.** -/
theorem vector_round_trip_iff (hj : j.Undoes) {field : ByteArray} (h : Single field)
    (v : List ByteArray) (behind : ByteArray) :
    RoundTrips j field v behind ↔ jsonHelper.makeVector j field v = none := by
  constructor
  · intro hr
    rw [Option.eq_none_iff_forall_ne_some]
    intro json hm
    have hread := (hr json hm).symm.trans (getVector_makeVector hj h hm [] behind)
    exact Bool.noConfusion (congrArg Prod.fst hread)
  · intro hn json hm
    rw [hn] at hm
    cases hm

end

/-! ### the vector of one `1` under `obj` -/

def objField : ByteArray := [0x6f, 0x62, 0x6a]

/-- `{"obj":{"obj":["1"]}}` and a newline -/
def objText : ByteArray :=
  [0x7b, 0x22, 0x6f, 0x62, 0x6a, 0x22, 0x3a, 0x7b, 0x22, 0x6f, 0x62, 0x6a, 0x22, 0x3a, 0x5b, 0x22,
   0x31, 0x22, 0x5d, 0x7d, 0x7d, 0x0a]

def objJson : Json := .of [(VectorCodec.tree objField [[0x31]], objText)] (by decide)

theorem objJson_undoes : objJson.Undoes := by
  intro pt text hw
  obtain ⟨e, hfind, rfl⟩ := Option.map_eq_some_iff.mp hw
  have he := List.mem_singleton.mp (List.mem_of_find?_eq_some hfind)
  have hpt := List.find?_some (p := fun e : ptree × ByteArray => decide (e.1 = pt)) hfind
  rw [← of_decide_eq_true hpt, he]
  decide

theorem vector_round_trip_obj :
    RoundTrips objJson objField [[0x31]] [] ↔ jsonHelper.makeVector objJson objField [[0x31]] = none :=
  vector_round_trip_iff objJson_undoes (by decide) [[0x31]] []

/-- the vector is made into a text, and nothing comes back -/
theorem vector_lost :
    jsonHelper.makeVector objJson objField [[0x31]] = some (objText ++ [0]) ∧
      jsonHelper.getVector objJson objField [] [] (objText ++ [0]) = (false, []) ∧
      ¬ RoundTrips objJson objField [[0x31]] [] := by
  have hm : jsonHelper.makeVector objJson objField [[0x31]] = some (objText ++ [0]) := by decide
  have hg := getVector_makeVector objJson_undoes (by decide) hm [] []
  refine ⟨hm, hg, fun hr => ?_⟩
  have hread := (hr _ hm).symm.trans hg
  exact Bool.noConfusion (congrArg Prod.fst hread)

end Netwb
