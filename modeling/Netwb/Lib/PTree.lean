import Mathlib.Data.List.Basic

/-!
# Property trees

A node holds a value and an ordered list of named children.  A name may be used more than once; the
first child of a name is the one that is found.

* `get_child`   the first child of a name;
* `put_child`   replaces it, or appends a child when there is none;
* `put`         the same for the value of the child, which keeps its own children;
* `push_back`   appends in any case.

What was put under a name is found there (`get_child_put_child`, `get_put`), and what is under
another name stays (`get_child_put_child_ne`, `get_child_put_ne`).

A path is a list of names: `walk` follows it, `put_at` puts a child at its end and makes the nodes
on the way (`walk_put_at`).
-/

inductive PTree (κ δ : Type) where
  | node (data : δ) (children : List (κ × PTree κ δ))

namespace PTree
variable {κ δ : Type}

def data : PTree κ δ → δ
  | .node d _ => d

def children : PTree κ δ → List (κ × PTree κ δ)
  | .node _ cs => cs

/-- a node without children -/
def leaf (d : δ) : PTree κ δ := .node d []

@[simp] theorem data_node (d : δ) (cs : List (κ × PTree κ δ)) : (node d cs).data = d := rfl
@[simp] theorem children_node (d : δ) (cs : List (κ × PTree κ δ)) : (node d cs).children = cs := rfl
@[simp] theorem data_leaf (d : δ) : (leaf d : PTree κ δ).data = d := rfl
@[simp] theorem children_leaf (d : δ) : (leaf d : PTree κ δ).children = [] := rfl

def push_back (t : PTree κ δ) (k : κ) (c : PTree κ δ) : PTree κ δ :=
  .node t.data (t.children ++ [(k, c)])

@[simp] theorem data_push_back (t : PTree κ δ) (k : κ) (c : PTree κ δ) :
    (t.push_back k c).data = t.data := rfl
@[simp] theorem children_push_back (t : PTree κ δ) (k : κ) (c : PTree κ δ) :
    (t.push_back k c).children = t.children ++ [(k, c)] := rfl

section
variable [DecidableEq κ]

def get_child (t : PTree κ δ) (k : κ) : Option (PTree κ δ) :=
  (t.children.find? fun c => c.1 = k).map Prod.snd

/-- the first child of the name becomes `c` -/
def assign (k : κ) (c : PTree κ δ) : List (κ × PTree κ δ) → List (κ × PTree κ δ)
  | [] => [(k, c)]
  | x :: xs => if x.1 = k then (x.1, c) :: xs else x :: assign k c xs

def put_child (t : PTree κ δ) (k : κ) (c : PTree κ δ) : PTree κ δ :=
  .node t.data (assign k c t.children)

def put (t : PTree κ δ) (k : κ) (d : δ) : PTree κ δ :=
  t.put_child k (.node d ((t.get_child k).elim [] children))

/-- the value of a child -/
def get (t : PTree κ δ) (k : κ) : Option δ := (t.get_child k).map data

@[simp] theorem data_put_child (t : PTree κ δ) (k : κ) (c : PTree κ δ) :
    (t.put_child k c).data = t.data := rfl
@[simp] theorem data_put (t : PTree κ δ) (k : κ) (d : δ) : (t.put k d).data = t.data := rfl

theorem find_assign (k : κ) (c : PTree κ δ) (cs : List (κ × PTree κ δ)) :
    (assign k c cs).find? (fun x => x.1 = k) = some (k, c) := by
  induction cs with
  | nil => simp [assign]
  | cons x xs ih =>
    by_cases hx : x.1 = k
    · simp [assign, hx]
    · simp [assign, hx, ih]

theorem find_assign_ne {k k' : κ} (h : k ≠ k') (c : PTree κ δ) (cs : List (κ × PTree κ δ)) :
    (assign k c cs).find? (fun x => x.1 = k') = cs.find? fun x => x.1 = k' := by
  induction cs with
  | nil => simp [assign, h]
  | cons x xs ih =>
    by_cases hx : x.1 = k
    · simp [assign, hx, h]
    · simp [assign, hx, List.find?_cons, ih]

/-- **What was put under a name is found there.** -/
@[simp] theorem get_child_put_child (t : PTree κ δ) (k : κ) (c : PTree κ δ) :
    (t.put_child k c).get_child k = some c := by
  rw [get_child, put_child, children_node, find_assign]
  rfl

/-- **What is under another name stays.** -/
theorem get_child_put_child_ne (t : PTree κ δ) {k k' : κ} (h : k ≠ k') (c : PTree κ δ) :
    (t.put_child k c).get_child k' = t.get_child k' := by
  rw [get_child, put_child, children_node, find_assign_ne h, get_child]

@[simp] theorem get_put (t : PTree κ δ) (k : κ) (d : δ) : (t.put k d).get k = some d := by
  rw [get, put, get_child_put_child]
  rfl

theorem get_child_put_ne (t : PTree κ δ) {k k' : κ} (h : k ≠ k') (d : δ) :
    (t.put k d).get_child k' = t.get_child k' := get_child_put_child_ne t h _

theorem get_put_ne (t : PTree κ δ) {k k' : κ} (h : k ≠ k') (d : δ) :
    (t.put k d).get k' = t.get k' := congrArg (Option.map data) (get_child_put_ne t h d)

/-! ## paths -/

/-- the node at the end of a path -/
def walk : PTree κ δ → List κ → Option (PTree κ δ)
  | t, [] => some t
  | t, k :: ks => (t.get_child k).bind fun c => walk c ks

/-- puts a child at the end of a path; the nodes that are missing on the way hold `d` -/
def put_at (d : δ) : PTree κ δ → List κ → PTree κ δ → PTree κ δ
  | _, [], c => c
  | t, k :: ks, c => t.put_child k (put_at d ((t.get_child k).getD (leaf d)) ks c)

@[simp] theorem walk_nil (t : PTree κ δ) : t.walk [] = some t := rfl

theorem walk_cons (t : PTree κ δ) (k : κ) (ks : List κ) :
    t.walk (k :: ks) = (t.get_child k).bind fun c => c.walk ks := rfl

@[simp] theorem walk_single (t : PTree κ δ) (k : κ) : t.walk [k] = t.get_child k := by
  rw [walk_cons]
  cases t.get_child k with
  | none => rfl
  | some c => rfl

@[simp] theorem put_at_single (d : δ) (t : PTree κ δ) (k : κ) (c : PTree κ δ) :
    put_at d t [k] c = t.put_child k c := rfl

/-- **What was put at the end of a path is found there.** -/
theorem walk_put_at (d : δ) (ks : List κ) (c : PTree κ δ) :
    ∀ t : PTree κ δ, (put_at d t ks c).walk ks = some c := by
  induction ks with
  | nil => exact fun _ => rfl
  | cons k ks ih =>
    intro t
    rw [put_at, walk_cons, get_child_put_child]
    exact ih _

end

/-! ## equality -/

section
variable [DecidableEq κ] [DecidableEq δ]

mutual
def same : (a b : PTree κ δ) → Decidable (a = b)
  | .node d cs, .node d' cs' =>
    match decEq d d', sameAll cs cs' with
    | isTrue h, isTrue h' => isTrue (by rw [h, h'])
    | isFalse h, _ => isFalse fun e => h (PTree.node.inj e).1
    | _, isFalse h => isFalse fun e => h (PTree.node.inj e).2
def sameAll : (a b : List (κ × PTree κ δ)) → Decidable (a = b)
  | [], [] => isTrue rfl
  | [], _ :: _ => isFalse (by simp)
  | _ :: _, [] => isFalse (by simp)
  | (k, t) :: cs, (k', t') :: cs' =>
    match decEq k k', same t t', sameAll cs cs' with
    | isTrue h, isTrue h', isTrue h'' => isTrue (by rw [h, h', h''])
    | isFalse h, _, _ => isFalse (by simp [h])
    | _, isFalse h, _ => isFalse (by simp [h])
    | _, _, isFalse h => isFalse (by simp [h])
end

instance : DecidableEq (PTree κ δ) := same

end

end PTree
