import Mathlib.Algebra.GroupWithZero.Nat
import Mathlib.Data.List.Infix
import Mathlib.Data.List.Basic

/-!
# Length-prefixed streams that arrive in pieces

A stream of symbols is cut into frames by a decoder that looks at the front of what is buffered
and answers `more` (not enough symbols to tell), `bad` (no frame can start so) or `msg n` (the
first `n` symbols are a frame).  An answer other than `more` does not change when symbols arrive
behind (`Decoder.msg_append`, `Decoder.bad_append`).

* `drain`     takes frames off the front until the decoder asks for more; at a bad front it drops
              everything that is buffered;
* `run`       feeds chunks one after the other and drains after each;
* `arrivals`  the frames of a list that each chunk of their concatenation completes.

How the chunks are cut does not matter as long as no bad front is met (`run_clean`), and what comes
before the first bad front is delivered in any case (`run_prefix`).  For a concatenation of frames
each one is delivered with the chunk that brings its last symbol (`run_arrivals`).
-/

namespace Framing
variable {α β γ : Type}

inductive Look where
  | more
  | bad
  | msg (n : Nat)
deriving DecidableEq, Repr

structure Decoder (α : Type) where
  look : List α → Look
  look_nil : look [] = .more
  msg_pos : ∀ {xs n}, look xs = .msg n → 0 < n
  msg_le : ∀ {xs n}, look xs = .msg n → n ≤ xs.length
  msg_append : ∀ {xs n} ys, look xs = .msg n → look (xs ++ ys) = .msg n
  bad_append : ∀ {xs} ys, look xs = .bad → look (xs ++ ys) = .bad

/-- the frames taken off the front, what stays buffered, and whether a bad front was met -/
structure Drained (α : Type) where
  frames : List (List α)
  rest : List α
  failed : Bool
deriving DecidableEq, Repr

def Drained.push (f : List α) (r : Drained α) : Drained α := ⟨f :: r.frames, r.rest, r.failed⟩

def drainN (D : Decoder α) : Nat → List α → Drained α
  | 0, xs => ⟨[], xs, false⟩
  | k + 1, xs =>
    match D.look xs with
    | .more => ⟨[], xs, false⟩
    | .bad => ⟨[], [], true⟩
    | .msg n => (drainN D k (xs.drop n)).push (xs.take n)

def drain (D : Decoder α) (xs : List α) : Drained α := drainN D (xs.length + 1) xs

/-- chunk by chunk: the frames of each call, and what stays buffered in the end -/
def run (D : Decoder α) : List α → List (List α) → List (List (List α)) × List α
  | buf, [] => ([], buf)
  | buf, c :: cs =>
    let r := drain D (buf ++ c)
    let t := run D r.rest cs
    (r.frames :: t.1, t.2)

variable (D : Decoder α)

/-! ## draining -/

theorem drainN_enough (k : Nat) : ∀ (j : Nat) (xs : List α), xs.length < k → xs.length < j →
    drainN D k xs = drainN D j xs := by
  induction k with
  | zero => intro j xs h _; omega
  | succ k ih =>
    intro j xs hk hj
    cases j with
    | zero => omega
    | succ j =>
      simp only [drainN]
      cases hl : D.look xs with
      | more => rfl
      | bad => rfl
      | msg n =>
        have h0 := D.msg_pos hl
        have h1 := D.msg_le hl
        have hd : (xs.drop n).length = xs.length - n := List.length_drop
        show (drainN D k _).push _ = (drainN D j _).push _
        rw [ih j (xs.drop n) (by omega) (by omega)]

theorem drain_more {xs : List α} (h : D.look xs = .more) : drain D xs = ⟨[], xs, false⟩ := by
  simp only [drain, drainN, h]

theorem drain_bad {xs : List α} (h : D.look xs = .bad) : drain D xs = ⟨[], [], true⟩ := by
  simp only [drain, drainN, h]

theorem drain_msg {xs : List α} {n : Nat} (h : D.look xs = .msg n) :
    drain D xs = (drain D (xs.drop n)).push (xs.take n) := by
  have h0 := D.msg_pos h
  have h1 := D.msg_le h
  have hd : (xs.drop n).length = xs.length - n := List.length_drop
  show drainN D (xs.length + 1) xs = (drainN D ((xs.drop n).length + 1) (xs.drop n)).push _
  rw [drainN_enough D ((xs.drop n).length + 1) xs.length (xs.drop n) (by omega) (by omega)]
  simp only [drainN, h]

theorem frame_length {xs : List α} {n : Nat} (h : D.look xs = .msg n) : (xs.take n).length = n := by
  rw [List.length_take, Nat.min_eq_left (D.msg_le h)]

theorem drain_nil : drain D [] = ⟨[], [], false⟩ := drain_more D D.look_nil

/-- induction along the frames at the front of a list -/
theorem drain_ind {P : List α → Prop} (more : ∀ xs, D.look xs = .more → P xs)
    (bad : ∀ xs, D.look xs = .bad → P xs)
    (msg : ∀ xs n, D.look xs = .msg n → P (xs.drop n) → P xs) : ∀ xs, P xs := by
  intro xs
  induction hk : xs.length using Nat.strong_induction_on generalizing xs with
  | _ k ih =>
    cases hl : D.look xs with
    | more => exact more xs hl
    | bad => exact bad xs hl
    | msg n =>
      have h0 := D.msg_pos hl
      have h1 := D.msg_le hl
      have hd : (xs.drop n).length = xs.length - n := List.length_drop
      exact msg xs n hl (ih _ (by omega) _ rfl)

/-- what stays buffered is not yet a frame -/
theorem look_rest (xs : List α) : D.look (drain D xs).rest = .more := by
  induction xs using drain_ind D with
  | more xs h => rw [drain_more D h]; exact h
  | bad xs h => rw [drain_bad D h]; exact D.look_nil
  | msg xs n h ih => rw [drain_msg D h]; exact ih

/-- no symbol is lost or made up -/
theorem drain_flatten (xs : List α) (h : (drain D xs).failed = false) :
    (drain D xs).frames.flatten ++ (drain D xs).rest = xs := by
  induction xs using drain_ind D with
  | more xs hl => rw [drain_more D hl]; rfl
  | bad xs hl =>
    rw [drain_bad D hl] at h
    cases h
  | msg xs n hl ih =>
    rw [drain_msg D hl] at h ⊢
    have ih' := ih h
    show xs.take n ++ (drain D (xs.drop n)).frames.flatten ++ (drain D (xs.drop n)).rest = xs
    rw [List.append_assoc, ih', List.take_append_drop]

/-- the frames stand at the front -/
theorem drain_frames_front (xs : List α) : (drain D xs).frames.flatten <+: xs := by
  induction xs using drain_ind D with
  | more xs h => rw [drain_more D h]; exact List.nil_prefix
  | bad xs h => rw [drain_bad D h]; exact List.nil_prefix
  | msg xs n h ih =>
    rw [drain_msg D h]
    obtain ⟨t, ht⟩ := ih
    refine ⟨t, ?_⟩
    show xs.take n ++ (drain D (xs.drop n)).frames.flatten ++ t = xs
    rw [List.append_assoc, ht, List.take_append_drop]

theorem look_frame (xs : List α) :
    ∀ f ∈ (drain D xs).frames, ∃ ys, D.look (f ++ ys) = .msg f.length := by
  induction xs using drain_ind D with
  | more xs h => rw [drain_more D h]; intro f hf; cases hf
  | bad xs h => rw [drain_bad D h]; intro f hf; cases hf
  | msg xs n h ih =>
    rw [drain_msg D h]
    intro f hf
    rcases List.mem_cons.mp hf with rfl | hf'
    · refine ⟨xs.drop n, ?_⟩
      rw [List.take_append_drop, h, frame_length D h]
    · exact ih f hf'

/-! ## symbols that arrive later -/

/-- without a bad front, draining can be interrupted anywhere -/
theorem drain_append (xs ys : List α) (h : (drain D xs).failed = false) :
    (drain D (xs ++ ys)).frames
        = (drain D xs).frames ++ (drain D ((drain D xs).rest ++ ys)).frames ∧
      (drain D (xs ++ ys)).rest = (drain D ((drain D xs).rest ++ ys)).rest ∧
      (drain D (xs ++ ys)).failed = (drain D ((drain D xs).rest ++ ys)).failed := by
  induction xs using drain_ind D with
  | more xs hl => rw [drain_more D hl]; exact ⟨rfl, rfl, rfl⟩
  | bad xs hl =>
    rw [drain_bad D hl] at h
    cases h
  | msg xs n hl ih =>
    rw [drain_msg D hl] at h
    obtain ⟨h1, h2, h3⟩ := ih h
    have hle := D.msg_le hl
    have ed : (xs ++ ys).drop n = xs.drop n ++ ys := List.drop_append_of_le_length hle
    have et : (xs ++ ys).take n = xs.take n := List.take_append_of_le_length hle
    rw [drain_msg D (D.msg_append ys hl), drain_msg D hl, ed, et]
    refine ⟨?_, h2, h3⟩
    show _ :: _ = _ :: _ ++ _
    rw [h1]
    rfl

/-- a bad front stays where it is -/
theorem drain_append_failed (xs ys : List α) (h : (drain D xs).failed = true) :
    drain D (xs ++ ys) = drain D xs := by
  induction xs using drain_ind D with
  | more xs hl =>
    rw [drain_more D hl] at h
    cases h
  | bad xs hl => rw [drain_bad D hl, drain_bad D (D.bad_append ys hl)]
  | msg xs n hl ih =>
    rw [drain_msg D hl] at h
    have ed : (xs ++ ys).drop n = xs.drop n ++ ys := List.drop_append_of_le_length (D.msg_le hl)
    have et : (xs ++ ys).take n = xs.take n := List.take_append_of_le_length (D.msg_le hl)
    rw [drain_msg D (D.msg_append ys hl), drain_msg D hl, ed, et, ih h]

theorem drain_failed_of_append (xs ys : List α) (h : (drain D (xs ++ ys)).failed = false) :
    (drain D xs).failed = false := by
  cases hx : (drain D xs).failed with
  | false => rfl
  | true => rw [drain_append_failed D xs ys hx, hx] at h; exact h

/-! ## chunks -/

theorem run_append (buf : List α) (cs ds : List (List α)) :
    run D buf (cs ++ ds) = ((run D buf cs).1 ++ (run D (run D buf cs).2 ds).1,
      (run D (run D buf cs).2 ds).2) := by
  induction cs generalizing buf with
  | nil => rfl
  | cons c cs ih =>
    rw [List.cons_append]
    simp only [run, ih, List.cons_append]

/-- **Without a bad front the cuts do not matter.** -/
theorem run_clean (buf : List α) (cs : List (List α)) (hb : D.look buf = .more)
    (h : (drain D (buf ++ cs.flatten)).failed = false) :
    (run D buf cs).1.flatten = (drain D (buf ++ cs.flatten)).frames ∧
      (run D buf cs).2 = (drain D (buf ++ cs.flatten)).rest := by
  induction cs generalizing buf with
  | nil =>
    rw [List.flatten_nil, List.append_nil, drain_more D hb]
    exact ⟨rfl, rfl⟩
  | cons c cs ih =>
    rw [List.flatten_cons, ← List.append_assoc] at h ⊢
    have hc := drain_failed_of_append D _ _ h
    obtain ⟨e1, e2, e3⟩ := drain_append D (buf ++ c) cs.flatten hc
    rw [e3] at h
    obtain ⟨i1, i2⟩ := ih (drain D (buf ++ c)).rest (look_rest D _) h
    refine ⟨?_, ?_⟩
    · show ((drain D (buf ++ c)).frames :: (run D (drain D (buf ++ c)).rest cs).1).flatten = _
      rw [List.flatten_cons, i1, e1]
    · show (run D (drain D (buf ++ c)).rest cs).2 = _
      rw [i2, e2]

/-- **What precedes the first bad front is delivered first, however the chunks are cut.** -/
theorem run_prefix (buf : List α) (cs : List (List α)) (hb : D.look buf = .more) :
    (drain D (buf ++ cs.flatten)).frames <+: (run D buf cs).1.flatten := by
  induction cs generalizing buf with
  | nil =>
    rw [List.flatten_nil, List.append_nil, drain_more D hb]
    exact List.nil_prefix
  | cons c cs ih =>
    rw [List.flatten_cons, ← List.append_assoc]
    show _ <+: ((drain D (buf ++ c)).frames :: (run D (drain D (buf ++ c)).rest cs).1).flatten
    rw [List.flatten_cons]
    cases hc : (drain D (buf ++ c)).failed with
    | true =>
      rw [drain_append_failed D _ _ hc]
      exact List.prefix_append _ _
    | false =>
      rw [(drain_append D (buf ++ c) cs.flatten hc).1]
      exact (List.prefix_append_right_inj _).mpr (ih _ (look_rest D _))

/-! ## concatenated frames -/

/-- the items that end within the first `n` symbols, when each takes `len` of them -/
def completed (len : β → Nat) : List β → Nat → List β
  | [], _ => []
  | f :: fs, n => if len f ≤ n then f :: completed len fs (n - len f) else []

/-- the items that each chunk completes, with `m` symbols of the first one at hand before -/
def arrivals (len : β → Nat) : List β → Nat → List Nat → List (List β)
  | _, _, [] => []
  | fs, m, c :: cs =>
    let now := completed len fs (m + c)
    now :: arrivals len (fs.drop now.length) (m + c - (now.map len).sum) cs

section
variable (len : β → Nat)

theorem completed_all (fs : List β) (n : Nat) (h : (fs.map len).sum ≤ n) :
    completed len fs n = fs := by
  induction fs generalizing n with
  | nil => rfl
  | cons f fs ih =>
    rw [List.map_cons, List.sum_cons] at h
    rw [completed, if_pos (by omega), ih _ (by omega)]

theorem completed_prefix (fs : List β) (n : Nat) :
    fs = completed len fs n ++ fs.drop (completed len fs n).length := by
  induction fs generalizing n with
  | nil => rfl
  | cons f fs ih =>
    rw [completed]
    split
    · exact congrArg (f :: ·) (ih _)
    · rfl

theorem completed_sum_le (fs : List β) (n : Nat) : ((completed len fs n).map len).sum ≤ n := by
  induction fs generalizing n with
  | nil => exact Nat.zero_le _
  | cons f fs ih =>
    rw [completed]
    split
    · have := ih (n - len f)
      rw [List.map_cons, List.sum_cons]
      omega
    · exact Nat.zero_le _

/-- what the first symbols complete is completed when more have come -/
theorem completed_add (fs : List β) (n k : Nat) :
    completed len fs (n + k) = completed len fs n ++
      completed len (fs.drop (completed len fs n).length)
        (n + k - ((completed len fs n).map len).sum) := by
  induction fs generalizing n with
  | nil => rfl
  | cons f fs ih =>
    by_cases h : len f ≤ n
    · have hk : n + k - len f = n - len f + k := by omega
      have hs : n + k - (len f + ((completed len fs (n - len f)).map len).sum)
          = n - len f + k - ((completed len fs (n - len f)).map len).sum := by omega
      have e : completed len (f :: fs) n = f :: completed len fs (n - len f) := by
        rw [completed, if_pos h]
      rw [e, List.map_cons, List.sum_cons, List.length_cons, List.drop_succ_cons, hs, completed,
        if_pos (by omega), hk, ih (n - len f)]
      rfl
    · have e : completed len (f :: fs) n = [] := by rw [completed, if_neg h]
      rw [e]
      rfl

theorem completed_map (g : γ → β) (xs : List γ) (n : Nat) :
    completed len (xs.map g) n = (completed (fun x => len (g x)) xs n).map g := by
  induction xs generalizing n with
  | nil => rfl
  | cons x xs ih =>
    rw [List.map_cons, completed, completed, ih]
    split <;> rfl

theorem arrivals_map (g : γ → β) (xs : List γ) (m : Nat) (cs : List Nat) :
    arrivals len (xs.map g) m cs = (arrivals (fun x => len (g x)) xs m cs).map (·.map g) := by
  induction cs generalizing xs m with
  | nil => rfl
  | cons c cs ih =>
    simp only [arrivals, completed_map, List.length_map, ← List.map_drop, ih, List.map_cons,
      List.map_map]
    rfl

theorem arrivals_mem (fs : List β) (m : Nat) (cs : List Nat) :
    ∀ now ∈ arrivals len fs m cs, ∀ x ∈ now, x ∈ fs := by
  induction cs generalizing fs m with
  | nil => intro now h; cases h
  | cons c cs ih =>
    intro now h x hx
    have hsplit := completed_prefix len fs (m + c)
    rcases List.mem_cons.mp h with rfl | h'
    · rw [hsplit]
      exact List.mem_append_left _ hx
    · exact List.mem_of_mem_drop (ih _ _ now h' x hx)

theorem arrivals_length (fs : List β) (m : Nat) (cs : List Nat) :
    (arrivals len fs m cs).length = cs.length := by
  induction cs generalizing fs m with
  | nil => rfl
  | cons c cs ih => exact congrArg (· + 1) (ih _ _)

/-- after any number of chunks exactly the items are there that end within them -/
theorem arrivals_take (fs : List β) (m : Nat) (cs : List Nat) (k : Nat)
    (hm : completed len fs m = []) :
    ((arrivals len fs m cs).take k).flatten = completed len fs (m + (cs.take k).sum) := by
  induction cs generalizing fs m k with
  | nil =>
    rw [List.take_nil, List.sum_nil, Nat.add_zero, hm, arrivals, List.take_nil]
    rfl
  | cons c cs ih =>
    cases k with
    | zero =>
      rw [List.take_zero, List.take_zero, List.sum_nil, Nat.add_zero, hm]
      rfl
    | succ k =>
      have hle := completed_sum_le len fs (m + c)
      have hrest : completed len (fs.drop (completed len fs (m + c)).length)
          (m + c - ((completed len fs (m + c)).map len).sum) = [] := by
        have h := completed_add len fs (m + c) 0
        rw [Nat.add_zero] at h
        exact List.self_eq_append_right.mp h
      have hi := ih _ _ k hrest
      rw [arrivals, List.take_succ_cons, List.flatten_cons, hi, List.take_succ_cons, List.sum_cons,
        ← Nat.add_assoc, completed_add len fs (m + c), Nat.sub_add_comm hle]

end

/-- a proper beginning of a frame asks for more -/
theorem look_take {f : List α} (hf : D.look f = .msg f.length) {n : Nat} (hn : n < f.length) :
    D.look (f.take n) = .more := by
  have e : f.take n ++ f.drop n = f := List.take_append_drop n f
  cases hl : D.look (f.take n) with
  | more => rfl
  | bad =>
    have h := D.bad_append (f.drop n) hl
    rw [e, hf] at h
    cases h
  | msg k =>
    have h := D.msg_append (f.drop n) hl
    rw [e, hf] at h
    have hk := D.msg_le hl
    rw [List.length_take] at hk
    injection h with h
    omega

theorem drain_take (fs : List (List α)) (hfs : ∀ f ∈ fs, D.look f = .msg f.length) (n : Nat) :
    (drain D (fs.flatten.take n)).frames = completed List.length fs n ∧
      (drain D (fs.flatten.take n)).failed = false := by
  induction fs generalizing n with
  | nil =>
    rw [List.flatten_nil, List.take_nil, drain_nil D]
    exact ⟨rfl, rfl⟩
  | cons f fs ih =>
    have hf := hfs f (List.mem_cons_self ..)
    have ih' := ih (fun g hg => hfs g (List.mem_cons_of_mem _ hg)) (n - f.length)
    rw [List.flatten_cons, completed]
    by_cases hn : f.length ≤ n
    · have et : (f ++ fs.flatten).take n = f ++ fs.flatten.take (n - f.length) := by
        rw [List.take_append, List.take_of_length_le hn]
      have hl : D.look (f ++ fs.flatten.take (n - f.length)) = .msg f.length :=
        D.msg_append _ hf
      rw [et, drain_msg D hl, List.drop_left, List.take_left, if_pos hn]
      exact ⟨congrArg (f :: ·) ih'.1, ih'.2⟩
    · have et : (f ++ fs.flatten).take n = f.take n :=
        List.take_append_of_le_length (by omega)
      rw [et, drain_more D (look_take D hf (by omega)), if_neg hn]
      exact ⟨rfl, rfl⟩

/-- a concatenation of frames is taken apart again -/
theorem drain_flatten_frames (fs : List (List α)) (hfs : ∀ f ∈ fs, D.look f = .msg f.length) :
    drain D fs.flatten = ⟨fs, [], false⟩ := by
  induction fs with
  | nil => exact drain_nil D
  | cons f fs ih =>
    have hf := hfs f (List.mem_cons_self ..)
    rw [List.flatten_cons, drain_msg D (D.msg_append _ hf), List.drop_left, List.take_left,
      ih (fun g hg => hfs g (List.mem_cons_of_mem _ hg))]
    rfl

/-- **The beginning of a stream of frames gives the first ones.** -/
theorem drain_front (fs : List (List α)) (hfs : ∀ f ∈ fs, D.look f = .msg f.length) {xs : List α}
    (h : xs <+: fs.flatten) : (drain D xs).failed = false ∧ (drain D xs).frames <+: fs := by
  obtain ⟨ys, hys⟩ := h
  have hall := drain_flatten_frames D fs hfs
  rw [← hys] at hall
  have hf : (drain D xs).failed = false := drain_failed_of_append D xs ys (by rw [hall])
  refine ⟨hf, (drain D ((drain D xs).rest ++ ys)).frames, ?_⟩
  rw [← (drain_append D xs ys hf).1, hall]

/-- **A frame is delivered with the chunk that brings its last symbol.** -/
theorem run_arrivals (fs : List (List α)) (hfs : ∀ f ∈ fs, D.look f = .msg f.length)
    (buf : List α) (cs : List (List α)) (h : buf ++ cs.flatten = fs.flatten)
    (hb : D.look buf = .more) :
    (run D buf cs).1 = arrivals List.length fs buf.length (cs.map List.length) ∧
      (run D buf cs).2 = [] := by
  induction cs generalizing fs buf with
  | nil =>
    rw [List.flatten_nil, List.append_nil] at h
    have hd := drain_flatten_frames D fs hfs
    rw [← h, drain_more D hb] at hd
    exact ⟨rfl, congrArg Drained.rest hd⟩
  | cons c cs ih =>
    rw [List.flatten_cons, ← List.append_assoc] at h
    have e : buf ++ c = fs.flatten.take (buf.length + c.length) := by
      rw [← h, ← List.length_append, List.take_left]
    obtain ⟨h1, h2⟩ := drain_take D fs hfs (buf.length + c.length)
    rw [← e] at h1 h2
    have hsplit := completed_prefix List.length fs (buf.length + c.length)
    have hflat := drain_flatten D (buf ++ c) h2
    have hrest : (drain D (buf ++ c)).rest.length = buf.length + c.length
        - ((completed List.length fs (buf.length + c.length)).map List.length).sum := by
      have hl := congrArg List.length hflat
      rw [List.length_append, List.length_flatten, List.length_append, h1] at hl
      omega
    have hnext : (drain D (buf ++ c)).rest ++ cs.flatten
        = (fs.drop (completed List.length fs (buf.length + c.length)).length).flatten := by
      have hall := h
      rw [hsplit, List.flatten_append, ← hflat, h1, List.append_assoc] at hall
      exact List.append_cancel_left hall
    obtain ⟨i1, i2⟩ := ih _ (fun f hf => hfs f (List.mem_of_mem_drop hf)) _ hnext
      (look_rest D _)
    refine ⟨?_, i2⟩
    show (drain D (buf ++ c)).frames :: (run D (drain D (buf ++ c)).rest cs).1 = _
    rw [i1, h1, hrest]
    rfl

end Framing
