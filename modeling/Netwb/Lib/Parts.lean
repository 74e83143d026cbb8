import Netwb.Lib.Run
import Mathlib.Data.List.Forall2
import Mathlib.Data.List.Basic

/-!
# Machines in a list

A system may hold any number of machines of one kind in a list.  A step of the system lets each of
them make a move or stay, and may append new ones (`Grows`).

`run_grows` carries this from a step to a run, and `Grows.keeps` is the rule for what holds of every
machine of the list.
-/

namespace Machine
variable {σ τ ε : Type}

/-- every element has moved by `R`, and what comes behind them is new -/
def Grows (R : σ → σ → Prop) (New : σ → Prop) (xs ys : List σ) : Prop :=
  ∃ zs news, ys = zs ++ news ∧ List.Forall₂ R xs zs ∧ ∀ y ∈ news, New y

/-- the states that a machine reaches -/
def Reaches (step : σ → ε → Option σ) (s t : σ) : Prop := ∃ es, run step s es = some t

section
variable {step : σ → ε → Option σ} {s m t : σ} {e : ε}

theorem reaches_refl (s : σ) : Reaches step s s := ⟨[], rfl⟩

theorem reaches_step (h : step s e = some t) : Reaches step s t := ⟨[e], run_single h⟩

theorem Reaches.trans (h1 : Reaches step s m) (h2 : Reaches step m t) : Reaches step s t := by
  obtain ⟨es, h1⟩ := h1
  obtain ⟨fs, h2⟩ := h2
  exact ⟨es ++ fs, run_then h1 h2⟩

end

variable {R : σ → σ → Prop} {New : σ → Prop} {xs ys zs : List σ}

theorem grows_of_forall₂ (h : List.Forall₂ R xs ys) : Grows R New xs ys :=
  ⟨ys, [], (List.append_nil ys).symm, h, fun _ hy => absurd hy List.not_mem_nil⟩

theorem grows_refl (hR : ∀ x, R x x) (xs : List σ) : Grows R New xs xs :=
  grows_of_forall₂ (List.forall₂_same.mpr fun x _ => hR x)

theorem grows_push (hR : ∀ x, R x x) (xs : List σ) {y : σ} (hy : New y) :
    Grows R New xs (xs ++ [y]) :=
  ⟨xs, [y], rfl, List.forall₂_same.mpr fun x _ => hR x, fun _ hz => List.mem_singleton.mp hz ▸ hy⟩

theorem grows_map (xs : List σ) {f : σ → σ} (hf : ∀ x, R x (f x)) : Grows R New xs (xs.map f) :=
  grows_of_forall₂ (List.forall₂_map_right_iff.mpr (List.forall₂_same.mpr fun x _ => hf x))

/-- one element moves -/
theorem grows_modify (hR : ∀ x, R x x) {xs : List σ} {i : Nat} {x : σ} (hx : xs[i]? = some x)
    {f : σ → σ} (hf : R x (f x)) : Grows R New xs (xs.modify i f) := by
  refine grows_of_forall₂ ?_
  induction xs generalizing i with
  | nil => cases hx
  | cons y ys ih =>
    cases i with
    | zero =>
      cases hx
      exact .cons hf (List.forall₂_same.mpr fun z _ => hR z)
    | succ i => exact .cons (hR y) (ih hx)

/-- **What every move keeps and every new element has holds of all.** -/
theorem Grows.keeps (h : Grows R New xs ys) {I : σ → Prop} (hR : ∀ x y, I x → R x y → I y)
    (hnew : ∀ y, New y → I y) (h0 : ∀ x ∈ xs, I x) : ∀ y ∈ ys, I y := by
  obtain ⟨zs, news, rfl, hz, hn⟩ := h
  intro y hy
  rcases List.mem_append.mp hy with hy | hy
  · obtain ⟨i, hi, rfl⟩ := List.mem_iff_getElem.mp hy
    have hi' : i < xs.length := hz.length_eq ▸ hi
    exact hR _ _ (h0 _ (List.getElem_mem hi')) (hz.get hi' hi)
  · exact hnew y (hn y hy)

/-- the elements keep their places -/
theorem Grows.at (h : Grows R New xs ys) {i : Nat} {x y : σ} (hx : xs[i]? = some x)
    (hy : ys[i]? = some y) : R x y := by
  obtain ⟨zs, news, rfl, hz, _⟩ := h
  obtain ⟨hi, rfl⟩ := List.getElem?_eq_some_iff.mp hx
  have hi' : i < zs.length := hz.length_eq ▸ hi
  rw [List.getElem?_append_left hi', List.getElem?_eq_getElem hi'] at hy
  cases hy
  exact hz.get hi hi'

theorem forall₂_trans (hR : ∀ x y z, R x y → R y z → R x z) (h1 : List.Forall₂ R xs ys)
    (h2 : List.Forall₂ R ys zs) : List.Forall₂ R xs zs := by
  induction h1 generalizing zs with
  | nil => exact h2
  | cons hxy _ ih =>
    cases h2 with
    | cons hyz h2 => exact .cons (hR _ _ _ hxy hyz) (ih h2)

theorem Grows.trans (h1 : Grows R New xs ys) (h2 : Grows R New ys zs)
    (hR : ∀ x y z, R x y → R y z → R x z) (hnew : ∀ x y, New x → R x y → New y) :
    Grows R New xs zs := by
  obtain ⟨as, news, rfl, ha, hn⟩ := h1
  obtain ⟨bs, news', rfl, hb, hn'⟩ := h2
  have hold := List.forall₂_take as.length hb
  have hnews := List.forall₂_drop as.length hb
  rw [List.take_left] at hold
  rw [List.drop_left] at hnews
  refine ⟨bs.take as.length, bs.drop as.length ++ news', ?_, forall₂_trans hR ha hold,
    fun y hy => ?_⟩
  · rw [← List.append_assoc, List.take_append_drop]
  · rcases List.mem_append.mp hy with hy | hy
    · obtain ⟨i, hi, rfl⟩ := List.mem_iff_getElem.mp hy
      have hi' : i < news.length := hnews.length_eq ▸ hi
      exact hnew _ _ (hn _ (List.getElem_mem hi')) (hnews.get hi' hi)
    · exact hn' y hy

/-- **From a step to a run.** -/
theorem run_grows {step : τ → ε → Option τ} (parts : τ → List σ) (hrefl : ∀ x, R x x)
    (hR : ∀ x y z, R x y → R y z → R x z) (hnew : ∀ x y, New x → R x y → New y)
    (hstep : ∀ s e s', step s e = some s' → Grows R New (parts s) (parts s')) {s t : τ}
    {es : List ε} (h : run step s es = some t) : Grows R New (parts s) (parts t) :=
  run_keeps (fun x => Grows R New (parts s) (parts x))
    (fun x e x' hx hs => hx.trans (hstep x e x' hs) hR hnew) (grows_refl hrefl _) h

end Machine
