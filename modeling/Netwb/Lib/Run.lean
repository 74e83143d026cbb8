/-!
# Runs of a machine

A machine is a step function `σ → ε → Option σ`: an event either takes a state to the next one or
cannot happen there.  `run` takes a list of events; `Along P` says that every step of a run meets a
condition `P` on the state before it and the event.

`run_inv` is the rule for invariants: what the first state has, and every step that meets the
condition keeps, every reached state has.  `run_collect` is the same rule for an invariant that also
speaks of what the steps have brought in (`collect`).

A loop without a bound is a function of a number of rounds that it may take, `none` when they are
not enough; `Comes` says that it comes back.
-/

namespace Machine
variable {σ ε : Type} (step : σ → ε → Option σ)

def run : σ → List ε → Option σ
  | s, [] => some s
  | s, e :: es => (step s e).bind fun s' => run s' es

/-- every step of the run meets the condition -/
def Along (P : σ → ε → Prop) : σ → List ε → Prop
  | _, [] => True
  | s, e :: es => P s e ∧
    match step s e with
    | some s' => Along P s' es
    | none => True

instance decidableAlong (P : σ → ε → Prop) [∀ s e, Decidable (P s e)] :
    ∀ s es, Decidable (Along step P s es)
  | _, [] => .isTrue trivial
  | s, e :: es =>
    match h : step s e with
    | some s' =>
      have := decidableAlong P s' es
      decidable_of_iff (P s e ∧ Along step P s' es) (by rw [Along, h])
    | none => decidable_of_iff (P s e) (by rw [Along, h]; exact (and_iff_left trivial).symm)

variable {step}

theorem along_tail {P : σ → ε → Prop} {s s' : σ} {e : ε} {es : List ε}
    (hP : Along step P s (e :: es)) (h : step s e = some s') : Along step P s' es := by
  have h2 := hP.2
  rw [h] at h2
  exact h2

theorem run_cons {s t : σ} {e : ε} {es : List ε} (h : run step s (e :: es) = some t) :
    ∃ s', step s e = some s' ∧ run step s' es = some t := by
  rw [run] at h
  cases hs : step s e with
  | none =>
    rw [hs] at h
    cases h
  | some s' =>
    rw [hs] at h
    exact ⟨s', rfl, h⟩

/-- **What the steps of a run keep holds at its end.** -/
theorem run_inv {P : σ → ε → Prop} (I : σ → Prop)
    (hstep : ∀ s e s', I s → P s e → step s e = some s' → I s') {s t : σ} {es : List ε}
    (h0 : I s) (hP : Along step P s es) (h : run step s es = some t) : I t := by
  induction es generalizing s with
  | nil =>
    injection h with h
    exact h ▸ h0
  | cons e es ih =>
    obtain ⟨s', hs, h'⟩ := run_cons h
    exact ih (hstep s e s' h0 hP.1 hs) (along_tail hP hs) h'

/-- what follows from an invariant and the condition holds at every step -/
theorem along_inv {P Q : σ → ε → Prop} (I : σ → Prop)
    (hstep : ∀ s e s', I s → P s e → step s e = some s' → I s')
    (hQ : ∀ s e, I s → P s e → Q s e) {s : σ} {es : List ε} (h0 : I s)
    (hP : Along step P s es) : Along step Q s es := by
  induction es generalizing s with
  | nil => trivial
  | cons e es ih =>
    refine ⟨hQ s e h0 hP.1, ?_⟩
    split
    · rename_i s' hs
      exact ih (hstep s e s' h0 hP.1 hs) (along_tail hP hs)
    · trivial

theorem along_mono {P Q : σ → ε → Prop} (hPQ : ∀ s e, P s e → Q s e) {s : σ} {es : List ε}
    (hP : Along step P s es) : Along step Q s es :=
  along_inv (fun _ => True) (fun _ _ _ _ _ _ => trivial) (fun s e _ h => hPQ s e h) trivial hP

/-- a condition on the events alone holds of each event of a run -/
theorem along_forall {Q : ε → Prop} {s t : σ} {es : List ε}
    (hQ : Along step (fun _ e => Q e) s es) (h : run step s es = some t) : ∀ e ∈ es, Q e := by
  induction es generalizing s with
  | nil => exact List.forall_mem_nil _
  | cons e es ih =>
    obtain ⟨s', hs, hr⟩ := run_cons h
    exact List.forall_mem_cons.mpr ⟨hQ.1, ih (along_tail hQ hs) hr⟩

theorem run_append {s t : σ} {es fs : List ε} (h : run step s (es ++ fs) = some t) :
    ∃ m, run step s es = some m ∧ run step m fs = some t := by
  induction es generalizing s with
  | nil => exact ⟨s, rfl, h⟩
  | cons e es ih =>
    obtain ⟨s', hs, h'⟩ := run_cons h
    obtain ⟨m, h1, h2⟩ := ih h'
    refine ⟨m, ?_, h2⟩
    rw [run, hs]
    exact h1

/-- one run after another -/
theorem run_then {s m t : σ} {es fs : List ε} (h : run step s es = some m)
    (h' : run step m fs = some t) : run step s (es ++ fs) = some t := by
  induction es generalizing s with
  | nil =>
    injection h with h
    rw [h]
    exact h'
  | cons e es ih =>
    obtain ⟨s', hs, hr⟩ := run_cons h
    rw [List.cons_append, run, hs]
    exact ih hr

theorem along_events {Q : ε → Prop} (s : σ) {es : List ε} (h : ∀ e ∈ es, Q e) :
    Along step (fun _ e => Q e) s es := by
  induction es generalizing s with
  | nil => trivial
  | cons e es ih =>
    refine ⟨h e (List.mem_cons_self ..), ?_⟩
    split
    · exact ih _ fun e' he' => h e' (List.mem_cons_of_mem _ he')
    · trivial

/-- what the steps of a run bring in, one after the other -/
def collect {α : Type} (step : σ → ε → Option σ) (f : σ → ε → List α) : σ → List ε → List α
  | _, [] => []
  | s, e :: es => f s e ++
    match step s e with
    | some s' => collect step f s' es
    | none => []

/-- **An invariant that also speaks of what was brought in so far.** -/
theorem run_collect {α : Type} {P : σ → ε → Prop} {f : σ → ε → List α} (J : σ → List α → Prop)
    (hstep : ∀ s e s' xs, J s xs → P s e → step s e = some s' → J s' (xs ++ f s e)) {s t : σ}
    {xs : List α} {es : List ε} (h0 : J s xs) (hP : Along step P s es)
    (h : run step s es = some t) : J t (xs ++ collect step f s es) := by
  induction es generalizing s xs with
  | nil =>
    injection h with h
    rw [← h, collect, List.append_nil]
    exact h0
  | cons e es ih =>
    obtain ⟨s', hs, h'⟩ := run_cons h
    have := ih (hstep s e s' xs h0 hP.1 hs) (along_tail hP hs) h'
    rw [collect, hs, ← List.append_assoc]
    exact this

/-- without a condition on the steps -/
theorem run_keeps (I : σ → Prop) (hstep : ∀ s e s', I s → step s e = some s' → I s') {s t : σ}
    {es : List ε} (h0 : I s) (h : run step s es = some t) : I t :=
  run_inv (P := fun _ _ => True) I (fun s e s' hI _ hs => hstep s e s' hI hs) h0
    (along_events s fun _ _ => trivial) h

theorem along_take {P : σ → ε → Prop} (n : Nat) {s : σ} {es : List ε} (h : Along step P s es) :
    Along step P s (es.take n) := by
  induction es generalizing s n with
  | nil =>
    rw [List.take_nil]
    trivial
  | cons e es ih =>
    cases n with
    | zero => trivial
    | succ n =>
      refine ⟨h.1, ?_⟩
      split
      · rename_i s' hs
        exact ih n (along_tail h hs)
      · trivial

theorem along_and {P Q : σ → ε → Prop} {s : σ} {es : List ε} (hP : Along step P s es)
    (hQ : Along step Q s es) : Along step (fun s e => P s e ∧ Q s e) s es := by
  induction es generalizing s with
  | nil => trivial
  | cons e es ih =>
    refine ⟨⟨hP.1, hQ.1⟩, ?_⟩
    split
    · rename_i s' hs
      exact ih (along_tail hP hs) (along_tail hQ hs)
    · trivial

/-- conditions that agree at every step agree along a run -/
theorem along_congr {P Q : σ → ε → Prop} (hPQ : ∀ s e, P s e ↔ Q s e) (s : σ) (es : List ε) :
    Along step P s es ↔ Along step Q s es := by
  induction es generalizing s with
  | nil => exact Iff.rfl
  | cons e es ih =>
    refine and_congr (hPQ s e) ?_
    cases step s e with
    | none => exact Iff.rfl
    | some s' => exact ih s'

/-- conditions that agree wherever the invariant holds agree along a run that starts there -/
theorem along_iff {P Q : σ → ε → Prop} {W : ε → Prop} (I : σ → Prop)
    (hstep : ∀ s e s', I s → W e → Q s e → step s e = some s' → I s')
    (hPQ : ∀ s e, I s → W e → (P s e ↔ Q s e)) {s : σ} {es : List ε} (h0 : I s)
    (hW : ∀ e ∈ es, W e) : Along step P s es ↔ Along step Q s es := by
  have hWs : Along step (fun _ e => W e) s es := along_events s hW
  constructor
  · intro hP
    exact along_inv I (fun s e s' hI hPW hs => hstep s e s' hI hPW.2 ((hPQ s e hI hPW.2).mp hPW.1) hs)
      (fun s e hI hPW => (hPQ s e hI hPW.2).mp hPW.1) h0 (along_and hP hWs)
  · intro hQ
    exact along_inv I (fun s e s' hI hQW hs => hstep s e s' hI hQW.2 hQW.1 hs)
      (fun s e hI hQW => (hPQ s e hI hQW.2).mpr hQW.1) h0 (along_and hQ hWs)

/-- either every step of a run meets a condition, or there is a first one that does not -/
theorem along_or_breaks (P : σ → ε → Prop) {s t : σ} {es : List ε} (h : run step s es = some t) :
    Along step P s es ∨ ∃ pre e post m m', es = pre ++ e :: post ∧ run step s pre = some m ∧
      Along step P s pre ∧ ¬ P m e ∧ step m e = some m' ∧ run step m' post = some t := by
  induction es generalizing s with
  | nil => exact Or.inl trivial
  | cons e es ih =>
    obtain ⟨s', hs, h'⟩ := run_cons h
    by_cases hP : P s e
    · rcases ih h' with ha | ⟨pre, e', post, m, m', he, hr, ha, hb⟩
      · refine Or.inl ⟨hP, ?_⟩
        rw [hs]
        exact ha
      · refine Or.inr ⟨e :: pre, e', post, m, m', by rw [he]; rfl, ?_, ⟨hP, ?_⟩, hb⟩
        · rw [run, hs]
          exact hr
        · rw [hs]
          exact ha
    · exact Or.inr ⟨[], e, es, s, s', rfl, rfl, trivial, hP, hs, h'⟩

/-! ## a machine inside another one -/

/-- **Seen through `π`, a run is a run of the other machine**, when each step is one. -/
theorem run_project {τ δ : Type} {step' : τ → δ → Option τ} (π : σ → τ) (f : σ → ε → List δ)
    (hstep : ∀ s e s', step s e = some s' → run step' (π s) (f s e) = some (π s')) {s t : σ}
    {es : List ε} (h : run step s es = some t) :
    run step' (π s) (collect step f s es) = some (π t) := by
  induction es generalizing s with
  | nil =>
    injection h with h
    rw [h]
    rfl
  | cons e es ih =>
    obtain ⟨s', hs, hr⟩ := run_cons h
    rw [collect, hs]
    exact run_then (hstep s e s' hs) (ih hr)

theorem run_single {s s' : σ} {e : ε} (h : step s e = some s') : run step s [e] = some s' := by
  rw [run, h]
  rfl

/-! ## loops that come back -/

/-- with enough rounds the loop comes back with `a` -/
def Comes {α : Type} (f : Nat → Option α) (a : α) : Prop := ∃ n, ∀ fuel, n ≤ fuel → f fuel = some a

theorem comes_now {α : Type} (a : α) : Comes (fun _ => some a) a := ⟨0, fun _ _ => rfl⟩

theorem Comes.unique {α : Type} {f : Nat → Option α} {a b : α} (ha : Comes f a) (hb : Comes f b) :
    a = b := by
  obtain ⟨n, hn⟩ := ha
  obtain ⟨m, hm⟩ := hb
  have h := (hn (max n m) (Nat.le_max_left ..)).symm.trans (hm (max n m) (Nat.le_max_right ..))
  exact Option.some.inj h

theorem Comes.map {α β : Type} {f : Nat → Option α} {a : α} (h : Comes f a) (g : α → β) :
    Comes (fun fuel => (f fuel).map g) (g a) := by
  obtain ⟨n, hn⟩ := h
  exact ⟨n, fun fuel hf => congrArg (Option.map g) (hn fuel hf)⟩

end Machine
