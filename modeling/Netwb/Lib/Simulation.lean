import Netwb.Lib.Run

/-!
# One machine that does what another does

`R` relates the states of a machine to those of a second, more abstract one.  When each step of the
first can be followed by steps of the second that keep `R`, so can each run
(`run_simulates`).  The rule also carries a condition on the steps over: `P` holds along the run
exactly when `Q` holds along the one that follows it.

When a state of the first is seen as one of the second, this is `run_views`; and `run_history` is
the rule for what relates a state to the list of the events before it.
-/

namespace Machine
variable {σ τ ε δ : Type} {step : σ → ε → Option σ} {step' : τ → δ → Option τ}

theorem along_append {Q : τ → δ → Prop} {s t : τ} {ds fs : List δ} (h : run step' s ds = some t) :
    Along step' Q s (ds ++ fs) ↔ Along step' Q s ds ∧ Along step' Q t fs := by
  induction ds generalizing s with
  | nil =>
    injection h with h
    rw [h]
    exact (and_iff_right trivial).symm
  | cons d ds ih =>
    obtain ⟨s', hs, hr⟩ := run_cons h
    rw [List.cons_append, Along, Along, hs]
    dsimp only
    rw [ih hr, and_assoc]

/-- **An invariant that also speaks of the events so far.** -/
theorem run_history (J : σ → List ε → Prop)
    (hstep : ∀ s e s' es, J s es → step s e = some s' → J s' (es ++ [e])) {s t : σ}
    {before es : List ε} (h0 : J s before) (h : run step s es = some t) : J t (before ++ es) := by
  induction es generalizing s before with
  | nil =>
    injection h with h
    rw [List.append_nil, ← h]
    exact h0
  | cons e es ih =>
    obtain ⟨s', hs, hr⟩ := run_cons h
    have hend := ih (hstep s e s' before h0 hs) hr
    rw [List.append_assoc] at hend
    exact hend

/-- how the second machine follows a step, or a run, of the first one to `s'` -/
def Follows (step' : τ → δ → Option τ) (R : σ → τ → Prop) (A : δ → Prop) (Q : τ → δ → Prop) (s' : σ)
    (t : τ) (holds : Prop) : Prop :=
  ∃ ds t', run step' t ds = some t' ∧ R s' t' ∧ (∀ d ∈ ds, A d) ∧ (holds ↔ Along step' Q t ds)

section
variable {R : σ → τ → Prop} {A : δ → Prop} {Q : τ → δ → Prop} {s' : σ} {t : τ} {holds : Prop}

/-- without a step -/
theorem Follows.stays (hR : R s' t) (hh : holds) : Follows step' R A Q s' t holds :=
  ⟨[], t, rfl, hR, List.forall_mem_nil _, iff_of_true hh trivial⟩

/-- with one step -/
theorem Follows.steps {t' : τ} {d : δ} (h : step' t d = some t') (hR : R s' t') (hA : A d)
    (hh : holds ↔ Q t d) : Follows step' R A Q s' t holds := by
  refine ⟨[d], t', run_single h, hR, ?_, ?_⟩
  · intro x hx
    exact List.mem_singleton.mp hx ▸ hA
  · rw [hh, Along, h]
    exact (and_iff_left trivial).symm

end

/-- **A run is followed when each of its steps is.** -/
theorem run_simulates {W P : σ → ε → Prop} {A : δ → Prop} {Q : τ → δ → Prop} (R : σ → τ → Prop)
    (hstep : ∀ s t e s', R s t → W s e → step s e = some s' → Follows step' R A Q s' t (P s e))
    {s s' : σ} {t : τ} {es : List ε} (h0 : R s t) (hW : Along step W s es)
    (h : run step s es = some s') : Follows step' R A Q s' t (Along step P s es) := by
  induction es generalizing s t with
  | nil =>
    injection h with h
    exact .stays (h ▸ h0) trivial
  | cons e es ih =>
    obtain ⟨m, hs, hr⟩ := run_cons h
    obtain ⟨ds, u, hd, hR, hA, hP⟩ := hstep s t e m h0 hW.1 hs
    obtain ⟨fs, t', hf, hR', hA', hP'⟩ := ih hR (along_tail hW hs) hr
    refine ⟨ds ++ fs, t', run_then hd hf, hR', ?_, ?_⟩
    · intro d hmem
      exact (List.mem_append.mp hmem).elim (hA d) (hA' d)
    · rw [along_append hd, ← hP, ← hP', Along, hs]

/-- **Seen through `π`, a run is a run of the other machine**, when each step that keeps the invariant
is one. -/
theorem run_views (I : σ → Prop) (π : σ → τ) (f : σ → ε → List δ)
    (hI : ∀ s e s', I s → step s e = some s' → I s')
    (hstep : ∀ s e s', I s → step s e = some s' → run step' (π s) (f s e) = some (π s')) {s t : σ}
    {es : List ε} (h0 : I s) (h : run step s es = some t) :
    run step' (π s) (collect step f s es) = some (π t) := by
  induction es generalizing s with
  | nil =>
    injection h with h
    rw [h]
    rfl
  | cons e es ih =>
    obtain ⟨s', hs, hr⟩ := run_cons h
    rw [collect, hs]
    exact run_then (hstep s e s' h0 hs) (ih (hI s e s' h0 hs) hr)

end Machine
