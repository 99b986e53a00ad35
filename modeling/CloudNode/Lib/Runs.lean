import Mathlib

/-!
# Runs of a partial step function

A system is a partial step function `step : σ → ε → Option σ`: in state `s` the event `e` is
either enabled, with one outcome, or it is not. Everything a system leaves open (the network, a
lock that fails, the choice of the next party to move) is part of the event, so that a run is a
list of events and can be evaluated.

* `run step s es` — the state after the events `es`, `none` as soon as one is not enabled.
* `invariant_of_run` — the invariant rule: what every step preserves, every run preserves.
* `length_le_of_measure` — the measure rule: a number that every step makes smaller bounds the run.
* `sum_cost_le` — the potential rule: what a run costs is paid from a potential and what comes in.
* `rel_of_run` — the simulation rule: what relates two systems at every step relates their runs.
* `Always step P s es` — the property `P` holds in every state the run reaches.
* `Meets step C s es` — every step of the run is taken from a state and at an event that satisfy
  the condition `C`; `always_of_meets` is the invariant rule for such runs, `meets_of_always` says
  when the property needs `C`, and `always_iff_meets` when `C` is exactly what it needs.
-/

namespace Runs

variable {σ ε : Type*} (step : σ → ε → Option σ)

/-- The state after a list of events, `none` when one of them is not enabled. Kind: D -/
def run : σ → List ε → Option σ
  | s, [] => some s
  | s, e :: es => (step s e).bind fun s' => run s' es

/-- The empty run. Kind: L -/
@[simp] theorem run_nil (s : σ) : run step s [] = some s := rfl

/-- A run splits after its first step. Kind: L -/
theorem run_cons (s : σ) (e : ε) (es : List ε) :
    run step s (e :: es) = (step s e).bind fun s' => run step s' es := rfl

/-- A run that starts with a step is that step and a run from where it leads. Kind: L -/
theorem run_cons_eq_some {s t : σ} {e : ε} {es : List ε} :
    run step s (e :: es) = some t ↔ ∃ s', step s e = some s' ∧ run step s' es = some t := by
  rw [run_cons, Option.bind_eq_some_iff]

/-- A run splits anywhere. Kind: L -/
theorem run_append (s : σ) (es es' : List ε) :
    run step s (es ++ es') = (run step s es).bind fun s' => run step s' es' := by
  induction es generalizing s with
  | nil => rfl
  | cons e es ih =>
      rw [List.cons_append, run_cons, run_cons, Option.bind_assoc]
      exact congrArg _ (funext ih)

/-- The invariant rule for runs of certain events. Kind: L -/
theorem invariant_of_run_on {I : σ → Prop} {A : ε → Prop}
    (hstep : ∀ s e s', A e → I s → step s e = some s' → I s') {es : List ε} {s t : σ}
    (hes : ∀ e ∈ es, A e) (hs : I s) (hrun : run step s es = some t) : I t := by
  induction es generalizing s with
  | nil =>
      rw [run_nil, Option.some.injEq] at hrun
      exact hrun ▸ hs
  | cons e es ih =>
      obtain ⟨s', he, hrest⟩ := (run_cons_eq_some step).mp hrun
      have hnow := hes e (List.mem_cons_self ..)
      exact ih (fun e' he' => hes e' (List.mem_cons_of_mem e he')) (hstep s e s' hnow hs he) hrest

/-- **The invariant rule**: a property that every step preserves holds at the end of every run
that starts in it. Kind: P -/
theorem invariant_of_run {I : σ → Prop}
    (hstep : ∀ s e s', I s → step s e = some s' → I s') {es : List ε} {s t : σ} (hs : I s)
    (hrun : run step s es = some t) : I t :=
  invariant_of_run_on step (A := fun _ => True) (fun s e s' _ => hstep s e s')
    (fun _ _ => trivial) hs hrun

/-- **The measure rule**: where every step makes a number smaller, a run has no more steps than the
number it starts from. Kind: P -/
theorem length_le_of_measure {μ : σ → ℕ} (hstep : ∀ s e s', step s e = some s' → μ s' < μ s)
    {es : List ε} {s t : σ} (hrun : run step s es = some t) : es.length + μ t ≤ μ s := by
  induction es generalizing s with
  | nil =>
      rw [run_nil, Option.some.injEq] at hrun
      exact Nat.le_of_eq (by rw [hrun, List.length_nil, Nat.zero_add])
  | cons e es ih =>
      obtain ⟨s', he, hrest⟩ := (run_cons_eq_some step).mp hrun
      have hless := hstep s e s' he
      have hlength := ih hrest
      rw [List.length_cons]
      omega

/-- What is related to something is something. Kind: L -/
theorem exists_of_rel_left {τ : Type*} {R : σ → τ → Prop} {s : σ} {o : Option τ}
    (h : Option.Rel R (some s) o) : ∃ t, o = some t ∧ R s t := by
  cases h with
  | some h => exact ⟨_, rfl, h⟩

/-- So is what something is related to. Kind: L -/
theorem exists_of_rel_right {τ : Type*} {R : σ → τ → Prop} {t : τ} {o : Option σ}
    (h : Option.Rel R o (some t)) : ∃ s, o = some s ∧ R s t := by
  cases h with
  | some h => exact ⟨_, rfl, h⟩

/-- **The simulation rule**: where two systems take the same events from related states, to related
states, they have the same runs from there, to related ends. Kind: P -/
theorem rel_of_run {τ : Type*} {step' : τ → ε → Option τ} {R : σ → τ → Prop}
    (hstep : ∀ s t e, R s t → Option.Rel R (step s e) (step' t e)) {s : σ} {t : τ} (hR : R s t)
    (es : List ε) : Option.Rel R (run step s es) (run step' t es) := by
  induction es generalizing s t with
  | nil => exact .some hR
  | cons e es ih =>
      rw [run_cons, run_cons]
      have hrel := hstep s t e hR
      cases hs : step s e with
      | some s' =>
          rw [hs] at hrel
          obtain ⟨t', ht, hR'⟩ := exists_of_rel_left hrel
          rw [ht]
          exact ih hR'
      | none =>
          cases ht : step' t e with
          | none => exact .none
          | some t' =>
              rw [hs, ht] at hrel
              exact (Option.not_rel_none_some hrel).elim

/-- `P` holds in every state that the run reaches, the first one included. Kind: D -/
def Always (P : σ → Prop) : σ → List ε → Prop
  | s, [] => P s
  | s, e :: es => P s ∧ match step s e with
    | some s' => Always P s' es
    | none => True

/-- `Always` speaks of the end of every shorter run. Kind: L -/
theorem always_iff {P : σ → Prop} {s : σ} {es : List ε} :
    Always step P s es ↔ ∀ es' t, es' <+: es → run step s es' = some t → P t := by
  induction es generalizing s with
  | nil =>
      constructor
      · intro h es' t hpre hrun
        rw [List.prefix_nil.mp hpre, run_nil, Option.some.injEq] at hrun
        exact hrun ▸ h
      · exact fun h => h [] s (List.prefix_rfl) rfl
  | cons e es ih =>
      constructor
      · rintro ⟨hs, hrest⟩ es' t hpre hrun
        cases es' with
        | nil =>
            rw [run_nil, Option.some.injEq] at hrun
            exact hrun ▸ hs
        | cons e' es' =>
            obtain ⟨rfl, hpre'⟩ := List.cons_prefix_cons.mp hpre
            obtain ⟨s', he, hrun'⟩ := (run_cons_eq_some step).mp hrun
            rw [he] at hrest
            exact ih.mp hrest es' t hpre' hrun'
      · intro h
        refine ⟨h [] s (List.nil_prefix) rfl, ?_⟩
        cases he : step s e with
        | none => trivial
        | some s' =>
            refine ih.mpr fun es' t hpre hrun => ?_
            refine h (e :: es') t (List.cons_prefix_cons.mpr ⟨rfl, hpre⟩) ?_
            rw [run_cons, he]
            exact hrun

/-- Every step of the run is taken at an event, and from a state, that satisfy `C`. Kind: D -/
def Meets (C : σ → ε → Prop) : σ → List ε → Prop
  | _, [] => True
  | s, e :: es => match step s e with
    | some s' => C s e ∧ Meets C s' es
    | none => True

/-- The first step of a run that meets `C`, and what is left of it. Kind: L -/
theorem meets_cons_of_step {C : σ → ε → Prop} {s s' : σ} {e : ε} {es : List ε}
    (he : step s e = some s') : Meets step C s (e :: es) ↔ C s e ∧ Meets step C s' es := by
  simp only [Meets, he]

/-- A run of events that satisfy the condition in any state meets it. Kind: L -/
theorem meets_of_forall {C : σ → ε → Prop} {es : List ε} {s : σ}
    (hes : ∀ e ∈ es, ∀ s, C s e) : Meets step C s es := by
  induction es generalizing s with
  | nil => trivial
  | cons e es ih =>
      cases he : step s e with
      | none => simp only [Meets, he]
      | some s' =>
          have hnow := hes e (List.mem_cons_self ..) s
          exact (meets_cons_of_step step he).mpr
            ⟨hnow, ih fun e' he' => hes e' (List.mem_cons_of_mem e he')⟩

/-- Whether a run meets a condition is decided by running it. Kind: D -/
instance decidableMeets {C : σ → ε → Prop} [∀ s e, Decidable (C s e)] :
    ∀ (s : σ) (es : List ε), Decidable (Meets step C s es)
  | _, [] => .isTrue trivial
  | s, e :: es =>
    match he : step s e with
    | some s' =>
      have : Decidable (Meets step C s' es) := decidableMeets s' es
      decidable_of_iff (C s e ∧ Meets step C s' es) (meets_cons_of_step step he).symm
    | none => .isTrue (by simp only [Meets, he])

/-- The runs of the steps that meet a condition are the runs whose steps all meet it. Kind: L -/
theorem run_guarded {C : σ → ε → Prop} [∀ s e, Decidable (C s e)] {es : List ε} {s t : σ} :
    run (fun s e => if C s e then step s e else none) s es = some t ↔
      run step s es = some t ∧ Meets step C s es := by
  induction es generalizing s with
  | nil => exact (and_iff_left trivial).symm
  | cons e es ih =>
      rw [run_cons_eq_some, run_cons_eq_some]
      constructor
      · rintro ⟨s', he, hrest⟩
        by_cases hC : C s e
        · rw [if_pos hC] at he
          obtain ⟨hrun, hmeets⟩ := ih.mp hrest
          exact ⟨⟨s', he, hrun⟩, (meets_cons_of_step step he).mpr ⟨hC, hmeets⟩⟩
        · rw [if_neg hC] at he
          cases he
      · rintro ⟨⟨s', he, hrun⟩, hmeets⟩
        obtain ⟨hC, hrest⟩ := (meets_cons_of_step step he).mp hmeets
        exact ⟨s', (if_pos hC).trans he, ih.mpr ⟨hrun, hrest⟩⟩

/-- A run of events that carry more than the step looks at. Kind: L -/
theorem run_comp {φ : Type*} (f : φ → ε) (s : σ) (es : List φ) :
    run (fun s e => step s (f e)) s es = run step s (es.map f) := by
  induction es generalizing s with
  | nil => rfl
  | cons e es ih =>
      rw [List.map_cons, run_cons, run_cons]
      exact congrArg _ (funext ih)

/-- The first state of a run, and the states that follow. Kind: L -/
theorem always_cons_of_step {P : σ → Prop} {s s' : σ} {e : ε} {es : List ε}
    (he : step s e = some s') : Always step P s (e :: es) ↔ P s ∧ Always step P s' es := by
  simp only [Always, he]

/-- A property that always holds holds at first. Kind: L -/
theorem Always.first {P : σ → Prop} {s : σ} {es : List ε} (h : Always step P s es) : P s := by
  cases es with
  | nil => exact h
  | cons e es => exact h.1

/-- **The invariant rule under a condition on the steps**: a property that every step meeting `C`
preserves holds in every state of a run whose steps all meet `C`. Kind: P -/
theorem always_of_meets {P : σ → Prop} {C : σ → ε → Prop}
    (hstep : ∀ s e s', P s → C s e → step s e = some s' → P s') {es : List ε} {s : σ} (hs : P s)
    (hmeets : Meets step C s es) : Always step P s es := by
  induction es generalizing s with
  | nil => exact hs
  | cons e es ih =>
      refine ⟨hs, ?_⟩
      cases he : step s e with
      | none => trivial
      | some s' =>
          obtain ⟨hC, hrest⟩ := (meets_cons_of_step step he).mp hmeets
          exact ih (hstep s e s' hs hC he) hrest

/-- A condition on the steps of a run follows from another, where that keeps what it takes.
Kind: L -/
theorem Meets.imp_of_invariant {I : σ → Prop} {C D : σ → ε → Prop}
    (hinv : ∀ s e s', I s → C s e → step s e = some s' → I s')
    (himp : ∀ s e, I s → C s e → D s e) {es : List ε} {s : σ} (hs : I s)
    (h : Meets step C s es) : Meets step D s es := by
  induction es generalizing s with
  | nil => trivial
  | cons e es ih =>
      cases he : step s e with
      | none => simp only [Meets, he]
      | some s' =>
          obtain ⟨hC, hrest⟩ := (meets_cons_of_step step he).mp h
          refine (meets_cons_of_step step he).mpr ⟨himp s e hs hC, ?_⟩
          exact ih (hinv s e s' hs hC he) hrest

/-- The last step of a run that meets a condition, where the state before passes a test. Kind: L -/
theorem Meets.at_last {C : σ → ε → Prop} {test : σ → Bool} {es : List ε} {e : ε} {s : σ}
    (h : Meets step C s (es ++ [e]))
    (htest : (run step s es).any (fun t => test t && (step t e).isSome) = true) :
    ∃ t, test t = true ∧ C t e := by
  induction es generalizing s with
  | nil =>
      obtain ⟨htest, hsome⟩ := Bool.and_eq_true_iff.mp htest
      obtain ⟨s', he⟩ := Option.isSome_iff_exists.mp hsome
      exact ⟨s, htest, ((meets_cons_of_step step he).mp h).1⟩
  | cons e' es ih =>
      cases he : step s e' with
      | none =>
          rw [run_cons, he] at htest
          exact (Bool.false_ne_true htest).elim
      | some s' =>
          rw [run_cons, he] at htest
          exact ih ((meets_cons_of_step step he).mp h).2 htest

/-- **The invariant rule, all along**: a property that every step preserves holds in every state
of every run that starts in it. Kind: P -/
theorem always_of_invariant {I : σ → Prop} (hstep : ∀ s e s', I s → step s e = some s' → I s')
    {es : List ε} {s : σ} (hs : I s) : Always step I s es :=
  (always_iff step).mpr fun _ _ _ hrun => invariant_of_run step hstep hs hrun

/-- What always holds may be weakened. Kind: L -/
theorem Always.imp {P Q : σ → Prop} (hPQ : ∀ s, P s → Q s) {es : List ε} {s : σ}
    (h : Always step P s es) : Always step Q s es := by
  rw [always_iff] at h ⊢
  exact fun es' t hpre hrun => hPQ t (h es' t hpre hrun)

/-- The end of a run, where it passes a test, has what always holds. Kind: L -/
theorem Always.at_end {P : σ → Prop} {test : σ → Bool} {es : List ε} {s : σ}
    (h : Always step P s es) (htest : (run step s es).any test = true) :
    ∃ t, test t = true ∧ P t := by
  obtain ⟨t, hrun, ht⟩ := (Option.any_eq_true _ _).mp htest
  exact ⟨t, ht, (always_iff step).mp h es t List.prefix_rfl hrun⟩

/-- **A necessary condition**: where a step that misses `C` breaks the property `P`, all steps of a
run that keeps `P` throughout meet `C`. The invariant `I` is what may be assumed of the states
reached. Kind: P -/
theorem meets_of_always {I P : σ → Prop} {C : σ → ε → Prop}
    (hinv : ∀ s e s', I s → step s e = some s' → I s')
    (hbad : ∀ s e s', I s → P s → ¬ C s e → step s e = some s' → ¬ P s')
    {es : List ε} {s : σ} (hI : I s) (h : Always step P s es) : Meets step C s es := by
  induction es generalizing s with
  | nil => trivial
  | cons e es ih =>
      cases he : step s e with
      | none => simp only [Meets, he]
      | some s' =>
          have hP := Always.first step h
          have hrest := ((always_cons_of_step step he).mp h).2
          have hC : C s e := by
            by_contra hC
            exact hbad s e s' hI hP hC he (Always.first step hrest)
          exact (meets_cons_of_step step he).mpr ⟨hC, ih (hinv s e s' hI he) hrest⟩

/-- **An exact condition**: where a step that meets `C` keeps the property `P`, and a step that
misses it breaks `P`, a run keeps `P` throughout exactly when all its steps meet `C`. The
invariant `I` is what both may assume of the states reached. Kind: P -/
theorem always_iff_meets {I P : σ → Prop} {C : σ → ε → Prop}
    (hinv : ∀ s e s', I s → step s e = some s' → I s')
    (hgood : ∀ s e s', I s → P s → C s e → step s e = some s' → P s')
    (hbad : ∀ s e s', I s → P s → ¬ C s e → step s e = some s' → ¬ P s')
    {es : List ε} {s : σ} (hI : I s) (hP : P s) :
    Always step P s es ↔ Meets step C s es := by
  constructor
  · exact meets_of_always step hinv hbad hI
  · intro h
    have hboth : Always step (fun t => I t ∧ P t) s es := by
      apply always_of_meets step _ ⟨hI, hP⟩ h
      rintro t e t' ⟨hI, hP⟩ hC he
      exact ⟨hinv t e t' hI he, hgood t e t' hI hP hC he⟩
    exact hboth.imp step fun t h => h.2

end Runs
