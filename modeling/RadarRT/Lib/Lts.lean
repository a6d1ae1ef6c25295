import Mathlib.Data.Nat.Notation
import Mathlib.Tactic.TypeStar

/-!
# Labelled transition functions

A concurrent program is a partial function `step : σ → α → Option σ`: the label says which
party moves and what the outside world decides for that move, and `none` means that the move
is not enabled in this state. This file has the rules used for every such program:

* `run`, a finite schedule, and how runs split;
* `Along`, a condition met by every step of a run (on the state before the step and its label);
* `run_invariant` and `run_invariant_along`, induction over a schedule;
* `no_infinite_run`, termination under any schedule from a decreasing measure;
* `run_simulated`, transport of runs along a projection.
-/

namespace RadarRT.Lts

variable {σ α τ β : Type*}

/-! ## Schedules -/

/-- The state after a schedule, `none` as soon as one of its steps is not enabled. -/
def run (step : σ → α → Option σ) : σ → List α → Option σ
  | s, [] => some s
  | s, a :: as => (step s a).bind fun s' => run step s' as

/-- `s'` is reached from `s` by some schedule. -/
def Reaches (step : σ → α → Option σ) (s s' : σ) : Prop :=
  ∃ as, run step s as = some s'

/-- Every step of the schedule meets `P`, a condition on the state before it and its label. -/
def Along (step : σ → α → Option σ) (P : σ → α → Prop) : σ → List α → Prop
  | _, [] => True
  | s, a :: as => P s a ∧ ∀ s', step s a = some s' → Along step P s' as

variable {step : σ → α → Option σ}

@[simp] theorem run_nil (s : σ) : run step s [] = some s := rfl

theorem run_cons {s t : σ} {a : α} {as : List α} :
    run step s (a :: as) = some t ↔ ∃ s', step s a = some s' ∧ run step s' as = some t := by
  simp only [run, Option.bind_eq_some_iff]

theorem run_append {s u : σ} {as bs : List α} :
    run step s (as ++ bs) = some u ↔ ∃ t, run step s as = some t ∧ run step t bs = some u := by
  induction as generalizing s with
  | nil => simp
  | cons a as ih =>
    simp only [List.cons_append, run_cons, ih]
    constructor
    · rintro ⟨s', hs', t, ht, hu⟩
      exact ⟨t, ⟨s', hs', ht⟩, hu⟩
    · rintro ⟨t, ⟨s', hs', ht⟩, hu⟩
      exact ⟨s', hs', t, ht, hu⟩

theorem run_concat {s t : σ} {as : List α} {a : α} :
    run step s (as ++ [a]) = some t ↔ ∃ u, run step s as = some u ∧ step u a = some t := by
  simp [run_append, run_cons]

theorem Reaches.refl (s : σ) : Reaches step s s := ⟨[], rfl⟩

theorem Reaches.trans {s t u : σ} (h : Reaches step s t) (h' : Reaches step t u) :
    Reaches step s u := by
  obtain ⟨as, has⟩ := h
  obtain ⟨bs, hbs⟩ := h'
  exact ⟨as ++ bs, run_append.mpr ⟨t, has, hbs⟩⟩

theorem Reaches.single {s t : σ} {a : α} (h : step s a = some t) : Reaches step s t :=
  ⟨[a], run_cons.mpr ⟨t, h, rfl⟩⟩

/-- The state a concrete schedule ends in, with a property of it found by evaluation. -/
theorem exists_run (step : σ → α → Option σ) (s : σ) (as : List α) (p : σ → Prop)
    [DecidablePred p] (h : (run step s as).any (fun t => decide (p t)) = true) :
    ∃ t, run step s as = some t ∧ p t := by
  obtain ⟨t, ht, hp⟩ := (Option.any_eq_true _ _).mp h
  exact ⟨t, ht, of_decide_eq_true hp⟩

/-! ## Invariants -/

/-- What every step preserves holds at the end of every schedule. -/
theorem run_invariant {I : σ → Prop}
    (hstep : ∀ s a s', step s a = some s' → I s → I s') {s t : σ} {as : List α}
    (h : run step s as = some t) (hs : I s) : I t := by
  induction as generalizing s with
  | nil =>
    cases h
    exact hs
  | cons a as ih =>
    obtain ⟨s', hs', ht⟩ := run_cons.mp h
    exact ih ht (hstep s a s' hs' hs)

theorem Reaches.invariant {I : σ → Prop}
    (hstep : ∀ s a s', step s a = some s' → I s → I s') {s t : σ}
    (h : Reaches step s t) (hs : I s) : I t := by
  obtain ⟨as, has⟩ := h
  exact run_invariant hstep has hs

/-- What every step meeting `P` preserves holds at the end of every schedule along `P`. -/
theorem run_invariant_along {I : σ → Prop} {P : σ → α → Prop}
    (hstep : ∀ s a s', step s a = some s' → P s a → I s → I s') {s t : σ} {as : List α}
    (h : run step s as = some t) (hP : Along step P s as) (hs : I s) : I t := by
  induction as generalizing s with
  | nil =>
    cases h
    exact hs
  | cons a as ih =>
    obtain ⟨s', hs', ht⟩ := run_cons.mp h
    exact ih ht (hP.2 s' hs') (hstep s a s' hs' hP.1 hs)

/-- A condition on labels alone is met along a schedule when each label meets it. -/
theorem along_of_forall {p : α → Prop} {as : List α} (h : ∀ a ∈ as, p a) (s : σ) :
    Along step (fun _ a => p a) s as := by
  induction as generalizing s with
  | nil => trivial
  | cons a as ih =>
    exact ⟨h a (by simp), fun s' _ => ih (fun b hb => h b (by simp [hb])) s'⟩

theorem Along.and {P Q : σ → α → Prop} {s : σ} {as : List α}
    (hP : Along step P s as) (hQ : Along step Q s as) :
    Along step (fun s a => P s a ∧ Q s a) s as := by
  induction as generalizing s with
  | nil => trivial
  | cons a as ih => exact ⟨⟨hP.1, hQ.1⟩, fun s' hs' => ih (hP.2 s' hs') (hQ.2 s' hs')⟩

/-- One more step after a schedule that meets `P`. -/
theorem Along.concat {P : σ → α → Prop} {s t : σ} {as : List α} {a : α}
    (h : Along step P s as) (hrun : run step s as = some t) (ha : P t a) :
    Along step P s (as ++ [a]) := by
  induction as generalizing s with
  | nil =>
    cases hrun
    exact ⟨ha, fun _ _ => trivial⟩
  | cons b as ih =>
    obtain ⟨s', hs', ht⟩ := run_cons.mp hrun
    refine ⟨h.1, ?_⟩
    intro s'' hs''
    rw [hs'] at hs''
    cases hs''
    exact ih (h.2 s' hs') ht

/-- Conditions that agree on the states of an invariant are met along the same schedules. -/
theorem along_congr {P Q : σ → α → Prop} {I : σ → Prop}
    (hI : ∀ s a s', step s a = some s' → I s → I s') (hPQ : ∀ s a, I s → (P s a ↔ Q s a))
    {s : σ} (hs : I s) (as : List α) : Along step P s as ↔ Along step Q s as := by
  induction as generalizing s with
  | nil => exact .rfl
  | cons a as ih =>
    exact and_congr (hPQ s a hs) (forall_congr' fun s' => forall_congr' fun hs' =>
      ih (hI s a s' hs' hs))

/-- A run meets `P` at every step, or there is a step at which it does not. -/
theorem along_or_violation {P : σ → α → Prop} {s t : σ} {as : List α}
    (h : run step s as = some t) :
    Along step P s as ∨ ∃ bs a cs u v, as = bs ++ a :: cs ∧ run step s bs = some u ∧ ¬ P u a ∧
      step u a = some v ∧ run step v cs = some t := by
  classical
  induction as generalizing s with
  | nil => exact .inl trivial
  | cons a as ih =>
    obtain ⟨s', hs', ht⟩ := run_cons.mp h
    by_cases hP : P s a
    · rcases ih ht with halong | ⟨bs, b, cs, u, v, rfl, hu, hrest⟩
      · refine .inl ⟨hP, ?_⟩
        intro s'' hs''
        rw [hs'] at hs''
        cases hs''
        exact halong
      · exact .inr ⟨a :: bs, b, cs, u, v, rfl, run_cons.mpr ⟨s', hs', hu⟩, hrest⟩
    · exact .inr ⟨[], a, as, s, s', rfl, rfl, hP, hs', ht⟩

/-- A condition on the state a step leads to, if there is one, can be evaluated. -/
instance decidableAfter {o : Option σ} {Q : σ → Prop} [∀ s, Decidable (Q s)] :
    Decidable (∀ s, o = some s → Q s) :=
  match o with
  | none => .isTrue (fun _ h => nomatch h)
  | some t => decidable_of_iff (Q t) ⟨fun h _ heq => Option.some.inj heq ▸ h, fun h => h t rfl⟩

instance decidableAlong {P : σ → α → Prop} [∀ s a, Decidable (P s a)] :
    ∀ (s : σ) (as : List α), Decidable (Along step P s as)
  | _, [] => .isTrue trivial
  | s, a :: as =>
    have : ∀ s', Decidable (Along step P s' as) := fun s' => decidableAlong s' as
    inferInstanceAs (Decidable (P s a ∧ ∀ s', step s a = some s' → Along step P s' as))

/-! ## Termination -/

/-- No schedule is infinite once a measure drops at every step from a state of `I`. -/
theorem no_infinite_run {I : σ → Prop} {μ : σ → ℕ}
    (hI : ∀ s a s', step s a = some s' → I s → I s')
    (hμ : ∀ s a s', step s a = some s' → I s → μ s' < μ s) {s : σ} (hs : I s) :
    ¬ ∃ f : ℕ → σ, f 0 = s ∧ ∀ n, ∃ a, step (f n) a = some (f (n + 1)) := by
  rintro ⟨f, hf0, hf⟩
  have hfI : ∀ n, I (f n) := by
    intro n
    induction n with
    | zero => rw [hf0]; exact hs
    | succ n ih =>
      obtain ⟨a, ha⟩ := hf n
      exact hI _ a _ ha ih
  -- after `n` steps the measure has lost at least `n`
  have hdrop : ∀ n, μ (f n) + n ≤ μ s := by
    intro n
    induction n with
    | zero => rw [hf0]; omega
    | succ n ih =>
      obtain ⟨a, ha⟩ := hf n
      have := hμ _ a _ ha (hfI n)
      omega
  have := hdrop (μ s + 1)
  omega

/-- And the schedules are no longer than the measure. -/
theorem run_length_le {I : σ → Prop} {μ : σ → ℕ}
    (hI : ∀ s a s', step s a = some s' → I s → I s')
    (hμ : ∀ s a s', step s a = some s' → I s → μ s' < μ s) {s t : σ} {as : List α}
    (h : run step s as = some t) (hs : I s) : as.length + μ t ≤ μ s := by
  induction as generalizing s with
  | nil =>
    cases h
    simp
  | cons a as ih =>
    obtain ⟨s', hs', ht⟩ := run_cons.mp h
    have hrest := ih ht (hI s a s' hs' hs)
    have hdrop := hμ s a s' hs' hs
    rw [List.length_cons]
    omega

/-! ## Simulation -/

/-- When each step from an `I` state is matched by a schedule of the other system on the
projected states, so is every run. -/
theorem run_simulated {step' : τ → β → Option τ} {π : σ → τ} {I : σ → Prop}
    (hI : ∀ s a s', step s a = some s' → I s → I s')
    (hsim : ∀ s a s', step s a = some s' → I s → Reaches step' (π s) (π s'))
    {s t : σ} (h : Reaches step s t) (hs : I s) : Reaches step' (π s) (π t) := by
  obtain ⟨as, has⟩ := h
  induction as generalizing s with
  | nil =>
    cases has
    exact Reaches.refl _
  | cons a as ih =>
    obtain ⟨s', hs', ht⟩ := run_cons.mp has
    exact (hsim s a s' hs' hs).trans (ih (hI s a s' hs' hs) ht)

end RadarRT.Lts
