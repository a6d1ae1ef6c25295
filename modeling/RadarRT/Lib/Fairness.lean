import Mathlib.Order.Monotone.Basic
import RadarRT.Lib.Lts

/-!
# Infinite runs and weak fairness

A `Trace` is an infinite run. A party is treated fairly in it when it is never passed over for good
while it could move: at every time there is a later one at which it moves or has nothing enabled.
Only its proper moves count here, since nobody is obliged to let a call fail. The two rules reduce
liveness to facts about single steps:

* `Trace.eventually`: a rank that the party's moves lower and the others do not raise;
* `Trace.eventually_served`: a party that serves requests in a loop serves as many as were made.
-/

namespace RadarRT.Lts

variable {σ α : Type*} {step : σ → α → Option σ}

/-- An infinite run. -/
structure Trace (step : σ → α → Option σ) where
  state : ℕ → σ
  label : ℕ → α
  steps : ∀ n, step (state n) (label n) = some (state (n + 1))

namespace Trace

/-- After every time the party with the labels `mine` moves again, or none of its proper moves is
enabled. -/
def Fair (r : Trace step) (mine proper : α → Prop) : Prop :=
  ∀ n, ∃ m ≥ n, mine (r.label m) ∨ ∀ a, mine a → proper a → step (r.state m) a = none

theorem reaches (r : Trace step) {n m : ℕ} (h : n ≤ m) :
    Reaches step (r.state n) (r.state m) := by
  induction m, h using Nat.le_induction with
  | base => exact .refl _
  | succ m _ ih => exact ih.trans (.single (r.steps m))

/-- Until the goal is reached every move of the fair party lowers the rank and no other move
raises it; where the party cannot move the goal is reached. -/
theorem eventually (r : Trace step) {mine proper : α → Prop} (hfair : r.Fair mine proper)
    (goal : ℕ → Prop) (rank : σ → ℕ) {n₀ : ℕ}
    (hmine : ∀ n ≥ n₀, ¬ goal n → mine (r.label n) → ¬ goal (n + 1) →
      rank (r.state (n + 1)) < rank (r.state n))
    (hother : ∀ n ≥ n₀, ¬ goal n → ¬ mine (r.label n) → ¬ goal (n + 1) →
      rank (r.state (n + 1)) ≤ rank (r.state n))
    (hstuck : ∀ n ≥ n₀, (∀ a, mine a → proper a → step (r.state n) a = none) → goal n) :
    ∃ m ≥ n₀, goal m := by
  by_contra hno
  simp only [not_exists, not_and] at hno
  have hle : ∀ n ≥ n₀, ∀ m ≥ n, rank (r.state m) ≤ rank (r.state n) := by
    intro n hn m hm
    induction m, hm using Nat.le_induction with
    | base => exact le_rfl
    | succ k hk ih =>
      have hk₀ : k ≥ n₀ := le_trans hn hk
      by_cases hk' : mine (r.label k)
      · exact (hmine k hk₀ (hno k hk₀) hk' (hno _ (by omega))).le.trans ih
      · exact (hother k hk₀ (hno k hk₀) hk' (hno _ (by omega))).trans ih
  -- infinite descent along the times at which the party moves
  have hdescent : ∀ k n, n ≥ n₀ → rank (r.state n) = k → False := by
    intro k
    induction k using Nat.strong_induction_on with
    | _ k ih =>
      intro n hn hk
      obtain ⟨m, hm, hmove | hblocked⟩ := hfair n
      · have hm₀ : m ≥ n₀ := le_trans hn hm
        have hlt := hmine m hm₀ (hno m hm₀) hmove (hno _ (by omega))
        have hbefore := hle n hn m hm
        exact ih _ (by omega) (m + 1) (by omega) rfl
      · exact hno m (le_trans hn hm) (hstuck m (le_trans hn hm) hblocked)
  exact hdescent _ n₀ le_rfl rfl

/-- A party that serves requests in a loop: each of its moves brings it closer to serving one or
serves one, nobody takes a service back, and it is blocked only when everything was served. -/
theorem eventually_served (r : Trace step) {mine proper : α → Prop} (hfair : r.Fair mine proper)
    (served rank : σ → ℕ) (bound : ℕ) {count n₀ : ℕ}
    (hserved : ∀ n, served (r.state n) ≤ served (r.state (n + 1)))
    (hmine : ∀ n ≥ n₀, mine (r.label n) → rank (r.state (n + 1)) < rank (r.state n) ∨
      served (r.state n) < served (r.state (n + 1)) ∧ rank (r.state (n + 1)) < bound)
    (hother : ∀ n ≥ n₀, served (r.state n) < count → ¬ mine (r.label n) →
      rank (r.state (n + 1)) ≤ rank (r.state n))
    (hstuck : ∀ n ≥ n₀, (∀ a, mine a → proper a → step (r.state n) a = none) →
      count ≤ served (r.state n)) :
    ∃ m ≥ n₀, count ≤ served (r.state m) := by
  refine r.eventually hfair (fun n => count ≤ served (r.state n))
    (fun s => (count - served s) * bound + rank s) ?_ ?_ hstuck
  · intro n hn hgoal hm hgoal'
    rcases hmine n hn hm with hlt | ⟨hlt, hbound⟩
    · have hle := Nat.mul_le_mul_right bound (Nat.sub_le_sub_left (hserved n) count)
      omega
    · -- one service is worth a whole round
      have hle : (count - served (r.state (n + 1)) + 1) * bound ≤
          (count - served (r.state n)) * bound :=
        Nat.mul_le_mul_right bound (by omega)
      rw [Nat.add_mul, Nat.one_mul] at hle
      omega
  · intro n hn hgoal hm _
    have hle := Nat.mul_le_mul_right bound (Nat.sub_le_sub_left (hserved n) count)
    have hrank := hother n hn (by omega) hm
    omega

/-! ## Infinite runs from finite descriptions -/

/-- A strategy that keeps an invariant can be followed for ever. -/
theorem exists_strategic {I : σ → Prop} (strategy : σ → α)
    (h : ∀ s, I s → ∃ s', step s (strategy s) = some s' ∧ I s') {s₀ : σ} (h₀ : I s₀) :
    ∃ r : Trace step, r.state 0 = s₀ ∧ (∀ n, I (r.state n)) ∧
      ∀ n, r.label n = strategy (r.state n) := by
  choose next hstep hnext using h
  let states : ℕ → { s // I s } := fun n =>
    Nat.rec ⟨s₀, h₀⟩ (fun _ s => ⟨next s.1 s.2, hnext s.1 s.2⟩) n
  exact ⟨⟨fun n => (states n).1, fun n => strategy (states n).1,
    fun n => hstep (states n).1 (states n).2⟩, rfl, fun n => (states n).2, fun _ => rfl⟩

/-- The step number `n` of a finite run. -/
theorem run_take_succ {s₀ s : σ} {as : List α} (h : run step s₀ as = some s) {n : ℕ}
    (hn : n < as.length) : ∃ u v, run step s₀ (as.take n) = some u ∧
      step u (as.get ⟨n, hn⟩) = some v ∧ run step s₀ (as.take (n + 1)) = some v := by
  have hall := h
  rw [← List.take_append_drop (n + 1) as, run_append] at hall
  obtain ⟨v, hv, -⟩ := hall
  have hsplit := hv
  rw [List.take_succ_eq_append_getElem hn, run_concat] at hsplit
  obtain ⟨u, hu, hstep⟩ := hsplit
  exact ⟨u, v, hu, hstep, hv⟩

/-- A finite run and then, for ever, two steps that lead back to its last state. -/
def lasso (as : List α) (a b : α) {s₀ s s' : σ} (h : run step s₀ as = some s)
    (ha : step s a = some s') (hb : step s' b = some s) : Trace step where
  state n :=
    if n < as.length then (run step s₀ (as.take n)).getD s₀
    else if (n - as.length) % 2 = 0 then s else s'
  label n :=
    if hn : n < as.length then as.get ⟨n, hn⟩
    else if (n - as.length) % 2 = 0 then a else b
  steps n := by
    by_cases hn : n < as.length
    · obtain ⟨u, v, hu, hstep, hv⟩ := run_take_succ h hn
      rw [if_pos hn, dif_pos hn, hu, Option.getD_some, hstep]
      by_cases hn' : n + 1 < as.length
      · rw [if_pos hn', hv, Option.getD_some]
      · -- the last step of the finite run
        rw [List.take_of_length_le (by omega), h] at hv
        have hlast : (n + 1 - as.length) % 2 = 0 := by omega
        rw [if_neg hn', if_pos hlast, hv]
    · have hn' : ¬ n + 1 < as.length := by omega
      rw [if_neg hn, if_neg hn', dif_neg hn]
      by_cases heven : (n - as.length) % 2 = 0
      · have hodd : ¬ (n + 1 - as.length) % 2 = 0 := by omega
        rw [if_pos heven, if_pos heven, if_neg hodd, ha]
      · have heven' : (n + 1 - as.length) % 2 = 0 := by omega
        rw [if_neg heven, if_neg heven, if_pos heven', hb]

section lasso

variable (as : List α) (a b : α) {s₀ s s' : σ} (h : run step s₀ as = some s)
  (ha : step s a = some s') (hb : step s' b = some s)

theorem lasso_state_of_lt {n : ℕ} (hn : n < as.length) :
    (lasso as a b h ha hb).state n = (run step s₀ (as.take n)).getD s₀ :=
  if_pos hn

theorem lasso_state_zero : (lasso as a b h ha hb).state 0 = s₀ := by
  cases as with
  | nil =>
    cases h
    rfl
  | cons => rfl

theorem lasso_state (n : ℕ) : (lasso as a b h ha hb).state (as.length + 2 * n) = s := by
  have hge : ¬ as.length + 2 * n < as.length := by omega
  have heven : (as.length + 2 * n - as.length) % 2 = 0 := by omega
  show (if _ then _ else if _ then _ else _) = s
  rw [if_neg hge, if_pos heven]

/-- A party that cannot move in that last state is treated fairly. -/
theorem lasso_fair {mine proper : α → Prop}
    (hblocked : ∀ c, mine c → proper c → step s c = none) :
    (lasso as a b h ha hb).Fair mine proper := by
  intro n
  refine ⟨as.length + 2 * n, by omega, .inr ?_⟩
  rw [lasso_state]
  exact hblocked

end lasso

end Trace

end RadarRT.Lts
