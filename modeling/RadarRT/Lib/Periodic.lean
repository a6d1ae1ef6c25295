import Mathlib.Algebra.Order.Monoid.Defs
import Mathlib.Algebra.Order.Group.Defs
import Mathlib.Algebra.Group.Basic
import Mathlib.Data.List.Basic
import Mathlib.Tactic.Abel

/-!
# Periodic work that realigns after a miss

A loop works once per period. Each round begins with a sample time, ends with a reading of the
clock and leaves a deadline to the next round: one period after the last deadline, or, when the
clock has already reached that, the reading itself. Rounds that begin no earlier than the deadline
left to them (`Keeps`) are limited in their rate and do not drift between misses, in any ordered
commutative group of times and for any period.
-/

namespace RadarRT.Periodic

variable {T : Type*}

/-- A finished round. -/
structure Round (T : Type*) where
  sample : T
  /-- The clock after the work. -/
  reading : T
  /-- The deadline for the next round. -/
  deadline : T
  missed : Bool
deriving DecidableEq

/-- The deadline left by the last of these rounds, `d` if there is none. -/
def lastDeadline (d : T) (rounds : List (Round T)) : T := rounds.foldl (fun _ r => r.deadline) d

@[simp] theorem lastDeadline_nil (d : T) : lastDeadline d [] = d := rfl

@[simp] theorem lastDeadline_concat (d : T) (rounds : List (Round T)) (r : Round T) :
    lastDeadline d (rounds ++ [r]) = r.deadline := by
  simp [lastDeadline]

/-- When the rounds began, the one under way included. -/
def samples (rounds : List (Round T)) (current : Option T) : List T :=
  rounds.map (·.sample) ++ current.toList

variable [AddCommGroup T] [LinearOrder T] {period d : T} {current : Option T}
  {rounds : List (Round T)}

/-- The round respects the deadline `d` left to it. -/
structure Round.After (period d : T) (r : Round T) : Prop where
  due : d ≤ r.sample
  ordered : r.sample ≤ r.reading
  missed_iff : r.missed = true ↔ d + period ≤ r.reading
  deadline_eq : r.deadline = if r.missed then r.reading else d + period

/-- Every round respects the deadline left to it, the first one `d`; so does the start of the
round under way. -/
def Keeps (period : T) (current : Option T) : T → List (Round T) → Prop
  | d, [] => ∀ t, current = some t → d ≤ t
  | d, r :: rounds => r.After period d ∧ Keeps period current r.deadline rounds

/-- The number of rounds whose last reading is at or after the deadline left to them plus the
period. -/
def lateRounds (period d : T) (rounds : List (Round T)) : ℕ :=
  ((d :: rounds.map (·.deadline)).zip (rounds.map (·.reading))).countP
    fun x => decide (x.1 + period ≤ x.2)

/-! ## One more round -/

theorem Keeps.begin (h : Keeps period none d rounds) {t : T} (ht : lastDeadline d rounds ≤ t) :
    Keeps period (some t) d rounds := by
  induction rounds generalizing d with
  | nil =>
    intro u hu
    cases hu
    exact ht
  | cons r rounds ih => exact ⟨h.1, ih h.2 ht⟩

theorem Keeps.due {t : T} (h : Keeps period (some t) d rounds) : lastDeadline d rounds ≤ t := by
  induction rounds generalizing d with
  | nil => exact h t rfl
  | cons r rounds ih => exact ih h.2

theorem Keeps.finish {t : T} (h : Keeps period (some t) d rounds) {r : Round T}
    (hr : r.After period (lastDeadline d rounds)) : Keeps period none d (rounds ++ [r]) := by
  induction rounds generalizing d with
  | nil =>
    refine ⟨hr, ?_⟩
    intro u hu
    cases hu
  | cons r' rounds ih => exact ⟨h.1, ih h.2 hr⟩

/-! ## What one round does to the deadline -/

theorem Round.After.deadline_le {r : Round T} (h : r.After period d) :
    d + period ≤ r.deadline := by
  rw [h.deadline_eq]
  split
  · next hmissed => exact h.missed_iff.mp hmissed
  · exact le_rfl

theorem Round.After.sample_le {r : Round T} (h : r.After period d) : r.sample ≤ r.deadline := by
  rw [h.deadline_eq]
  split
  · exact h.ordered
  · next hmissed =>
    have hlt : r.reading < d + period := by
      rw [← not_le, ← h.missed_iff]
      exact hmissed
    exact h.ordered.trans hlt.le

/-! ## Whole runs -/

section
variable [IsOrderedAddMonoid T]

/-- Round `k` begins at least `k` periods after the first deadline. -/
theorem Keeps.le_sample (h : Keeps period current d rounds) {k : ℕ} {t : T}
    (ht : (samples rounds current)[k]? = some t) : d + k • period ≤ t := by
  induction rounds generalizing d k with
  | nil =>
    obtain ⟨rfl, hcurrent⟩ : k = 0 ∧ current = some t := by
      cases current <;> cases k <;> simp_all [samples]
    rw [zero_nsmul, add_zero]
    exact h t hcurrent
  | cons r rounds ih =>
    obtain ⟨hr, hrest⟩ := h
    cases k with
    | zero =>
      obtain rfl : r.sample = t := by simpa [samples] using ht
      rw [zero_nsmul, add_zero]
      exact hr.due
    | succ k =>
      calc d + (k + 1) • period = d + period + k • period := by rw [succ_nsmul']; abel
        _ ≤ r.deadline + k • period := add_le_add_left hr.deadline_le _
        _ ≤ t := ih hrest (by simpa [samples] using ht)

/-- Between the starts of two rounds lie at least as many periods as there are rounds strictly
between them. -/
theorem Keeps.le_sample_sub (h : Keeps period current d rounds) {i j : ℕ} (hij : i < j) {s t : T}
    (hs : (samples rounds current)[i]? = some s) (ht : (samples rounds current)[j]? = some t) :
    s + (j - i - 1) • period ≤ t := by
  induction rounds generalizing d i j with
  | nil =>
    -- one start cannot be two
    exfalso
    obtain ⟨j, rfl⟩ := Nat.exists_eq_add_of_lt hij
    cases current <;> simp [samples] at ht
  | cons r rounds ih =>
    obtain ⟨hr, hrest⟩ := h
    obtain ⟨j, rfl⟩ : ∃ j', j = j' + 1 := ⟨j - 1, by omega⟩
    have ht' : (samples rounds current)[j]? = some t := by simpa [samples] using ht
    cases i with
    | zero =>
      obtain rfl : r.sample = s := by simpa [samples] using hs
      calc r.sample + (j + 1 - 0 - 1) • period = r.sample + j • period := by simp
        _ ≤ r.deadline + j • period := add_le_add_left hr.sample_le _
        _ ≤ t := hrest.le_sample ht'
    | succ i =>
      rw [show j + 1 - (i + 1) - 1 = j - i - 1 by omega]
      exact ih hrest (by omega) (by simpa [samples] using hs) ht'

end

/-- After rounds that miss nothing the deadline has moved by exactly one period each. -/
theorem Keeps.deadline_eq_of_onTime (h : Keeps period current d rounds) {k : ℕ} {d' : T}
    (hd' : (d :: rounds.map (·.deadline))[k]? = some d')
    (hmissed : ∀ l r, l < k → rounds[l]? = some r → r.missed = false) : d' = d + k • period := by
  induction rounds generalizing d k with
  | nil =>
    obtain ⟨rfl, rfl⟩ : k = 0 ∧ d = d' := by
      cases k <;> simp_all
    simp
  | cons r rounds ih =>
    obtain ⟨hr, hrest⟩ := h
    cases k with
    | zero =>
      obtain rfl : d = d' := by simpa using hd'
      simp
    | succ k =>
      have hdeadline : r.deadline = d + period := by
        rw [hr.deadline_eq, hmissed 0 r (by omega) rfl]
        rfl
      have hlater := ih hrest (by simpa using hd')
        (fun l r' hl hr' => hmissed (l + 1) r' (by omega) (by simpa using hr'))
      rw [hlater, hdeadline, succ_nsmul']
      abel

/-- Between two rounds the deadline moves by exactly one period per round if none of them but
perhaps the first misses. -/
theorem Keeps.deadline_sub (h : Keeps period current d rounds) {i j : ℕ} (hij : i ≤ j)
    {d₁ d₂ : T} (h₁ : (rounds.map (·.deadline))[i]? = some d₁)
    (h₂ : (rounds.map (·.deadline))[j]? = some d₂)
    (hmissed : ∀ k r, i < k → k ≤ j → rounds[k]? = some r → r.missed = false) :
    d₂ = d₁ + (j - i) • period := by
  induction rounds generalizing d i j with
  | nil => simp at h₁
  | cons r rounds ih =>
    obtain ⟨hr, hrest⟩ := h
    cases i with
    | zero =>
      obtain rfl : r.deadline = d₁ := by simpa using h₁
      rw [Nat.sub_zero]
      refine hrest.deadline_eq_of_onTime h₂ ?_
      intro l r' hl hr'
      exact hmissed (l + 1) r' (by omega) (by omega) (by simpa using hr')
    | succ i =>
      obtain ⟨j, rfl⟩ : ∃ j', j = j' + 1 := ⟨j - 1, by omega⟩
      rw [Nat.add_sub_add_right]
      refine ih hrest (by omega) (by simpa using h₁) (by simpa using h₂) ?_
      intro k r' hik hkj hr'
      exact hmissed (k + 1) r' (by omega) (by omega) (by simpa using hr')

/-- The rounds that missed are those that were late. -/
theorem Keeps.countP_missed (h : Keeps period current d rounds) :
    rounds.countP (·.missed) = lateRounds period d rounds := by
  induction rounds generalizing d with
  | nil => rfl
  | cons r rounds ih =>
    obtain ⟨hr, hrest⟩ := h
    have hlate : r.missed = decide (d + period ≤ r.reading) := by
      rw [Bool.eq_iff_iff, decide_eq_true_iff]
      exact hr.missed_iff
    rw [List.countP_cons, ih hrest, hlate]
    simp [lateRounds, List.countP_cons]

/-! ## Rounds that are prompt -/

/-- Every round begins within `latency` of the deadline left to it, the first one `d`, and reads the
clock within `work` of its beginning. -/
def Prompt (latency work : T) (current : Option T) : T → List (Round T) → Prop
  | d, [] => ∀ t, current = some t → t ≤ d + latency
  | d, r :: rounds => (r.sample ≤ d + latency ∧ r.reading ≤ r.sample + work) ∧
      Prompt latency work current r.deadline rounds

variable {latency work : T}

theorem Prompt.begin (h : Prompt latency work none d rounds) {t : T}
    (ht : t ≤ lastDeadline d rounds + latency) : Prompt latency work (some t) d rounds := by
  induction rounds generalizing d with
  | nil =>
    intro u hu
    cases hu
    exact ht
  | cons r rounds ih => exact ⟨h.1, ih h.2 ht⟩

theorem Prompt.finish {t : T} (h : Prompt latency work (some t) d rounds) {r : Round T}
    (hsample : r.sample = t) (hwork : r.reading ≤ t + work) :
    Prompt latency work none d (rounds ++ [r]) := by
  induction rounds generalizing d with
  | nil =>
    refine ⟨⟨?_, ?_⟩, ?_⟩
    · rw [hsample]
      exact h t rfl
    · rw [hsample]
      exact hwork
    · intro u hu
      cases hu
  | cons r' rounds ih => exact ⟨h.1, ih h.2⟩

section
variable [IsOrderedAddMonoid T]

/-- A prompt round whose latency and work fit into the period does not miss. -/
theorem Round.After.onTime {r : Round T} (h : r.After period d) (hsample : r.sample ≤ d + latency)
    (hwork : r.reading ≤ r.sample + work) (hfits : latency + work < period) :
    r.missed = false ∧ r.deadline = d + period := by
  have hearly : r.reading < d + period := by
    calc r.reading ≤ r.sample + work := hwork
      _ ≤ d + latency + work := add_le_add_left hsample work
      _ = d + (latency + work) := add_assoc _ _ _
      _ < d + period := add_lt_add_right hfits d
  have hmissed : r.missed = false := by
    rw [← Bool.not_eq_true, h.missed_iff, not_le]
    exact hearly
  refine ⟨hmissed, ?_⟩
  rw [h.deadline_eq, hmissed]
  rfl

/-- Prompt rounds never miss, and round `k` begins within `latency` of its place in the grid. -/
theorem Keeps.onTime (h : Keeps period current d rounds)
    (hprompt : Prompt latency work current d rounds) (hfits : latency + work < period) :
    (∀ r ∈ rounds, r.missed = false) ∧
      ∀ (k : ℕ) (t : T), (samples rounds current)[k]? = some t → t ≤ d + k • period + latency := by
  induction rounds generalizing d with
  | nil =>
    refine ⟨by simp, ?_⟩
    intro k t ht
    obtain ⟨rfl, hcurrent⟩ : k = 0 ∧ current = some t := by
      cases current <;> cases k <;> simp_all [samples]
    rw [zero_nsmul, add_zero]
    exact hprompt t hcurrent
  | cons r rounds ih =>
    obtain ⟨hr, hrest⟩ := h
    obtain ⟨⟨hsample, hwork⟩, hprompt⟩ := hprompt
    obtain ⟨hmissed, hdeadline⟩ := hr.onTime hsample hwork hfits
    obtain ⟨hall, hgrid⟩ := ih hrest hprompt
    refine ⟨?_, ?_⟩
    · intro r' hr'
      obtain rfl | hr' := List.mem_cons.mp hr'
      · exact hmissed
      · exact hall r' hr'
    · intro k t ht
      cases k with
      | zero =>
        obtain rfl : r.sample = t := by simpa [samples] using ht
        rw [zero_nsmul, add_zero]
        exact hsample
      | succ k =>
        have hle := hgrid k t (by simpa [samples] using ht)
        rw [hdeadline] at hle
        refine hle.trans_eq ?_
        rw [succ_nsmul']
        abel

end

end RadarRT.Periodic
