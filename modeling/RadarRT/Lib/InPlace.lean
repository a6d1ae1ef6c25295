import Mathlib.Algebra.Notation.Defs
import Mathlib.Logic.Equiv.Basic
import Mathlib.Tactic.TypeStar

/-!
# Loops over a fixed-size buffer

C-style loops that update a buffer in place, as functions into `Option`. A buffer of `n` cells is
a function on `Fin n`; an access outside of it is `none`, so a loop that returns a value has made
no such access. A loop is given a number of rounds after which it gives up, again with `none`.

`whileLoop_total` and `forLt_total` are the rules for total correctness: an invariant and a
decreasing measure give a result.
-/

namespace RadarRT.InPlace

variable {σ α : Type*} {n : ℕ}

/-! ## Loops -/

/-- `while (test) body`, for at most `fuel` rounds. -/
def whileLoop (test : σ → Bool) (body : σ → Option σ) : ℕ → σ → Option σ
  | 0, s => if test s then none else some s
  | fuel + 1, s => if test s then (body s).bind (whileLoop test body fuel) else some s

/-- The test of a counted loop, on the counter and the rest of the state. -/
def below (limit : ℕ) (p : ℕ × σ) : Bool := decide (p.1 < limit)

/-- A round of a counted loop: the body, then the counter. -/
def countedRound (next : ℕ → ℕ) (body : ℕ → σ → Option σ) (p : ℕ × σ) : Option (ℕ × σ) :=
  (body p.1 p.2).map fun s => (next p.1, s)

/-- `for (; i < limit; i = next(i)) body`. The counter has to grow. -/
def forLt (limit : ℕ) (next : ℕ → ℕ) (body : ℕ → σ → Option σ) (i : ℕ) (s : σ) : Option σ :=
  (whileLoop (below limit) (countedRound next body) (limit - i) (i, s)).map Prod.snd

section
variable {test : σ → Bool} {body : σ → Option σ}

theorem whileLoop_done {fuel : ℕ} {s : σ} (h : test s = false) :
    whileLoop test body fuel s = some s := by
  cases fuel <;> simp [whileLoop, h]

theorem whileLoop_step {fuel : ℕ} {s s' : σ} (h : test s = true) (hbody : body s = some s') :
    whileLoop test body (fuel + 1) s = whileLoop test body fuel s' := by
  simp [whileLoop, h, hbody]

/-- An invariant `I` that every round keeps, and a measure that every round lowers. -/
theorem whileLoop_total {I : σ → Prop} {μ : σ → ℕ}
    (hbody : ∀ s, I s → test s = true → ∃ s', body s = some s' ∧ I s' ∧ μ s' < μ s)
    {fuel : ℕ} {s : σ} (hs : I s) (hfuel : μ s ≤ fuel) :
    ∃ s', whileLoop test body fuel s = some s' ∧ I s' ∧ test s' = false := by
  induction fuel generalizing s with
  | zero =>
    cases htest : test s with
    | false => exact ⟨s, whileLoop_done htest, hs, htest⟩
    | true =>
      obtain ⟨s', -, -, hlt⟩ := hbody s hs htest
      omega
  | succ fuel ih =>
    cases htest : test s with
    | false => exact ⟨s, whileLoop_done htest, hs, htest⟩
    | true =>
      obtain ⟨s', hs', hI, hlt⟩ := hbody s hs htest
      rw [whileLoop_step htest hs']
      exact ih hI (by omega)

end

section
variable {limit : ℕ} {next : ℕ → ℕ} {body : ℕ → σ → Option σ}

/-- The invariant of a counted loop speaks about the counter as well. -/
theorem forLt_total {I : ℕ → σ → Prop}
    (hbody : ∀ i s, i < limit → I i s → i < next i ∧ ∃ s', body i s = some s' ∧ I (next i) s')
    {i : ℕ} {s : σ} (hs : I i s) :
    ∃ i' s', forLt limit next body i s = some s' ∧ limit ≤ i' ∧ I i' s' := by
  have hround : ∀ p : ℕ × σ, I p.1 p.2 → below limit p = true →
      ∃ p', countedRound next body p = some p' ∧ I p'.1 p'.2 ∧ limit - p'.1 < limit - p.1 := by
    intro p hp htest
    have hlt : p.1 < limit := of_decide_eq_true htest
    obtain ⟨hnext, s', hs', hI⟩ := hbody p.1 p.2 hlt hp
    refine ⟨(next p.1, s'), ?_, hI, by dsimp only; omega⟩
    rw [countedRound, hs']
    rfl
  obtain ⟨⟨i', s'⟩, hrun, hI, htest⟩ := whileLoop_total (I := fun p : ℕ × σ => I p.1 p.2)
    (μ := fun p => limit - p.1) hround (show I (i, s).1 (i, s).2 from hs) (Nat.le_refl _)
  refine ⟨i', s', ?_, ?_, hI⟩
  · rw [forLt, hrun]
    rfl
  · exact Nat.le_of_not_lt (of_decide_eq_false htest)

/-- A loop with step one, run one round further. -/
theorem forLt_succ_limit {i : ℕ} (s : σ) (h : i ≤ limit) :
    forLt (limit + 1) (· + 1) body i s = (forLt limit (· + 1) body i s).bind (body limit) := by
  -- the two loops take the same rounds, and the longer one then takes the round at `limit`
  have hrounds : ∀ d i s, i + d = limit →
      whileLoop (below (limit + 1)) (countedRound (· + 1) body) (d + 1) (i, s) =
        (whileLoop (below limit) (countedRound (· + 1) body) d (i, s)).bind
          fun p => (body limit p.2).map fun s' => (limit + 1, s') := by
    intro d
    induction d with
    | zero =>
      intro i s hd
      have hi : i = limit := by omega
      subst hi
      cases hb : body i s <;> simp [whileLoop, below, countedRound, hb]
    | succ d ih =>
      intro i s hd
      have hlong : below (limit + 1) (i, s) = true := decide_eq_true (by omega)
      have hshort : below limit (i, s) = true := decide_eq_true (by omega)
      cases hb : body i s with
      | none => simp [whileLoop, hlong, hshort, countedRound, hb]
      | some s' =>
        have hround : countedRound (· + 1) body (i, s) = some (i + 1, s') := by
          simp [countedRound, hb]
        rw [whileLoop_step hlong hround, whileLoop_step hshort hround]
        exact ih (i + 1) s' (by omega)
  have hfuel : limit + 1 - i = limit - i + 1 := by omega
  rw [forLt, forLt, hfuel, hrounds _ _ _ (by omega)]
  cases whileLoop _ _ (limit - i) (i, s) with
  | none => rfl
  | some p => cases hb : body limit p.2 <;> simp [hb]

end

/-! ## Buffers -/

/-- `data[i]`. -/
def read (data : Fin n → α) (i : ℕ) : Option α :=
  if h : i < n then some (data ⟨i, h⟩) else none

/-- `data[i] = v`. -/
def write (data : Fin n → α) (i : ℕ) (v : α) : Option (Fin n → α) :=
  if h : i < n then some (Function.update data ⟨i, h⟩ v) else none

/-- `std::swap(data[i], data[j])`. -/
def swap (data : Fin n → α) (i j : ℕ) : Option (Fin n → α) := do
  let x ← read data i
  let y ← read data j
  let data ← write data i y
  write data j x

theorem swap_eq (data : Fin n → α) {i j : ℕ} (hi : i < n) (hj : j < n) :
    swap data i j = some fun k => data (Equiv.swap ⟨i, hi⟩ ⟨j, hj⟩ k) := by
  simp only [swap, read, write, hi, hj, dif_pos, Option.bind_eq_bind, Option.bind_some,
    Option.some.injEq]
  funext k
  rw [Equiv.swap_apply_def]
  by_cases hkj : k = ⟨j, hj⟩
  · subst hkj
    rw [Function.update_self]
    split <;> simp_all
  · rw [Function.update_of_ne hkj, if_neg hkj]
    by_cases hki : k = ⟨i, hi⟩
    · rw [if_pos hki, hki, Function.update_self]
    · rw [if_neg hki, Function.update_of_ne hki]

/-- The buffer holds the values of `d` at its indices. -/
def Holds (data : Fin n → α) (d : ℕ → α) : Prop := ∀ i : Fin n, data i = d i

theorem Holds.congr {data : Fin n → α} {d d' : ℕ → α} (h : Holds data d)
    (heq : ∀ i, i < n → d i = d' i) : Holds data d' := by
  intro i
  rw [h i, heq i i.isLt]

theorem Holds.read {data : Fin n → α} {d : ℕ → α} (h : Holds data d) {i : ℕ} (hi : i < n) :
    InPlace.read data i = some (d i) := by
  simp only [InPlace.read, hi, dif_pos, h ⟨i, hi⟩]

theorem Holds.write {data : Fin n → α} {d : ℕ → α} (h : Holds data d) {i : ℕ} (hi : i < n)
    (v : α) : ∃ data', InPlace.write data i v = some data' ∧
      Holds data' (Function.update d i v) := by
  refine ⟨Function.update data ⟨i, hi⟩ v, by simp only [InPlace.write, hi, dif_pos], ?_⟩
  intro k
  by_cases hk : k = ⟨i, hi⟩
  · subst hk
    simp
  · have hne : k.val ≠ i := fun hval => hk (Fin.ext hval)
    rw [Function.update_of_ne hk, Function.update_of_ne hne, h k]

/-- The contents of the buffer, continued by zero. -/
def extend [Zero α] (data : Fin n → α) (i : ℕ) : α :=
  if h : i < n then data ⟨i, h⟩ else 0

@[simp]
theorem extend_val [Zero α] (data : Fin n → α) (i : Fin n) : extend data i = data i := by
  simp only [extend, i.isLt, dif_pos]

theorem extend_of_lt [Zero α] (data : Fin n → α) {i : ℕ} (h : i < n) :
    extend data i = data ⟨i, h⟩ := by
  simp only [extend, h, dif_pos]

end RadarRT.InPlace
