import Mathlib.Algebra.Order.BigOperators.Group.Finset
import Mathlib.Tactic.Ring
import RadarRT.Queue.WakeUps

/-!
# `close` releases everyone

No thread stays blocked on a closed queue: the calls that are under way when `close` has been
called all return, in whatever order they take their steps, within a number of steps that depends
on the number of threads alone. The one exception is `waitUntilEmpty`, which waits for the buffer
to be emptied, closed or not; its spurious wake-ups are not counted among the steps, and neither
are new calls.

The measure counts for every thread the steps to the end of its call, and for every
`not_full_.notify_all()` still to come the steps of the threads it may wake for nothing.
-/

namespace RadarRT.Monitor

open Finset

variable {ι α : Type*}

/-! ## Steps of calls that are under way -/

/-- In the wait set of `not_full_`, waiting for the buffer to be empty. -/
def Pc.waitsForEmpty : Pc α → Bool
  | .asleep .waitUntilEmpty => true
  | _ => false

/-- No new call, and no spurious wake-up of a `waitUntilEmpty`, which may go back to sleep as
often as it is woken. -/
def Event.settles (s : State ι α) : Event ι α → Bool
  | .call _ _ => false
  | .spurious t => !(s.threads t).waitsForEmpty
  | _ => true

/-! ## The measure -/

/-- One for a call that may still issue a `not_full_.notify_all()`. -/
def Op.notifies : Op α → ℕ
  | .waitAndPop | .tryPop | .close => 1
  | _ => 0

def Pc.notifies : Pc α → ℕ
  | .locking op _ | .critical op _ | .asleep op => op.notifies
  | .notifyAllEmpty | .notifyAllFull => 1
  | .notifyOne | .idle => 0

/-- The steps a thread takes to the end of its call, once it is woken. -/
def Pc.distance : Pc α → ℕ
  | .idle => 0
  | .asleep .waitUntilEmpty => 0
  | .asleep _ => 5
  | .locking _ _ => 4
  | .critical _ _ => 3
  | .notifyAllEmpty => 2
  | .notifyAllFull | .notifyOne => 1

theorem Pc.notifies_le (pc : Pc α) : pc.notifies ≤ 1 := by
  cases pc with
  | locking op _ | critical op _ | asleep op => cases op <;> simp [Pc.notifies, Op.notifies]
  | _ => simp [Pc.notifies]

theorem Pc.distance_le (pc : Pc α) : pc.distance ≤ 5 := by
  cases pc with
  | asleep op => cases op <;> simp [Pc.distance]
  | _ => simp [Pc.distance]

theorem Pc.wakeNotEmpty_distance (pc : Pc α) : pc.wakeNotEmpty.distance ≤ pc.distance := by
  cases pc with
  | asleep op => cases op <;> simp [Pc.wakeNotEmpty, Pc.distance]
  | _ => exact le_rfl

theorem Pc.wakeNotEmpty_notifies (pc : Pc α) : pc.wakeNotEmpty.notifies = pc.notifies := by
  cases pc with
  | asleep op => cases op <;> rfl
  | _ => rfl

theorem Pc.wakeNotFull_distance (pc : Pc α) : pc.wakeNotFull.distance ≤ pc.distance + 4 := by
  cases pc with
  | asleep op => cases op <;> simp [Pc.wakeNotFull, Pc.distance]
  | _ => exact Nat.le_add_right _ _

theorem Pc.wakeNotFull_notifies (pc : Pc α) : pc.wakeNotFull.notifies = pc.notifies := by
  cases pc with
  | asleep op => cases op <;> rfl
  | _ => rfl

/-- Where a critical section leaves its thread. -/
theorem complete_distance {l l' : Ledger α} {op : Op α} {next : Pc α}
    (h : complete l op = some (l', next)) : next.distance < 3 ∧ next.notifies ≤ op.notifies := by
  have henqueue : ∀ r : Except QueueError Bool × Ledger α,
      (afterEnqueue r).2.distance < 3 ∧ (afterEnqueue r).2.notifies = 0 := by
    intro r
    unfold afterEnqueue
    split <;> simp [Pc.distance, Pc.notifies]
  have hpop : ∀ r : Option α × Ledger α,
      (afterPop r).2.distance < 3 ∧ (afterPop r).2.notifies ≤ 1 := by
    intro r
    unfold afterPop
    split <;> simp [Pc.distance, Pc.notifies]
  cases op with
  | push v =>
    obtain ⟨r, -, hr⟩ := Option.map_eq_some_iff.mp h
    rw [show next = (afterEnqueue r).2 by rw [hr]]
    exact ⟨(henqueue r).1, (henqueue r).2.le⟩
  | tryPush v =>
    have hr := Option.some.inj h
    rw [show next = (afterEnqueue (l.tryPush v false)).2 by rw [hr]]
    exact ⟨(henqueue _).1, (henqueue _).2.le⟩
  | waitAndPop =>
    obtain ⟨r, -, hr⟩ := Option.map_eq_some_iff.mp h
    rw [show next = (afterPop r).2 by rw [hr]]
    exact hpop r
  | tryPop =>
    have hr := Option.some.inj h
    rw [show next = (afterPop l.tryPop).2 by rw [hr]]
    exact hpop _
  | close =>
    cases h
    simp [Pc.distance, Pc.notifies, Op.notifies]
  | waitUntilEmpty =>
    simp only [complete] at h
    split at h
    · cases h
      simp [Pc.distance, Pc.notifies]
    · cases h

theorem asleep_of_wakeNotEmpty {pc : Pc α} {op : Op α} (h : pc.wakeNotEmpty = .asleep op) :
    pc = .asleep op := by
  cases pc with
  | asleep op' => cases op' <;> first | exact h | cases h
  | _ => exact h

/-- Nothing reopens a queue. -/
theorem complete_closed {l l' : Ledger α} {op : Op α} {next : Pc α}
    (h : complete l op = some (l', next)) (hc : l.queue.closed = true) :
    l'.queue.closed = true := by
  obtain ⟨-, hpush | hpop | hempty | hclose⟩ := complete_effect h
  · exact hpush.2.2.1.trans hc
  · exact hpop.2.1.trans hc
  · rw [hempty.1]
    exact hc
  · rw [hclose.2]
    rfl

section run

variable [DecidableEq ι] [Fintype ι]

/-- The steps still to come, with those of the threads woken for nothing. -/
def State.toRelease (s : State ι α) : ℕ :=
  (4 * Fintype.card ι + 1) * (∑ t, (s.threads t).notifies) + ∑ t, (s.threads t).distance

omit [DecidableEq ι] in
theorem State.toRelease_le (s : State ι α) :
    s.toRelease ≤ Fintype.card ι * (4 * Fintype.card ι + 6) := by
  have hnotifies : ∑ t, (s.threads t).notifies ≤ Fintype.card ι := by
    refine (sum_le_sum fun t _ => (s.threads t).notifies_le).trans ?_
    simp
  have hdistance : ∑ t, (s.threads t).distance ≤ Fintype.card ι * 5 := by
    refine (sum_le_sum fun t _ => (s.threads t).distance_le).trans ?_
    simp
  calc s.toRelease
      ≤ (4 * Fintype.card ι + 1) * Fintype.card ι + Fintype.card ι * 5 := by
        unfold toRelease
        gcongr
    _ = Fintype.card ι * (4 * Fintype.card ι + 6) := by ring

/-- One thread moves on, or owes one notification less. -/
theorem toRelease_update {s : State ι α} {t : ι} {pc : Pc α} {l : Ledger α} {m : Option ι}
    (hd : pc.distance < (s.threads t).distance) (hn : pc.notifies ≤ (s.threads t).notifies) :
    (⟨l, m, Function.update s.threads t pc⟩ : State ι α).toRelease < s.toRelease := by
  have hnsum := Tally.sum_update_add Pc.notifies s.threads t pc
  have hdsum := Tally.sum_update_add Pc.distance s.threads t pc
  have hnle : ∑ j, (Function.update s.threads t pc j).notifies ≤ ∑ j, (s.threads j).notifies := by
    omega
  have hscaled := Nat.mul_le_mul_left (4 * Fintype.card ι + 1) hnle
  unfold State.toRelease
  dsimp only
  omega

theorem toRelease_notifyOne {s : State ι α} {t w : ι} (ht : s.threads t = .notifyOne)
    (hw : s.threads w = .asleep .waitAndPop) :
    State.toRelease { s with
      threads := Function.update (Function.update s.threads t .idle) w
        (.locking .waitAndPop true) } < s.toRelease := by
  have hne : w ≠ t := by
    rintro rfl
    rw [ht] at hw
    cases hw
  have hfirst : State.toRelease { s with threads := Function.update s.threads t .idle } <
      s.toRelease :=
    toRelease_update (by rw [ht]; simp [Pc.distance]) (by rw [ht]; exact le_rfl)
  refine lt_trans ?_ hfirst
  have hw' : Function.update s.threads t Pc.idle w = .asleep .waitAndPop := by
    rw [Function.update_of_ne hne, hw]
  refine toRelease_update (s := { s with threads := Function.update s.threads t .idle }) ?_ ?_
  · show _ < (Function.update s.threads t Pc.idle w).distance
    rw [hw']
    simp [Pc.distance]
  · show _ ≤ (Function.update s.threads t Pc.idle w).notifies
    rw [hw']
    rfl

theorem toRelease_notifyAllEmpty {s : State ι α} {t : ι} (ht : s.threads t = .notifyAllEmpty) :
    State.toRelease { s with
      threads := Function.update (fun w => (s.threads w).wakeNotEmpty) t .notifyAllFull } <
      s.toRelease := by
  have hnsum := Tally.sum_update_add Pc.notifies (fun w => (s.threads w).wakeNotEmpty) t
    .notifyAllFull
  have hdsum := Tally.sum_update_add Pc.distance (fun w => (s.threads w).wakeNotEmpty) t
    .notifyAllFull
  have hwoken : ∑ w, (s.threads w).wakeNotEmpty.distance ≤ ∑ w, (s.threads w).distance :=
    sum_le_sum fun w _ => (s.threads w).wakeNotEmpty_distance
  have hdt : (s.threads t).wakeNotEmpty.distance = 2 := by rw [ht]; rfl
  have hnt : (s.threads t).notifies = 1 := by rw [ht]; rfl
  have hdnext : (Pc.notifyAllFull : Pc α).distance = 1 := rfl
  have hnnext : (Pc.notifyAllFull : Pc α).notifies = 1 := rfl
  simp only [Pc.wakeNotEmpty_notifies, hnt, hnnext] at hnsum
  have hnotifies := Nat.add_right_cancel hnsum
  unfold State.toRelease
  dsimp only at hdsum ⊢
  rw [hnotifies]
  omega

/-- Everybody it wakes takes at most four steps to go back to sleep. -/
theorem toRelease_notifyAllFull {s : State ι α} {t : ι} (ht : s.threads t = .notifyAllFull) :
    State.toRelease { s with
      threads := Function.update (fun w => (s.threads w).wakeNotFull) t .idle } <
      s.toRelease := by
  have hnsum := Tally.sum_update_add Pc.notifies (fun w => (s.threads w).wakeNotFull) t .idle
  have hdsum := Tally.sum_update_add Pc.distance (fun w => (s.threads w).wakeNotFull) t .idle
  have hwoken : ∑ w, (s.threads w).wakeNotFull.distance ≤
      (∑ w, (s.threads w).distance) + Fintype.card ι * 4 := by
    refine (sum_le_sum fun w _ => (s.threads w).wakeNotFull_distance).trans ?_
    rw [sum_add_distrib]
    simp
  have hdt : (s.threads t).wakeNotFull.distance = 1 := by rw [ht]; rfl
  have hnt : (s.threads t).notifies = 1 := by rw [ht]; rfl
  have hdnext : (Pc.idle : Pc α).distance = 0 := rfl
  have hnnext : (Pc.idle : Pc α).notifies = 0 := rfl
  simp only [Pc.wakeNotFull_notifies, hnt, hnnext, Nat.add_zero] at hnsum
  unfold State.toRelease
  dsimp only at hdsum ⊢
  rw [← hnsum, Nat.mul_succ]
  omega

/-- On a closed queue, every step that settles brings the end closer. -/
theorem toRelease_lt {s s' : State ι α} {e : Event ι α} (h : step s e = some s')
    (hsettles : e.settles s = true) (hclosed : s.books.queue.closed = true) :
    s'.toRelease < s.toRelease := by
  cases e with
  | call t op => cases hsettles
  | acquire t =>
    simp only [step] at h
    split at h
    · next op n ht hm =>
      cases h
      exact toRelease_update (by rw [ht]; simp [Pc.distance]) (by rw [ht]; exact le_rfl)
    · cases h
  | body t =>
    simp only [step] at h
    split at h
    · next op n ht =>
      split at h
      · next l next hc =>
        cases h
        obtain ⟨hd, hn⟩ := complete_distance hc
        exact toRelease_update (by rw [ht]; exact hd) (by rw [ht]; exact hn)
      · next hc =>
        cases h
        -- only `waitUntilEmpty` still waits
        rcases sleeping_predicate hc with ⟨-, hopen, -⟩ | ⟨v, -, -, hopen⟩ | ⟨rfl, -⟩
        · rw [hclosed] at hopen
          cases hopen
        · rw [hclosed] at hopen
          cases hopen
        · exact toRelease_update (by rw [ht]; simp [Pc.distance]) (by rw [ht]; exact le_rfl)
    · cases h
  | spurious t =>
    simp only [step] at h
    split at h
    · next op ht =>
      cases h
      simp only [Event.settles, ht] at hsettles
      refine toRelease_update ?_ (by rw [ht]; exact le_rfl)
      rw [ht]
      cases op with
      | waitUntilEmpty => cases hsettles
      | _ => simp [Pc.distance]
    · cases h
  | notifyOne t target =>
    simp only [step] at h
    split at h
    · next w ht =>
      split at h
      · next hw =>
        cases h
        exact toRelease_notifyOne ht (onNotEmpty_iff.mp hw)
      · cases h
    · next ht =>
      split at h
      · cases h
        exact toRelease_update (by rw [ht]; simp [Pc.distance]) (by rw [ht]; exact le_rfl)
      · cases h
    · cases h
  | notifyAllEmpty t =>
    simp only [step] at h
    split at h
    · next ht =>
      cases h
      exact toRelease_notifyAllEmpty ht
    · cases h
  | notifyAllFull t =>
    simp only [step] at h
    split at h
    · next ht =>
      cases h
      exact toRelease_notifyAllFull ht
    · cases h

/-! ## Who holds the mutex can move -/

/-- The mutex is held by a thread in a critical section. -/
def Held (s : State ι α) : Prop := ∀ u, s.mutex = some u → ∃ op n, s.threads u = .critical op n

omit [Fintype ι] in
theorem held_update {s : State ι α} (hs : Held s) {t : ι} {pc : Pc α}
    (ht : ∀ op n, s.threads t ≠ .critical op n) :
    Held { s with threads := Function.update s.threads t pc } := by
  intro u hu
  obtain ⟨op, n, hcrit⟩ := hs u hu
  have hne : u ≠ t := by
    rintro rfl
    exact ht op n hcrit
  refine ⟨op, n, ?_⟩
  dsimp only
  rw [Function.update_of_ne hne, hcrit]

omit [Fintype ι] in
theorem held_step {s s' : State ι α} (h : Step s s') (hs : Held s) : Held s' := by
  cases h with
  | call t op ht => exact held_update hs (by simp [ht])
  | acquire t op n ht hm =>
    intro u hu
    cases hu
    exact ⟨op, n, Function.update_self ..⟩
  | complete t op n l next ht hc =>
    intro u hu
    cases hu
  | sleep t op n ht hc =>
    intro u hu
    cases hu
  | spurious t op ht => exact held_update hs (by simp [ht])
  | notifyOne t w ht hw =>
    have hne : w ≠ t := by
      rintro rfl
      rw [ht] at hw
      cases hw
    have hfirst : Held { s with threads := Function.update s.threads t .idle } :=
      held_update hs (by simp [ht])
    refine held_update (s := { s with threads := Function.update s.threads t .idle }) hfirst ?_
    intro op n
    dsimp only
    rw [Function.update_of_ne hne, hw]
    simp
  | notifyNobody t ht hw => exact held_update hs (by simp [ht])
  | notifyAllEmpty t ht =>
    have hwoken : Held { s with threads := fun w => (s.threads w).wakeNotEmpty } := by
      intro u hu
      obtain ⟨op, n, hcrit⟩ := hs u hu
      exact ⟨op, n, by dsimp only; rw [hcrit]; rfl⟩
    refine held_update (s := { s with threads := fun w => (s.threads w).wakeNotEmpty }) hwoken ?_
    intro op n
    dsimp only
    rw [ht]
    simp [Pc.wakeNotEmpty]
  | notifyAllFull t ht =>
    have hwoken : Held { s with threads := fun w => (s.threads w).wakeNotFull } := by
      intro u hu
      obtain ⟨op, n, hcrit⟩ := hs u hu
      exact ⟨op, n, by dsimp only; rw [hcrit]; rfl⟩
    refine held_update (s := { s with threads := fun w => (s.threads w).wakeNotFull }) hwoken ?_
    intro op n
    dsimp only
    rw [ht]
    simp [Pc.wakeNotFull]

/-! ## Progress -/

/-- A step of a thread of its own accord: no new call, and no spurious wake-up. -/
def Event.proper : Event ι α → Bool
  | .call _ _ | .spurious _ => false
  | _ => true

/-- Some call that is under way can take a step, without waiting for a spurious wake-up. -/
def CanSettle (s : State ι α) : Prop := ∃ e, e.proper = true ∧ (step s e).isSome = true

theorem canSettle_critical {s : State ι α} {t : ι} {op : Op α} {n : Bool}
    (ht : s.threads t = .critical op n) : CanSettle s := by
  refine ⟨.body t, rfl, ?_⟩
  simp only [step, ht]
  split <;> rfl

theorem canSettle_locking {s : State ι α} (hs : Held s) {t : ι} {op : Op α} {n : Bool}
    (ht : s.threads t = .locking op n) : CanSettle s := by
  cases hm : s.mutex with
  | none =>
    refine ⟨.acquire t, rfl, ?_⟩
    simp only [step, ht, hm]
    rfl
  | some u =>
    obtain ⟨op', n', hcrit⟩ := hs u hm
    exact canSettle_critical hcrit

theorem canSettle_notifyOne {s : State ι α} {t : ι} (ht : s.threads t = .notifyOne) :
    CanSettle s := by
  by_cases hw : ∃ w, (s.threads w).onNotEmpty = true
  · obtain ⟨w, hw⟩ := hw
    refine ⟨.notifyOne t (some w), rfl, ?_⟩
    simp only [step, ht, hw, if_true]
    rfl
  · refine ⟨.notifyOne t none, rfl, ?_⟩
    have hnone : ∀ w, (s.threads w).onNotEmpty = false := by
      intro w
      cases hon : (s.threads w).onNotEmpty with
      | false => rfl
      | true => exact absurd ⟨w, hon⟩ hw
    simp only [step, ht]
    rw [if_pos hnone]
    rfl

theorem canSettle_notifyFull {s : State ι α} (h : NotFullPending s) : CanSettle s := by
  obtain ⟨t, ht⟩ := h
  cases hpc : s.threads t with
  | notifyAllEmpty => exact ⟨.notifyAllEmpty t, rfl, by simp only [step, hpc]; rfl⟩
  | notifyAllFull => exact ⟨.notifyAllFull t, rfl, by simp only [step, hpc]; rfl⟩
  | _ =>
    rw [hpc] at ht
    cases ht

theorem canSettle_notifyEmpty {s : State ι α} (h : NotEmptyPending s) : CanSettle s := by
  obtain ⟨t, ht⟩ := h
  exact canSettle_notifyFull ⟨t, by rw [ht]; rfl⟩

/-- The calls that can wait. -/
def Op.waits : Op α → Bool
  | .push _ | .waitAndPop | .waitUntilEmpty => true
  | _ => false

/-- Only those are asleep. -/
def Sleepers (s : State ι α) : Prop := ∀ t op, s.threads t = .asleep op → op.waits = true

omit [Fintype ι] in
theorem sleepers_step {s s' : State ι α} (h : Step s s') (hs : Sleepers s) : Sleepers s' := by
  intro u op' hu
  cases h with
  | call t op ht => exact hs u op' (asleep_of_update hu (by simp))
  | acquire t op n ht hm => exact hs u op' (asleep_of_update hu (by simp))
  | complete t op n l next ht hc =>
    exact hs u op' (asleep_of_update hu ((complete_effect hc).1 op'))
  | sleep t op n ht hc =>
    by_cases hut : u = t
    · subst hut
      dsimp only at hu
      rw [Function.update_self] at hu
      cases hu
      rcases sleeping_predicate hc with ⟨rfl, -⟩ | ⟨v, rfl, -⟩ | ⟨rfl, -⟩ <;> rfl
    · dsimp only at hu
      rw [Function.update_of_ne hut] at hu
      exact hs u op' hu
  | spurious t op ht => exact hs u op' (asleep_of_update hu (by simp))
  | notifyOne t w ht hw =>
    exact hs u op' (asleep_of_update (asleep_of_update hu (by simp)) (by simp))
  | notifyNobody t ht hw => exact hs u op' (asleep_of_update hu (by simp))
  | notifyAllEmpty t ht =>
    have hu' := asleep_of_update (f := fun w => (s.threads w).wakeNotEmpty) hu (by simp)
    exact hs u op' (asleep_of_wakeNotEmpty hu')
  | notifyAllFull t ht =>
    have hu' := asleep_of_update (f := fun w => (s.threads w).wakeNotFull) hu (by simp)
    exact hs u op' (wakeNotFull_asleep hu').1

/-- What a run of the monitor keeps, as far as progress needs it. -/
structure Live (s : State ι α) : Prop where
  held : Held s
  sleepers : Sleepers s
  attended : Attended s

theorem live_step {s s' : State ι α} {e : Event ι α} (h : step s e = some s') (hs : Live s) :
    Live s' :=
  ⟨held_step (step_cases h) hs.held, sleepers_step (step_cases h) hs.sleepers,
    attended_step (step_cases h) hs.attended⟩

theorem live_of_reaches {capacity : ℕ} {policy : OverflowPolicy} {hcap : 0 < capacity}
    {s : State ι α} (h : Lts.Reaches step (start capacity policy hcap) s) : Live s := by
  refine ⟨?_, ?_, attended_of_reaches h⟩
  · refine h.invariant (fun _ _ _ hst => held_step (step_cases hst)) ?_
    intro u hu
    cases hu
  · refine h.invariant (fun _ _ _ hst => sleepers_step (step_cases hst)) ?_
    intro u op hu
    cases hu

/-- On a closed queue a thread has returned, waits for the buffer to be emptied, or somebody can
move. -/
theorem settled_or_canSettle {s : State ι α} (hs : Live s)
    (hclosed : s.books.queue.closed = true) (t : ι) :
    s.threads t = .idle ∨ (s.threads t = .asleep .waitUntilEmpty ∧ s.books.queue.queue ≠ []) ∨
      CanSettle s := by
  cases hpc : s.threads t with
  | idle => exact .inl rfl
  | locking op n => exact .inr (.inr (canSettle_locking hs.held hpc))
  | critical op n => exact .inr (.inr (canSettle_critical hpc))
  | notifyOne => exact .inr (.inr (canSettle_notifyOne hpc))
  | notifyAllEmpty => exact .inr (.inr (canSettle_notifyEmpty ⟨t, hpc⟩))
  | notifyAllFull => exact .inr (.inr (canSettle_notifyFull ⟨t, by rw [hpc]; rfl⟩))
  | asleep op =>
    have hwaits := hs.sleepers t op hpc
    -- a thread that sleeps on a closed queue has its wake-up still to come
    cases op with
    | waitAndPop =>
      obtain ⟨hopen, -⟩ | hpending := hs.attended.consumers t hpc
      · rw [hclosed] at hopen
        cases hopen
      · exact .inr (.inr (canSettle_notifyEmpty hpending))
    | push v =>
      obtain ⟨-, hopen⟩ | hpending := hs.attended.producers t v hpc
      · rw [hclosed] at hopen
        cases hopen
      · exact .inr (.inr (canSettle_notifyFull hpending))
    | waitUntilEmpty =>
      obtain hbuffer | hpending := hs.attended.emptiness t hpc
      · exact .inr (.inl ⟨rfl, hbuffer⟩)
      · exact .inr (.inr (canSettle_notifyFull hpending))
    | tryPush v => cases hwaits
    | tryPop => cases hwaits
    | close => cases hwaits

omit [Fintype ι] in
theorem closed_step {s s' : State ι α} (h : Step s s') (hc : s.books.queue.closed = true) :
    s'.books.queue.closed = true := by
  cases h with
  | complete t op n l next ht hcomplete => exact complete_closed hcomplete hc
  | _ => exact hc

/-- The monitor with the calls that are under way and no new ones, and without the spurious wake-ups
of those that wait for the buffer to be empty. -/
def settle (s : State ι α) (e : Event ι α) : Option (State ι α) :=
  if e.settles s then step s e else none

theorem settle_eq_some {s s' : State ι α} {e : Event ι α} (h : settle s e = some s') :
    e.settles s = true ∧ step s e = some s' := by
  unfold settle at h
  split at h
  · next hsettles => exact ⟨hsettles, h⟩
  · cases h

/-- Once the queue is closed, for any number of threads `n` in whatever calls: without new calls and
without spurious wake-ups of `waitUntilEmpty` calls (those of the others are allowed), the calls
under way take at most `n * (4 * n + 6)` more steps in any order, and as long as one has not
returned a thread can move of its own accord, except when all that are left are `waitUntilEmpty`
calls on a buffer that is not empty. -/
theorem close_releases_everyone {capacity : ℕ} {policy : OverflowPolicy} {hcap : 0 < capacity}
    {s : State ι α} (h : Lts.Reaches step (start capacity policy hcap) s)
    (hclosed : s.books.queue.closed = true) {as : List (Event ι α)} {s' : State ι α}
    (hrun : Lts.run settle s as = some s') :
    as.length ≤ Fintype.card ι * (4 * Fintype.card ι + 6) ∧
      ((∀ e : Event ι α, e.proper = true → step s' e = none) →
        ∀ t, s'.threads t = .idle ∨
          (s'.threads t = .asleep .waitUntilEmpty ∧ s'.books.queue.queue ≠ [])) := by
  have hkeeps : ∀ (u : State ι α) (e : Event ι α) (u' : State ι α), settle u e = some u' →
      Live u ∧ u.books.queue.closed = true → Live u' ∧ u'.books.queue.closed = true := by
    intro u e u' hstep hu
    obtain ⟨-, hstep⟩ := settle_eq_some hstep
    exact ⟨live_step hstep hu.1, closed_step (step_cases hstep) hu.2⟩
  have hstart : Live s ∧ s.books.queue.closed = true := ⟨live_of_reaches h, hclosed⟩
  have hlength := Lts.run_length_le (μ := State.toRelease) hkeeps
    (fun u e u' hstep hu =>
      toRelease_lt (settle_eq_some hstep).2 (settle_eq_some hstep).1 hu.2) hrun hstart
  have hbound := s.toRelease_le
  obtain ⟨hlive, hclosed'⟩ := Lts.run_invariant hkeeps hrun hstart
  refine ⟨by omega, ?_⟩
  intro hstuck t
  rcases settled_or_canSettle hlive hclosed' t with hidle | hwaiting | ⟨e, hproper, hsome⟩
  · exact .inl hidle
  · exact .inr hwaiting
  · rw [hstuck e hproper] at hsome
    cases hsome

/-- A consumer sleeps when the queue is closed, and is released. -/
theorem close_releases_everyone_consumer :
    ∃ s s' : State (Fin 2) ℕ, Lts.Reaches step (start 1 .block Nat.one_pos) s ∧
      (s.threads 0).onNotEmpty = true ∧ s.books.queue.closed = true ∧
      Lts.run settle s [.notifyAllEmpty 1, .notifyAllFull 1, .acquire 0, .body 0] = some s' ∧
      4 ≤ Fintype.card (Fin 2) * (4 * Fintype.card (Fin 2) + 6) ∧
      ((∀ e : Event (Fin 2) ℕ, e.proper = true → step s' e = none) →
        ∀ t, s'.threads t = .idle ∨
          (s'.threads t = .asleep .waitUntilEmpty ∧ s'.books.queue.queue ≠ [])) := by
  obtain ⟨s, hrun, hasleep, hclosed, hsome⟩ := Lts.exists_run step
    (start 1 .block Nat.one_pos : State (Fin 2) ℕ)
    [.call 0 .waitAndPop, .acquire 0, .body 0, .call 1 .close, .acquire 1, .body 1]
    (fun s => (s.threads 0).onNotEmpty = true ∧ s.books.queue.closed = true ∧
      (Lts.run settle s [.notifyAllEmpty 1, .notifyAllFull 1, .acquire 0, .body 0]).isSome = true)
    (by decide)
  obtain ⟨s', hrun'⟩ := Option.isSome_iff_exists.mp hsome
  exact ⟨s, s', ⟨_, hrun⟩, hasleep, hclosed, hrun', close_releases_everyone ⟨_, hrun⟩ hclosed hrun'⟩

end run

end RadarRT.Monitor
