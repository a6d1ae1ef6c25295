import Mathlib.Logic.Equiv.Basic
import Mathlib.Logic.ExistsUnique
import Mathlib.Logic.Function.Basic
import RadarRT.Lib.Lts

/-!
# `ManagedThread`: who owns which thread

Any number of `ManagedThread` handles, named by `η`, and the operations of `managed_thread.hpp` on
them, in any order. The underlying `std::thread` follows the standard: a move leaves its source
without a thread, and assigning over or destroying a joinable `std::thread` calls
`std::terminate`, which `fault` records; so does joining one that is not joinable, which throws.

A join is one step, the one at which it returns. The thread that performs the operations is not
one of the threads that the handles own.
-/

namespace RadarRT.ManagedThread

variable {η : Type}

/-! ## Handles and threads -/

/-- How `std::thread` can end the program or throw. -/
inductive Fault where
  /-- `std::terminate`. -/
  | terminate
  /-- `std::system_error`, from `join` without a thread. -/
  | systemError
deriving DecidableEq, Repr

/-- The handles and the threads started so far, numbered in the order they were started. -/
structure World (η : Type) where
  /-- `none` for a handle that is not alive, else its `thread_`: a thread, or none. -/
  handles : η → Option (Option ℕ)
  started : ℕ
  /-- How often each thread has been joined. -/
  joins : ℕ → ℕ
  fault : Option Fault

namespace World

/-- No handle is alive and nothing has been started. -/
def initial : World η where
  handles := fun _ => none
  started := 0
  joins := fun _ => 0
  fault := none

/-- The thread a handle owns. -/
def thread (w : World η) (h : η) : Option ℕ := (w.handles h).getD none

def joinable (w : World η) (h : η) : Bool := (w.thread h).isSome

section
variable [DecidableEq η]

/-- `thread_` of the handle `h` becomes `t`. -/
def setThread (w : World η) (h : η) (t : Option ℕ) : World η :=
  { w with handles := Function.update w.handles h (some t) }

/-! ## `std::thread` -/

def stdJoin (w : World η) (h : η) : World η :=
  match w.thread h with
  | some t => { w.setThread h none with joins := Function.update w.joins t (w.joins t + 1) }
  | none => { w with fault := some .systemError }

/-- `std::thread(std::thread&&)`. -/
def stdMoveConstruct (w : World η) (h source : η) : World η :=
  (w.setThread h (w.thread source)).setThread source none

/-- `std::thread::operator=(std::thread&&)`. -/
def stdMoveAssign (w : World η) (h source : η) : World η :=
  if w.joinable h then { w with fault := some .terminate } else w.stdMoveConstruct h source

/-- `~thread`. -/
def stdDestroy (w : World η) (h : η) : World η :=
  if w.joinable h then { w with fault := some .terminate }
  else { w with handles := Function.update w.handles h none }

/-! ## `ManagedThread` -/

/-- The constructor that starts a thread. -/
def start (w : World η) (h : η) : World η :=
  { w.setThread h (some w.started) with started := w.started + 1 }

/-- `ManagedThread::join`. -/
def join (w : World η) (h : η) : World η := if w.joinable h then w.stdJoin h else w

/-- `ManagedThread::operator=(ManagedThread&&)`. -/
def moveAssign (w : World η) (h other : η) : World η :=
  if h ≠ other then (w.join h).stdMoveAssign h other else w

/-- `~ManagedThread`, and then the destructor of its member. -/
def destroy (w : World η) (h : η) : World η := (w.join h).stdDestroy h

end

end World

/-- The operations. A handle is constructed by one of the first three. -/
inductive Op (η : Type) where
  | construct (h : η)
  /-- `fails` when the thread cannot be created: the constructor throws. -/
  | start (h : η) (fails : Bool)
  | moveConstruct (h other : η)
  | moveAssign (h other : η)
  | join (h : η)
  | destroy (h : η)

/-- An operation needs the handles it constructs not to be alive and the others to be alive; and
nothing happens after `std::terminate`. -/
def step [DecidableEq η] (w : World η) (op : Op η) : Option (World η) :=
  if w.fault.isSome then none else match op with
    | .construct h => if (w.handles h).isNone then some (w.setThread h none) else none
    | .start h fails =>
      if (w.handles h).isNone then some (if fails then w else w.start h) else none
    | .moveConstruct h other =>
      if (w.handles h).isNone && (w.handles other).isSome then some (w.stdMoveConstruct h other)
      else none
    | .moveAssign h other =>
      if (w.handles h).isSome && (w.handles other).isSome then some (w.moveAssign h other)
      else none
    | .join h => if (w.handles h).isSome then some (w.join h) else none
    | .destroy h => if (w.handles h).isSome then some (w.destroy h) else none

/-! ## The invariant -/

/-- A partial bijection between the handles and the threads that have not been joined. -/
structure Linear (w : World η) : Prop where
  fault : w.fault = none
  /-- What a handle owns was started and has not been joined. -/
  owned : ∀ h t, w.thread h = some t → t < w.started ∧ w.joins t = 0
  unique : ∀ h h' t, w.thread h = some t → w.thread h' = some t → h = h'
  /-- What has not been joined is owned. -/
  kept : ∀ t, t < w.started → w.joins t = 0 → ∃ h, w.thread h = some t
  once : ∀ t, w.joins t ≤ 1
  /-- What has not been started has not been joined. -/
  fresh : ∀ t, w.started ≤ t → w.joins t = 0

theorem linear_initial : Linear (World.initial : World η) where
  fault := rfl
  owned := by
    intro h t ht
    cases ht
  unique := by
    intro h h' t ht
    cases ht
  kept := by
    intro t ht
    exact absurd ht (Nat.not_lt_zero t)
  once := fun _ => Nat.zero_le 1
  fresh := fun _ _ => rfl

theorem World.thread_of_isNone {w : World η} {h : η} (hdead : (w.handles h).isNone = true) :
    w.thread h = none := by
  rw [thread, Option.isNone_iff_eq_none.mp hdead]
  rfl

theorem World.thread_of_not_joinable {w : World η} {h : η} (hj : ¬ w.joinable h = true) :
    w.thread h = none := by
  rw [joinable, Option.not_isSome_iff_eq_none] at hj
  exact hj

theorem World.not_joinable {w : World η} {h : η} (hempty : w.thread h = none) :
    ¬ w.joinable h = true := by
  rw [joinable, hempty]
  exact Bool.false_ne_true

/-- Worlds in which the handles own the same threads. -/
theorem Linear.congr {w w' : World η} (hw : Linear w) (hthread : ∀ h, w'.thread h = w.thread h)
    (hstarted : w'.started = w.started) (hjoins : w'.joins = w.joins)
    (hfault : w'.fault = w.fault) : Linear w' := by
  refine ⟨hfault.trans hw.fault, ?_, ?_, ?_, ?_, ?_⟩
  · simp only [hthread, hstarted, hjoins]
    exact hw.owned
  · simp only [hthread]
    exact hw.unique
  · simp only [hthread, hstarted, hjoins]
    exact hw.kept
  · rw [hjoins]
    exact hw.once
  · rw [hstarted, hjoins]
    exact hw.fresh

/-! ## What each operation does to it -/

variable [DecidableEq η]

theorem World.thread_update (w : World η) (h h' : η) (x : Option (Option ℕ)) :
    ({ w with handles := Function.update w.handles h x } : World η).thread h' =
      if h' = h then x.getD none else w.thread h' := by
  by_cases hh : h' = h
  · subst hh
    simp [thread]
  · simp [thread, hh]

theorem World.thread_setThread (w : World η) (h h' : η) (t : Option ℕ) :
    (w.setThread h t).thread h' = if h' = h then t else w.thread h' :=
  w.thread_update h h' (some t)

/-- A handle without a thread may be set up or taken down. -/
theorem Linear.update {w : World η} (hw : Linear w) {h : η} (hempty : w.thread h = none)
    {x : Option (Option ℕ)} (hx : x.getD none = none) :
    Linear { w with handles := Function.update w.handles h x } := by
  refine hw.congr ?_ rfl rfl rfl
  intro h'
  rw [World.thread_update, hx]
  by_cases hh : h' = h
  · rw [if_pos hh, hh, hempty]
  · rw [if_neg hh]

/-- A new thread belongs to the handle it was started with. -/
theorem Linear.start {w : World η} (hw : Linear w) {h : η} (hempty : w.thread h = none) :
    Linear (w.start h) := by
  have hthread : ∀ h', (w.start h).thread h' = if h' = h then some w.started else w.thread h' :=
    fun h' => w.thread_setThread h h' (some w.started)
  refine ⟨hw.fault, ?_, ?_, ?_, hw.once, ?_⟩
  · intro h' t ht
    rw [hthread] at ht
    split at ht
    · cases ht
      exact ⟨Nat.lt_succ_self _, hw.fresh _ (Nat.le_refl _)⟩
    · have := hw.owned h' t ht
      exact ⟨Nat.lt_succ_of_lt this.1, this.2⟩
  · -- the new thread is not one of those that were owned before
    intro h₁ h₂ t h₁t h₂t
    rw [hthread] at h₁t h₂t
    split at h₁t
    · next heq₁ =>
      split at h₂t
      · next heq₂ => rw [heq₁, heq₂]
      · cases h₁t
        exact absurd (hw.owned h₂ _ h₂t).1 (Nat.lt_irrefl _)
    · split at h₂t
      · cases h₂t
        exact absurd (hw.owned h₁ _ h₁t).1 (Nat.lt_irrefl _)
      · exact hw.unique h₁ h₂ t h₁t h₂t
  · intro t ht hj
    rcases Nat.lt_succ_iff_lt_or_eq.mp ht with hlt | rfl
    · obtain ⟨h', hh'⟩ := hw.kept t hlt hj
      refine ⟨h', ?_⟩
      have hne : h' ≠ h := by
        rintro rfl
        rw [hempty] at hh'
        cases hh'
      rw [hthread, if_neg hne, hh']
    · exact ⟨h, by rw [hthread, if_pos rfl]⟩
  · intro t ht
    exact hw.fresh t (Nat.le_of_succ_le ht)

/-- A move hands the thread of one handle to an empty one. -/
theorem Linear.stdMoveConstruct {w : World η} (hw : Linear w) {h other : η}
    (hempty : w.thread h = none) : Linear (w.stdMoveConstruct h other) := by
  -- ownership is carried along the exchange of the two handles
  have hthread : ∀ h', (w.stdMoveConstruct h other).thread h' =
      w.thread (Equiv.swap h other h') := by
    intro h'
    rw [World.stdMoveConstruct, World.thread_setThread, World.thread_setThread]
    by_cases hother : h' = other
    · rw [if_pos hother, hother, Equiv.swap_apply_right, hempty]
    · rw [if_neg hother]
      by_cases hh : h' = h
      · rw [if_pos hh, hh, Equiv.swap_apply_left]
      · rw [if_neg hh, Equiv.swap_apply_of_ne_of_ne hh hother]
  refine ⟨hw.fault, ?_, ?_, ?_, hw.once, hw.fresh⟩
  · intro h' t ht
    rw [hthread] at ht
    exact hw.owned _ t ht
  · intro h₁ h₂ t h₁t h₂t
    rw [hthread] at h₁t h₂t
    exact (Equiv.swap h other).injective (hw.unique _ _ t h₁t h₂t)
  · intro t ht hj
    obtain ⟨h', hh'⟩ := hw.kept t ht hj
    exact ⟨Equiv.swap h other h', by rw [hthread, Equiv.swap_apply_self, hh']⟩

theorem World.stdJoin_eq {w : World η} {h : η} {t : ℕ} (ht : w.thread h = some t) :
    w.stdJoin h =
      { w.setThread h none with joins := Function.update w.joins t (w.joins t + 1) } := by
  rw [World.stdJoin, ht]

theorem World.stdJoin_thread {w : World η} {h : η} {t : ℕ} (ht : w.thread h = some t) (h' : η) :
    (w.stdJoin h).thread h' = if h' = h then none else w.thread h' := by
  rw [stdJoin_eq ht]
  exact w.thread_setThread h h' none

theorem World.stdJoin_joins {w : World η} {h : η} {t : ℕ} (ht : w.thread h = some t) (u : ℕ) :
    (w.stdJoin h).joins u = if u = t then w.joins t + 1 else w.joins u := by
  rw [stdJoin_eq ht]
  exact Function.update_apply w.joins t (w.joins t + 1) u

/-- Joining takes the thread away from its handle, and counts. -/
theorem Linear.stdJoin {w : World η} (hw : Linear w) {h : η} {t : ℕ} (ht : w.thread h = some t) :
    Linear (w.stdJoin h) ∧ (w.stdJoin h).thread h = none := by
  have hthread := World.stdJoin_thread ht
  have hjoins := World.stdJoin_joins ht
  have hstarted : (w.stdJoin h).started = w.started := by rw [World.stdJoin_eq ht]; rfl
  refine ⟨⟨?_, ?_, ?_, ?_, ?_, ?_⟩, by rw [hthread, if_pos rfl]⟩
  · rw [World.stdJoin_eq ht]
    exact hw.fault
  · intro h' u hu
    rw [hthread] at hu
    split at hu
    · cases hu
    · next hne =>
      -- the other handles own other threads
      have hut : u ≠ t := by
        rintro rfl
        exact hne (hw.unique h' h u hu ht)
      rw [hjoins, if_neg hut, hstarted]
      exact hw.owned h' u hu
  · intro h₁ h₂ u h₁u h₂u
    rw [hthread] at h₁u h₂u
    split at h₁u
    · cases h₁u
    · split at h₂u
      · cases h₂u
      · exact hw.unique h₁ h₂ u h₁u h₂u
  · intro u hu hj
    rw [hstarted] at hu
    rw [hjoins] at hj
    split at hj
    · cases hj
    · next hut =>
      obtain ⟨h', hh'⟩ := hw.kept u hu hj
      have hne : h' ≠ h := by
        rintro rfl
        rw [ht] at hh'
        exact hut (Option.some.inj hh').symm
      exact ⟨h', by rw [hthread, if_neg hne, hh']⟩
  · intro u
    rw [hjoins]
    split
    · have hzero := (hw.owned h t ht).2
      omega
    · exact hw.once u
  · intro u hu
    rw [hstarted] at hu
    have hut : u ≠ t := by
      rintro rfl
      exact absurd (hw.owned h u ht).1 (Nat.not_lt.mpr hu)
    rw [hjoins, if_neg hut]
    exact hw.fresh u hu

/-- After `join`, joinable or not before, the handle has no thread. -/
theorem Linear.join {w : World η} (hw : Linear w) (h : η) :
    Linear (w.join h) ∧ (w.join h).thread h = none := by
  unfold World.join
  split
  · next hj =>
    obtain ⟨t, ht⟩ := Option.isSome_iff_exists.mp hj
    exact hw.stdJoin ht
  · next hj => exact ⟨hw, World.thread_of_not_joinable hj⟩

theorem Linear.moveAssign {w : World η} (hw : Linear w) (h other : η) :
    Linear (w.moveAssign h other) := by
  unfold World.moveAssign
  split
  · -- joined first, so the assignment finds nothing to lose
    obtain ⟨hjoined, hempty⟩ := hw.join h
    rw [World.stdMoveAssign, if_neg (World.not_joinable hempty)]
    exact hjoined.stdMoveConstruct hempty
  · exact hw

theorem Linear.destroy {w : World η} (hw : Linear w) (h : η) : Linear (w.destroy h) := by
  obtain ⟨hjoined, hempty⟩ := hw.join h
  rw [World.destroy, World.stdDestroy, if_neg (World.not_joinable hempty)]
  exact hjoined.update hempty rfl

theorem linear_step {w w' : World η} {op : Op η} (h : step w op = some w') (hw : Linear w) :
    Linear w' := by
  have halive : ¬ w.fault.isSome = true := by
    rw [hw.fault]
    exact Bool.false_ne_true
  unfold step at h
  rw [if_neg halive] at h
  cases op with
  | construct a =>
    obtain ⟨hdead, ⟨⟩⟩ := Option.ite_none_right_eq_some.mp h
    exact hw.update (World.thread_of_isNone hdead) rfl
  | start a fails =>
    obtain ⟨hdead, hw'⟩ := Option.ite_none_right_eq_some.mp h
    cases fails with
    | true =>
      cases hw'
      exact hw
    | false =>
      cases hw'
      exact hw.start (World.thread_of_isNone hdead)
  | moveConstruct a other =>
    obtain ⟨hguard, ⟨⟩⟩ := Option.ite_none_right_eq_some.mp h
    have hdead := (Bool.and_eq_true_iff.mp hguard).1
    exact hw.stdMoveConstruct (World.thread_of_isNone hdead)
  | moveAssign a other =>
    obtain ⟨-, ⟨⟩⟩ := Option.ite_none_right_eq_some.mp h
    exact hw.moveAssign a other
  | join a =>
    obtain ⟨-, ⟨⟩⟩ := Option.ite_none_right_eq_some.mp h
    exact (hw.join a).1
  | destroy a =>
    obtain ⟨-, ⟨⟩⟩ := Option.ite_none_right_eq_some.mp h
    exact hw.destroy a

/-! ## Linear ownership -/

/-- For any handles and every sequence of operations on them, at every point: no `std::thread`
was assigned over or destroyed while joinable; no thread has two owners; and each started thread
is owned by exactly one handle, which is alive, and has not been joined, or is owned by none and
has been joined exactly once. -/
theorem thread_ownership_linear {w : World η}
    (h : Lts.Reaches step (World.initial : World η) w) :
    w.fault = none ∧
    (∀ a b t, w.handles a = some (some t) → w.handles b = some (some t) → a = b) ∧
    ∀ t, t < w.started →
      ((∃! a, w.handles a = some (some t)) ∧ w.joins t = 0) ∨
      ((∀ a, w.handles a ≠ some (some t)) ∧ w.joins t = 1) := by
  have hw : Linear w := h.invariant (fun _ _ _ => linear_step) linear_initial
  have howns : ∀ a t, w.handles a = some (some t) ↔ w.thread a = some t := by
    intro a t
    unfold World.thread
    cases w.handles a <;> simp
  refine ⟨hw.fault, ?_, ?_⟩
  · intro a b t ha hb
    exact hw.unique a b t ((howns a t).mp ha) ((howns b t).mp hb)
  · intro t ht
    simp only [howns, ne_eq]
    rcases Nat.eq_zero_or_pos (w.joins t) with hzero | hpos
    · obtain ⟨a, ha⟩ := hw.kept t ht hzero
      exact .inl ⟨⟨a, ha, fun b hb => hw.unique b a t hb ha⟩, hzero⟩
    · refine .inr ⟨?_, ?_⟩
      · intro a ha
        have := (hw.owned a t ha).2
        omega
      · have := hw.once t
        omega

/-- Three handles: two threads are started, the first handle is assigned to itself, the second
thread is moved over the first, the third handle takes it and is destroyed. -/
theorem thread_ownership_linear_three_handles :
    ∃ w : World (Fin 3), Lts.Reaches step World.initial w ∧ w.started = 2 ∧
      w.joins 0 = 1 ∧ w.joins 1 = 1 ∧ w.fault = none := by
  obtain ⟨w, hrun, hstarted, h0, h1⟩ := Lts.exists_run step (World.initial : World (Fin 3))
    [.start 0 false, .start 1 false, .moveAssign 0 0, .moveAssign 0 1, .join 1,
      .moveConstruct 2 0, .destroy 2, .join 0]
    (fun w => w.started = 2 ∧ w.joins 0 = 1 ∧ w.joins 1 = 1) (by decide)
  exact ⟨w, ⟨_, hrun⟩, hstarted, h0, h1, (thread_ownership_linear ⟨_, hrun⟩).1⟩

end RadarRT.ManagedThread
