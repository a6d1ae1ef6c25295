import Mathlib.Data.Fintype.Basic
import Mathlib.Logic.Function.Basic
import RadarRT.Queue.Accounting

/-!
# The queue as a monitor

`ThreadSafeQueue` with its mutex and its two condition variables, shared by any number of
threads. A condition variable is a wait set: the threads asleep on it. Waiting releases the
mutex and enters the wait set in one step; a woken thread must take the mutex again and
evaluates its predicate again. Notifications come after the unlock, so they are steps of their
own, and other threads may run between the two.

* `waitAndPop` sleeps on `not_empty_`; a `Block` push and `waitUntilEmpty` on `not_full_`.
* `enqueueLocked` ends with `not_empty_.notify_one()`, `popLockedAndNotify` with
  `not_full_.notify_all()`, `close` with `notify_all` on both, `not_empty_` first.

No allocation fails here. The books kept with the queue show that the critical sections of a
run, in the order in which they were completed, are a history of the queue
(`monitor_refines_ledger`).
-/

namespace RadarRT.Monitor

/-- The calls a thread makes. -/
inductive Op (α : Type*) where
  | push (value : α)
  | tryPush (value : α)
  | waitAndPop
  | tryPop
  | close
  | waitUntilEmpty

/-- Where a thread is. -/
inductive Pc (α : Type*) where
  | idle
  /-- Waits for the mutex, at the start of the call or after it was woken; `notified` says
  that a notification woke it. -/
  | locking (op : Op α) (notified : Bool)
  /-- Holds the mutex and has not evaluated its predicate yet. -/
  | critical (op : Op α) (notified : Bool)
  /-- In the wait set of the condition variable of `op`. -/
  | asleep (op : Op α)
  /-- About to call `not_empty_.notify_one()`. -/
  | notifyOne
  /-- In `close`, about to call `not_empty_.notify_all()`. -/
  | notifyAllEmpty
  /-- About to call `not_full_.notify_all()`. -/
  | notifyAllFull

structure State (ι α : Type*) where
  books : Ledger α
  mutex : Option ι
  threads : ι → Pc α

/-- A step, with the thread that takes it. -/
inductive Event (ι α : Type*) where
  | call (t : ι) (op : Op α)
  | acquire (t : ι)
  | body (t : ι)
  | spurious (t : ι)
  | notifyOne (t : ι) (target : Option ι)
  | notifyAllEmpty (t : ι)
  | notifyAllFull (t : ι)

/-- Asleep in the wait set of `not_empty_`. -/
def Pc.onNotEmpty {α : Type*} : Pc α → Bool
  | .asleep .waitAndPop => true
  | _ => false

/-- What `not_empty_.notify_all()` does to a thread. -/
def Pc.wakeNotEmpty {α : Type*} : Pc α → Pc α
  | .asleep .waitAndPop => .locking .waitAndPop true
  | pc => pc

/-- What `not_full_.notify_all()` does to a thread. -/
def Pc.wakeNotFull {α : Type*} : Pc α → Pc α
  | .asleep (.push v) => .locking (.push v) true
  | .asleep .waitUntilEmpty => .locking .waitUntilEmpty true
  | pc => pc

variable {ι α : Type*}

/-- Where `enqueueLocked` leaves its thread: a store is followed by `notify_one`. -/
def afterEnqueue (r : Except QueueError Bool × Ledger α) : Ledger α × Pc α :=
  (r.2, if Except.returnedTrue r.1 then .notifyOne else .idle)

/-- Where a pop leaves its thread: an item taken is followed by `notify_all`. -/
def afterPop (r : Option α × Ledger α) : Ledger α × Pc α :=
  (r.2, if r.1.isSome then .notifyAllFull else .idle)

/-- The critical section of a call, `none` when its predicate is false and it must wait. -/
def complete (l : Ledger α) : Op α → Option (Ledger α × Pc α)
  | .push v => (l.push v false).map afterEnqueue
  | .tryPush v => some (afterEnqueue (l.tryPush v false))
  | .waitAndPop => l.waitAndPop.map afterPop
  | .tryPop => some (afterPop l.tryPop)
  | .close => some (l.close, .notifyAllEmpty)
  | .waitUntilEmpty => if l.queue.queue.isEmpty then some (l, .idle) else none

/-- Every thread idle, nobody in the monitor. -/
def start (capacity : ℕ) (policy : OverflowPolicy) (h : 0 < capacity) : State ι α where
  books := .opened capacity policy h
  mutex := none
  threads := fun _ => .idle

section step

variable [DecidableEq ι] [Fintype ι]

def step (s : State ι α) : Event ι α → Option (State ι α)
  | .call t op =>
    match s.threads t with
    | .idle => some { s with threads := Function.update s.threads t (.locking op false) }
    | _ => none
  | .acquire t =>
    match s.threads t, s.mutex with
    | .locking op n, none => some { s with
        mutex := some t
        threads := Function.update s.threads t (.critical op n) }
    | _, _ => none
  | .body t =>
    match s.threads t with
    | .critical op _ =>
      match complete s.books op with
      | some (l, next) => some
          { books := l, mutex := none, threads := Function.update s.threads t next }
      | none => some { s with
          mutex := none
          threads := Function.update s.threads t (.asleep op) }
    | _ => none
  | .spurious t =>
    match s.threads t with
    | .asleep op => some { s with threads := Function.update s.threads t (.locking op false) }
    | _ => none
  | .notifyOne t target =>
    match s.threads t, target with
    | .notifyOne, some w =>
      if (s.threads w).onNotEmpty then some { s with
        threads := Function.update (Function.update s.threads t .idle) w
          (.locking .waitAndPop true) }
      else none
    | .notifyOne, none =>
      if ∀ w, (s.threads w).onNotEmpty = false then
        some { s with threads := Function.update s.threads t .idle }
      else none
    | _, _ => none
  | .notifyAllEmpty t =>
    match s.threads t with
    | .notifyAllEmpty => some { s with
        threads := Function.update (fun w => (s.threads w).wakeNotEmpty) t .notifyAllFull }
    | _ => none
  | .notifyAllFull t =>
    match s.threads t with
    | .notifyAllFull => some { s with
        threads := Function.update (fun w => (s.threads w).wakeNotFull) t .idle }
    | _ => none

/-! ## What a step can do -/

/-- The steps of the monitor, one constructor per kind. -/
inductive Step (s : State ι α) : State ι α → Prop where
  | call (t : ι) (op : Op α) (ht : s.threads t = .idle) :
      Step s { s with threads := Function.update s.threads t (.locking op false) }
  | acquire (t : ι) (op : Op α) (n : Bool) (ht : s.threads t = .locking op n)
      (hm : s.mutex = none) :
      Step s { s with mutex := some t, threads := Function.update s.threads t (.critical op n) }
  | complete (t : ι) (op : Op α) (n : Bool) (l : Ledger α) (next : Pc α)
      (ht : s.threads t = .critical op n) (hc : complete s.books op = some (l, next)) :
      Step s { books := l, mutex := none, threads := Function.update s.threads t next }
  | sleep (t : ι) (op : Op α) (n : Bool) (ht : s.threads t = .critical op n)
      (hc : Monitor.complete s.books op = none) :
      Step s { s with mutex := none, threads := Function.update s.threads t (.asleep op) }
  | spurious (t : ι) (op : Op α) (ht : s.threads t = .asleep op) :
      Step s { s with threads := Function.update s.threads t (.locking op false) }
  | notifyOne (t w : ι) (ht : s.threads t = .notifyOne)
      (hw : s.threads w = .asleep .waitAndPop) :
      Step s { s with
        threads := Function.update (Function.update s.threads t .idle) w
          (.locking .waitAndPop true) }
  | notifyNobody (t : ι) (ht : s.threads t = .notifyOne)
      (hw : ∀ w, s.threads w ≠ .asleep .waitAndPop) :
      Step s { s with threads := Function.update s.threads t .idle }
  | notifyAllEmpty (t : ι) (ht : s.threads t = .notifyAllEmpty) :
      Step s { s with
        threads := Function.update (fun w => (s.threads w).wakeNotEmpty) t .notifyAllFull }
  | notifyAllFull (t : ι) (ht : s.threads t = .notifyAllFull) :
      Step s { s with
        threads := Function.update (fun w => (s.threads w).wakeNotFull) t .idle }

omit [DecidableEq ι] [Fintype ι] in
theorem onNotEmpty_iff {pc : Pc α} : pc.onNotEmpty = true ↔ pc = .asleep .waitAndPop := by
  cases pc with
  | asleep op => cases op <;> simp [Pc.onNotEmpty]
  | _ => simp [Pc.onNotEmpty]

theorem step_cases {s s' : State ι α} {e : Event ι α} (h : step s e = some s') : Step s s' := by
  cases e with
  | call t op =>
    simp only [step] at h
    split at h
    · next ht => cases h; exact .call t op ht
    · cases h
  | acquire t =>
    simp only [step] at h
    split at h
    · next op n ht hm => cases h; exact .acquire t op n ht hm
    · cases h
  | body t =>
    simp only [step] at h
    split at h
    · next op n ht =>
      split at h
      · next l next hc => cases h; exact .complete t op n l next ht hc
      · next hc => cases h; exact .sleep t op n ht hc
    · cases h
  | spurious t =>
    simp only [step] at h
    split at h
    · next op ht => cases h; exact .spurious t op ht
    · cases h
  | notifyOne t target =>
    simp only [step] at h
    split at h
    · next w ht =>
      split at h
      · next hw => cases h; exact .notifyOne t w ht (onNotEmpty_iff.mp hw)
      · cases h
    · next ht =>
      split at h
      · next hw =>
        cases h
        refine .notifyNobody t ht ?_
        intro w hasleep
        have := hw w
        rw [onNotEmpty_iff.mpr hasleep] at this
        cases this
      · cases h
    · cases h
  | notifyAllEmpty t =>
    simp only [step] at h
    split at h
    · next ht => cases h; exact .notifyAllEmpty t ht
    · cases h
  | notifyAllFull t =>
    simp only [step] at h
    split at h
    · next ht => cases h; exact .notifyAllFull t ht
    · cases h

/-! ## Mutual exclusion -/

/-- The threads inside a critical section hold the mutex. -/
def Exclusive (s : State ι α) : Prop := ∀ t op n, s.threads t = .critical op n → s.mutex = some t

omit [DecidableEq ι] [Fintype ι] in
theorem wakeNotEmpty_critical {pc : Pc α} {op : Op α} {n : Bool}
    (h : pc.wakeNotEmpty = .critical op n) : pc = .critical op n := by
  cases pc with
  | asleep op' => cases op' <;> cases h
  | _ => exact h

omit [DecidableEq ι] [Fintype ι] in
theorem wakeNotFull_critical {pc : Pc α} {op : Op α} {n : Bool}
    (h : pc.wakeNotFull = .critical op n) : pc = .critical op n := by
  cases pc with
  | asleep op' => cases op' <;> cases h
  | _ => exact h

omit [DecidableEq ι] [Fintype ι] in
theorem complete_not_critical {l l' : Ledger α} {op op' : Op α} {n : Bool} {next : Pc α}
    (h : complete l op = some (l', next)) : next ≠ .critical op' n := by
  rintro rfl
  cases op with
  | push v =>
    obtain ⟨r, -, hr⟩ := Option.map_eq_some_iff.mp h
    unfold afterEnqueue at hr
    split at hr <;> cases hr
  | tryPush v =>
    simp only [complete, afterEnqueue, Option.some.injEq, Prod.mk.injEq] at h
    split at h <;> cases h.2
  | waitAndPop =>
    obtain ⟨r, -, hr⟩ := Option.map_eq_some_iff.mp h
    unfold afterPop at hr
    split at hr <;> cases hr
  | tryPop =>
    simp only [complete, afterPop, Option.some.injEq, Prod.mk.injEq] at h
    split at h <;> cases h.2
  | close => cases h
  | waitUntilEmpty =>
    simp only [complete] at h
    split at h <;> cases h

omit [Fintype ι] in
/-- A thread that steps to a program point outside the critical sections leaves the other
threads' hold on the mutex as it was. -/
theorem critical_of_update {f : ι → Pc α} {t u : ι} {pc : Pc α} {op : Op α} {n : Bool}
    (h : Function.update f t pc u = .critical op n) (hpc : ∀ op n, pc ≠ .critical op n) :
    u ≠ t ∧ f u = .critical op n := by
  by_cases hu : u = t
  · subst hu
    rw [Function.update_self] at h
    exact absurd h (hpc op n)
  · rw [Function.update_of_ne hu] at h
    exact ⟨hu, h⟩

omit [Fintype ι] in
theorem exclusive_step {s s' : State ι α} (h : Step s s') (hs : Exclusive s) :
    Exclusive s' := by
  intro u op' n' hu
  -- leaving a critical section frees the mutex only when nobody else is inside one
  have hleave : ∀ t op n, s.threads t = .critical op n → u ≠ t →
      s.threads u = .critical op' n' → False := by
    intro t op n ht hne hu'
    have := (hs t op n ht).symm.trans (hs u op' n' hu')
    exact hne (Option.some.inj this).symm
  cases h with
  | call t op ht =>
    obtain ⟨-, hu'⟩ := critical_of_update hu (by simp)
    exact hs u op' n' hu'
  | acquire t op n ht hm =>
    -- the mutex was free, so nobody else is inside
    by_cases hut : u = t
    · exact congrArg some hut.symm
    · dsimp only at hu
      rw [Function.update_of_ne hut] at hu
      have := hs u op' n' hu
      rw [hm] at this
      cases this
  | complete t op n l next ht hc =>
    obtain ⟨hne, hu'⟩ := critical_of_update hu (fun _ _ => complete_not_critical hc)
    exact (hleave t op n ht hne hu').elim
  | sleep t op n ht hc =>
    obtain ⟨hne, hu'⟩ := critical_of_update hu (by simp)
    exact (hleave t op n ht hne hu').elim
  | spurious t op ht =>
    obtain ⟨-, hu'⟩ := critical_of_update hu (by simp)
    exact hs u op' n' hu'
  | notifyOne t w ht hw =>
    obtain ⟨-, hu'⟩ := critical_of_update hu (by simp)
    obtain ⟨-, hu''⟩ := critical_of_update hu' (by simp)
    exact hs u op' n' hu''
  | notifyNobody t ht hw =>
    obtain ⟨-, hu'⟩ := critical_of_update hu (by simp)
    exact hs u op' n' hu'
  | notifyAllEmpty t ht =>
    obtain ⟨-, hu'⟩ := critical_of_update (f := fun w => (s.threads w).wakeNotEmpty) hu (by simp)
    exact hs u op' n' (wakeNotEmpty_critical hu')
  | notifyAllFull t ht =>
    obtain ⟨-, hu'⟩ := critical_of_update (f := fun w => (s.threads w).wakeNotFull) hu (by simp)
    exact hs u op' n' (wakeNotFull_critical hu')

/-- At most one thread is inside a critical section. -/
theorem mutual_exclusion {capacity : ℕ} {policy : OverflowPolicy} {hcap : 0 < capacity}
    {s : State ι α} (h : Lts.Reaches step (start capacity policy hcap) s) {t u : ι}
    {op op' : Op α} {n n' : Bool} (ht : s.threads t = .critical op n)
    (hu : s.threads u = .critical op' n') : t = u := by
  have hex : Exclusive s :=
    h.invariant (fun _ _ _ hst => exclusive_step (step_cases hst)) (by simp [Exclusive, start])
  exact Option.some.inj ((hex t op n ht).symm.trans (hex u op' n' hu))

/-! ## The monitor refines the sequential queue -/

omit [DecidableEq ι] [Fintype ι] in
/-- A completed critical section is a call of the queue, or leaves it alone. -/
theorem complete_perform {l l' : Ledger α} {op : Op α} {next : Pc α}
    (h : complete l op = some (l', next)) : (∃ c, l.perform c = some l') ∨ l' = l := by
  cases op with
  | push v =>
    obtain ⟨r, hr, hr'⟩ := Option.map_eq_some_iff.mp h
    cases hr'
    exact .inl ⟨.push v false, by simp [Ledger.perform, hr]⟩
  | tryPush v =>
    cases h
    exact .inl ⟨.tryPush v false, rfl⟩
  | waitAndPop =>
    obtain ⟨r, hr, hr'⟩ := Option.map_eq_some_iff.mp h
    cases hr'
    exact .inl ⟨.waitAndPop, by simp [Ledger.perform, hr]⟩
  | tryPop =>
    cases h
    exact .inl ⟨.tryPop, rfl⟩
  | close =>
    cases h
    exact .inl ⟨.close, rfl⟩
  | waitUntilEmpty =>
    simp only [complete] at h
    split at h
    · cases h; exact .inr rfl
    · cases h

/-- The critical sections of every run of the monitor are a history of the queue, so what is
proved about histories holds under any interleaving of the threads. -/
theorem monitor_refines_ledger {s s' : State ι α} (h : Lts.Reaches step s s') :
    Lts.Reaches (Ledger.step (ι := ι)) s.books s'.books := by
  refine Lts.run_simulated (π := State.books) (I := fun _ => True) (fun _ _ _ _ _ => trivial)
    ?_ h trivial
  intro s e s' hst _
  cases step_cases hst with
  | complete t op n l next ht hc =>
    rcases complete_perform hc with ⟨c, hcall⟩ | rfl
    · exact .single (a := (t, c)) hcall
    · exact .refl _
  | _ => exact .refl _

end step

end RadarRT.Monitor
