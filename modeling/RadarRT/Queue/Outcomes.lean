import RadarRT.Queue.Accounting

/-!
# What the outcome of a call says

The threads of the application only see what `push` and `waitAndPop` return. Each structure below
lists what one outcome says about the books before and after the call, for the two policies the
application uses (`push` under `DropNewest` can also return `false` on an open queue).
-/

namespace RadarRT.Ledger

variable {α : Type*}

/-- No push and no pop changes the capacity, the policy or the closed flag. -/
structure Alike (l q : Ledger α) : Prop where
  capacity : q.queue.capacity = l.queue.capacity
  policy : q.queue.policy = l.queue.policy
  closed : q.queue.closed = l.queue.closed

/-- `push v` returned `true`. -/
structure Stored (l : Ledger α) (v : α) (q : Ledger α) : Prop extends Alike l q where
  isOpen : l.queue.closed = false
  accepted : q.accepted = l.accepted ++ [v]
  popped : q.popped = l.popped
  refusedFull : q.refusedFull = l.refusedFull
  refusedClosed : q.refusedClosed = l.refusedClosed
  dropped : l.queue.evicts = false → q.queue.dropped = l.queue.dropped

/-- `push v` returned `false`. -/
structure Refused (l : Ledger α) (v : α) (q : Ledger α) : Prop extends Alike l q where
  isClosed : l.queue.closed = true
  queue : q.queue = l.queue
  accepted : q.accepted = l.accepted
  popped : q.popped = l.popped
  refusedFull : q.refusedFull = l.refusedFull
  refusedClosed : q.refusedClosed = l.refusedClosed ++ [v]

/-- `push` threw: the item is not stored, though an older one may have been evicted for it. -/
structure Threw (l q : Ledger α) : Prop extends Alike l q where
  accepted : q.accepted = l.accepted
  popped : q.popped = l.popped
  refusedFull : q.refusedFull = l.refusedFull
  refusedClosed : q.refusedClosed = l.refusedClosed
  length_le : q.queue.queue.length ≤ l.queue.queue.length

/-- `waitAndPop` returned `x`. -/
structure Took (l : Ledger α) (x : α) (q : Ledger α) : Prop extends Alike l q where
  front : l.queue.queue = x :: q.queue.queue
  accepted : q.accepted = l.accepted
  popped : q.popped = l.popped ++ [x]
  refusedFull : q.refusedFull = l.refusedFull
  refusedClosed : q.refusedClosed = l.refusedClosed
  dropped : q.queue.dropped = l.queue.dropped

theorem enqueue_alike (l : Ledger α) (v : α) (f : Bool) : l.Alike (l.enqueue v f).2 := by
  obtain ⟨hcap, hp, hc⟩ := l.queue.enqueueLocked_frame v f
  exact ⟨hcap, hp, hc⟩

theorem tryPop_alike (l : Ledger α) : l.Alike l.tryPop.2 := by
  obtain ⟨hcap, hp, -, hc⟩ := l.queue.tryPop_frame
  exact ⟨hcap, hp, hc⟩

/-! ## `push` -/

/-- A `push` that goes through under `Block` or `DropOldest` never counts a rejection. -/
theorem rejects_of_push {l : Ledger α} (hp : l.queue.policy ≠ .dropNewest) {v : α} {f : Bool}
    {r : Except QueueError Bool × Ledger α} (h : l.push v f = some r) :
    l.queue.rejects = false := by
  unfold push at h
  cases hpol : l.queue.policy with
  | block =>
    rw [hpol] at h
    simp only [true_and] at h
    split at h
    · cases h
    · next hroom =>
      -- `push` went through, so there was room or the queue is closed
      cases hc : l.queue.closed <;> cases hf : l.queue.full <;>
        simp_all [ThreadSafeQueue.hasRoom, ThreadSafeQueue.rejects]
  | dropNewest => exact absurd hpol hp
  | dropOldest => simp [ThreadSafeQueue.rejects, hpol]

/-- A `push` that goes through is an `enqueueLocked`. -/
theorem push_result {l q : Ledger α} {v : α} {f : Bool} {r : Except QueueError Bool}
    (h : l.push v f = some (r, q)) :
    (l.queue.enqueueLocked v f).1 = r ∧ q = (l.enqueue v f).2 := by
  have heq := push_some h
  exact ⟨(congrArg Prod.fst heq).symm, congrArg Prod.snd heq⟩

/-- Only `false` is returned on a closed queue. -/
theorem open_of_returned {q : ThreadSafeQueue α} {v : α} {f : Bool}
    (h : (q.enqueueLocked v f).1 ≠ .ok false) : q.closed = false := by
  by_contra hc
  apply h
  rw [ThreadSafeQueue.enqueueLocked_closed (by simpa using hc)]

theorem push_true {l q : Ledger α} (hp : l.queue.policy ≠ .dropNewest) {v : α} {f : Bool}
    (h : l.push v f = some (.ok true, q)) : l.Stored v q := by
  have hr := rejects_of_push hp h
  obtain ⟨hret, rfl⟩ := push_result h
  have hc : l.queue.closed = false := open_of_returned (by rw [hret]; simp)
  refine ⟨enqueue_alike l v f, hc, ?_, enqueue_popped l v f, ?_, ?_, ?_⟩
  · simp [enqueue, hret, Except.returnedTrue]
  · simp [enqueue, hr]
  · simp [enqueue, hc]
  · intro hev
    -- neither evicting nor rejecting, an open queue is not full
    have hfull : ¬ l.queue.full = true := by
      intro hfull
      cases hpol : l.queue.policy <;>
        simp_all [ThreadSafeQueue.evicts, ThreadSafeQueue.rejects]
    show (l.queue.enqueueLocked v f).2.dropped = _
    rw [ThreadSafeQueue.enqueueLocked_stores hc hfull]
    cases f <;> rfl

theorem push_false {l q : Ledger α} (hp : l.queue.policy ≠ .dropNewest) {v : α} {f : Bool}
    (h : l.push v f = some (.ok false, q)) : l.Refused v q := by
  have hr := rejects_of_push hp h
  obtain ⟨hret, rfl⟩ := push_result h
  have hc : l.queue.closed = true := by
    rcases l.queue.enqueueLocked_cases with hc | hr' | hev | ⟨hc, hf⟩
    · exact hc
    · rw [hr] at hr'
      cases hr'
    · rw [ThreadSafeQueue.enqueueLocked_evicts hev] at hret
      cases f <;> simp [ThreadSafeQueue.store] at hret
    · rw [ThreadSafeQueue.enqueueLocked_stores hc hf] at hret
      cases f <;> simp [ThreadSafeQueue.store] at hret
  have hlocked := ThreadSafeQueue.enqueueLocked_closed hc v f
  refine ⟨enqueue_alike l v f, hc, ?_, ?_, enqueue_popped l v f, ?_, ?_⟩
  · simp [enqueue, hlocked]
  · simp [enqueue, hret, Except.returnedTrue]
  · simp [enqueue, hr]
  · simp [enqueue, hc]

/-- Only a failed allocation makes `push` throw once it holds the lock. -/
theorem allocFails_of_error {l q : Ledger α} {v : α} {f : Bool} {e : QueueError}
    (h : l.push v f = some (.error e, q)) : f = true := by
  have hret := (push_result h).1
  cases f with
  | true => rfl
  | false =>
    rcases l.queue.enqueueLocked_cases with hc | hr | hev | ⟨hc, hf⟩
    · rw [ThreadSafeQueue.enqueueLocked_closed hc] at hret
      cases hret
    · rw [ThreadSafeQueue.enqueueLocked_rejects hr] at hret
      cases hret
    · rw [ThreadSafeQueue.enqueueLocked_evicts hev] at hret
      cases hret
    · rw [ThreadSafeQueue.enqueueLocked_stores hc hf] at hret
      cases hret

theorem push_error {l q : Ledger α} (hp : l.queue.policy ≠ .dropNewest) {v : α} {f : Bool}
    {e : QueueError} (h : l.push v f = some (.error e, q)) : l.Threw q := by
  have hr := rejects_of_push hp h
  obtain ⟨hret, rfl⟩ := push_result h
  have hc : l.queue.closed = false := open_of_returned (by rw [hret]; simp)
  refine ⟨enqueue_alike l v f, ?_, enqueue_popped l v f, ?_, ?_, ?_⟩
  · simp [enqueue, hret, Except.returnedTrue]
  · simp [enqueue, hr]
  · simp [enqueue, hc]
  · have hlen := l.length_enqueue v f
    rw [show (l.enqueue v f).1 = .error e from hret] at hlen
    exact hlen

/-- A `push` on a closed queue returns `false` and leaves the queue alone. -/
theorem push_of_closed {l q : Ledger α} (hc : l.queue.closed = true) {v : α} {f : Bool}
    {r : Except QueueError Bool} (h : l.push v f = some (r, q)) :
    r = .ok false ∧ q.queue = l.queue := by
  obtain ⟨rfl, rfl⟩ := push_result h
  simp [enqueue, ThreadSafeQueue.enqueueLocked_closed hc v f]

theorem length_push {l q : Ledger α} {v : α} {f : Bool} {r : Except QueueError Bool}
    (h : l.push v f = some (r, q)) : q.queue.queue.length ≤ l.queue.queue.length + 1 := by
  obtain ⟨-, rfl⟩ := push_result h
  have hlen := l.length_enqueue v f
  split at hlen <;> omega

/-- A `push` on a closed queue does not wait. -/
theorem push_closed_eq {l : Ledger α} (hc : l.queue.closed = true) (v : α) (f : Bool) :
    l.push v f = some (l.enqueue v f) := by
  simp [push, ThreadSafeQueue.hasRoom, hc]

/-- Under `DropOldest` a `push` never waits. -/
theorem push_dropOldest {l : Ledger α} (hp : l.queue.policy = .dropOldest) (v : α) (f : Bool) :
    l.push v f = some (l.enqueue v f) := by
  simp [push, hp]

/-! ## `waitAndPop` -/

theorem waitAndPop_item {l q : Ledger α} {x : α} (h : l.waitAndPop = some (some x, q)) :
    l.Took x q := by
  obtain ⟨-, heq⟩ := waitAndPop_some h
  have hq : q = l.tryPop.2 := congrArg Prod.snd heq
  have hret : l.queue.tryPop.1 = some x := (congrArg Prod.fst heq).symm
  subst hq
  refine ⟨l.tryPop_alike, ?_, rfl, ?_, rfl, rfl, l.queue.tryPop_frame.2.2.1⟩
  · cases hl : l.queue.queue with
    | nil =>
      rw [ThreadSafeQueue.tryPop_nil hl] at hret
      cases hret
    | cons y rest =>
      obtain ⟨hy, hrest⟩ := ThreadSafeQueue.tryPop_cons hl
      rw [hy] at hret
      cases hret
      exact congrArg _ hrest.symm
  · simp [tryPop, popped, hret, departed_append]

/-- `waitAndPop` returns `nullopt` from a closed, empty queue only, and leaves it alone. -/
theorem waitAndPop_nullopt {l q : Ledger α} (h : l.waitAndPop = some (none, q)) :
    l.queue.closed = true ∧ l.queue.queue = [] ∧ q = l := by
  obtain ⟨hi, heq⟩ := waitAndPop_some h
  have hret : l.queue.tryPop.1 = none := (congrArg Prod.fst heq).symm
  have hnil : l.queue.queue = [] := by
    cases hl : l.queue.queue with
    | nil => rfl
    | cons y rest =>
      rw [(ThreadSafeQueue.tryPop_cons hl).1] at hret
      cases hret
  refine ⟨by simpa [ThreadSafeQueue.hasInput, hnil] using hi, hnil, ?_⟩
  have hpop := ThreadSafeQueue.tryPop_nil hnil
  have hq : q = l.tryPop.2 := congrArg Prod.snd heq
  rw [hq]
  simp [tryPop, hpop]

/-- `waitAndPop` on a closed queue does not wait. -/
theorem waitAndPop_of_closed {l : Ledger α} (h : l.queue.closed = true) :
    l.waitAndPop = some l.tryPop := by
  simp [waitAndPop, ThreadSafeQueue.hasInput, h]

end RadarRT.Ledger
