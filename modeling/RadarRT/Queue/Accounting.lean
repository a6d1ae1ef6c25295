import Mathlib.Data.List.NodupEquivFin
import RadarRT.Queue.Ledger

/-!
# Conservation, order and drop accounting of the queue

Any number of threads complete critical sections on one queue, in any order. `Call` is what a
thread asks for, `Ledger.perform` the critical section with its entry in the books, and a
history of the queue is a schedule of calls (`Lts.run`), each with the thread that issued it.
-/

namespace RadarRT

/-- A call on the queue; `allocFails` says whether the allocation a store makes fails. -/
inductive Call (α : Type*) where
  | push (value : α) (allocFails : Bool)
  | tryPush (value : α) (allocFails : Bool)
  | waitAndPop
  | tryPop
  | close
deriving DecidableEq, Repr

namespace Ledger

variable {ι α : Type*}

/-- The critical section of a call, `none` while the call would wait. -/
def perform (l : Ledger α) : Call α → Option (Ledger α)
  | .push v f => (l.push v f).map Prod.snd
  | .tryPush v f => some (l.tryPush v f).2
  | .waitAndPop => l.waitAndPop.map Prod.snd
  | .tryPop => some l.tryPop.2
  | .close => some l.close

/-- One step of a history: thread `c.1` completes the call `c.2`. -/
def step (l : Ledger α) (c : ι × Call α) : Option (Ledger α) := l.perform c.2

/-! ## What a call leaves alone -/

theorem push_some {l : Ledger α} {v : α} {f : Bool} {r : Except QueueError Bool × Ledger α}
    (h : l.push v f = some r) : r = l.enqueue v f := by
  unfold push at h
  split at h
  · cases h
  · cases h; rfl

theorem waitAndPop_some {l : Ledger α} {r : Option α × Ledger α}
    (h : l.waitAndPop = some r) : l.queue.hasInput = true ∧ r = l.tryPop := by
  unfold waitAndPop at h
  split at h
  · next hi =>
    cases h
    exact ⟨hi, rfl⟩
  · cases h

/-- A call is `enqueueLocked`, a pop or `close`. -/
theorem perform_cases {l l' : Ledger α} {c : Call α} (h : l.perform c = some l') :
    (∃ v f, l' = (l.enqueue v f).2) ∨ l' = l.tryPop.2 ∨ l' = l.close := by
  cases c with
  | push v f =>
    obtain ⟨r, hr, rfl⟩ := Option.map_eq_some_iff.mp h
    exact .inl ⟨v, f, by rw [push_some hr]⟩
  | tryPush v f =>
    cases h
    exact .inl ⟨v, f, rfl⟩
  | waitAndPop =>
    obtain ⟨r, hr, rfl⟩ := Option.map_eq_some_iff.mp h
    exact .inr (.inl (by rw [(waitAndPop_some hr).2]))
  | tryPop =>
    cases h
    exact .inr (.inl rfl)
  | close =>
    cases h
    exact .inr (.inr rfl)

/-- The capacity and the policy are fixed at construction. -/
theorem step_fixed {l l' : Ledger α} {c : ι × Call α} (h : step l c = some l') :
    l'.queue.capacity = l.queue.capacity ∧ l'.queue.policy = l.queue.policy := by
  rcases perform_cases h with ⟨v, f, rfl⟩ | rfl | rfl
  · obtain ⟨hc, hp, -⟩ := l.queue.enqueueLocked_frame v f
    exact ⟨hc, hp⟩
  · obtain ⟨hc, hp, -⟩ := l.queue.tryPop_frame
    exact ⟨hc, hp⟩
  · exact ⟨rfl, rfl⟩

theorem run_fixed {capacity : ℕ} {policy : OverflowPolicy} {h : 0 < capacity}
    {calls : List (ι × Call α)} {l : Ledger α}
    (hrun : Lts.run step (opened capacity policy h) calls = some l) :
    l.queue.capacity = capacity ∧ l.queue.policy = policy :=
  Lts.run_invariant
    (I := fun l : Ledger α => l.queue.capacity = capacity ∧ l.queue.policy = policy)
    (fun _ _ _ hs hl =>
      ⟨(step_fixed hs).1.trans hl.1, (step_fixed hs).2.trans hl.2⟩) hrun ⟨rfl, rfl⟩

/-! ## Calls on a closed queue, and `push` under `Block` -/

/-- A `push` under `Block` that returned `false` met a closed queue. -/
theorem push_block_false {q : ThreadSafeQueue α} (hp : q.policy = .block) {v : α} {f : Bool}
    {r : Except QueueError Bool × ThreadSafeQueue α} (h : q.push v f = some r)
    (hr : r.1 = .ok false) : q.closed = true := by
  by_contra hc
  have hroom : q.hasRoom = true := by
    by_contra hroom
    simp [ThreadSafeQueue.push, hp, hroom] at h
  have hfull : ¬ q.full = true := by
    simpa [ThreadSafeQueue.hasRoom, hc] using hroom
  rw [ThreadSafeQueue.push_eq h,
    ThreadSafeQueue.enqueueLocked_stores (by simpa using hc) hfull] at hr
  cases f <;> simp [ThreadSafeQueue.store] at hr

/-- A `push` on a closed queue returns `false` at once and leaves the queue as it was. -/
theorem push_closed {q : ThreadSafeQueue α} (h : q.closed = true) (v : α) (f : Bool) :
    q.push v f = some (.ok false, q) := by
  have hroom : q.hasRoom = true := by simp [ThreadSafeQueue.hasRoom, h]
  simp [ThreadSafeQueue.push, hroom, ThreadSafeQueue.enqueueLocked_closed h]

/-! ## The history of a queue -/

/-- For every capacity, policy and history of completed calls: the accepted items are the
departed ones followed by the buffer, in order; the buffer respects the capacity; each pop
returned an accepted item of its own, later pops later ones; only `DropOldest` evicts; the drop
counter counts evictions and rejections on an open full queue, modulo its width; a push on the
closed queue changes nothing, and a `Block` push never drops. -/
theorem queue_accounting (capacity : ℕ) (policy : OverflowPolicy) (hcap : 0 < capacity)
    (calls : List (ι × Call α)) (l : Ledger α)
    (hrun : Lts.run step (opened capacity policy hcap) calls = some l) :
    l.accepted = l.removed.map Prod.fst ++ l.queue.queue ∧
    (l.popped ++ l.evicted).Perm (l.removed.map Prod.fst) ∧
    l.queue.queue.length ≤ capacity ∧
    (∃ position : Fin l.popped.length ↪o Fin l.accepted.length,
      ∀ k, l.popped.get k = l.accepted.get (position k)) ∧
    (l.accepted.Nodup → (l.popped ++ l.evicted).Nodup) ∧
    l.popped.Sublist l.accepted ∧
    (policy ≠ .dropOldest → l.evicted = []) ∧
    l.queue.droppedCount = (l.evicted.length + l.refusedFull.length) % 2 ^ 64 ∧
    (l.queue.closed = true → ∀ v f, l.queue.push v f = some (.ok false, l.queue) ∧
      l.queue.tryPush v f = (.ok false, l.queue)) ∧
    (policy = .block → ∀ v f r, l.queue.push v f = some r →
      r.2.droppedCount = l.queue.droppedCount ∧ (r.1 = .ok false → l.queue.closed = true)) := by
  obtain ⟨hcapacity, hpolicy⟩ := run_fixed hrun
  refine ⟨l.conserved, departed_perm l.removed, hcapacity ▸ l.queue.size_le, ?_, ?_,
    l.popped_sublist, ?_, ?_, ?_, ?_⟩
  · exact List.sublist_iff_exists_fin_orderEmbedding_get_eq.mp l.popped_sublist
  · intro hnodup
    have hperm := l.accepted_perm.nodup_iff.mpr hnodup
    exact (List.nodup_append.mp hperm).1
  · intro hne
    exact l.evicted_nil (hpolicy ▸ hne)
  · rw [ThreadSafeQueue.droppedCount, l.counted]
    rfl
  · intro hc v f
    exact ⟨push_closed hc v f, ThreadSafeQueue.enqueueLocked_closed hc v f⟩
  · intro hb v f r hr
    have hp : l.queue.policy = .block := hpolicy.trans hb
    refine ⟨?_, push_block_false hp hr⟩
    rw [ThreadSafeQueue.droppedCount, ThreadSafeQueue.droppedCount,
      ThreadSafeQueue.push_block_dropped hp hr]

/-- Two producers on a `DropOldest` queue of capacity 2: the third push evicts the first item,
and a fourth, whose allocation fails, evicts the second and is not accepted itself. -/
theorem queue_accounting_dropOldest :
    ∃ l : Ledger ℕ, Lts.run step (opened 2 .dropOldest (by decide))
        [(0, .push 1 false), (1, .push 2 false), (0, .push 3 false), (1, .push 4 true),
          (2, .waitAndPop), (0, .close), (1, .tryPush 5 false)] = some l ∧
      l.accepted = [1, 2, 3] ∧ l.removed = [(1, .evicted), (2, .evicted), (3, .popped)] ∧
      l.queue.queue.length ≤ 2 ∧
      l.queue.droppedCount = (l.evicted.length + l.refusedFull.length) % 2 ^ 64 := by
  refine ⟨_, rfl, rfl, rfl, ?_⟩
  have h := queue_accounting (ι := ℕ) 2 .dropOldest (by decide)
    [(0, .push 1 false), (1, .push 2 false), (0, .push 3 false), (1, .push 4 true),
      (2, .waitAndPop), (0, .close), (1, .tryPush 5 false)] _ rfl
  exact ⟨h.2.2.1, h.2.2.2.2.2.2.2.1⟩

end Ledger

end RadarRT
