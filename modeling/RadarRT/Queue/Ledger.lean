import RadarRT.Lib.Lts
import RadarRT.Queue.ThreadSafeQueue

/-!
# The books of a queue

`Ledger` is a `ThreadSafeQueue` with its books: which items were accepted, which left the
front and how, and which pushes returned `false` and why. The entries are made from what the
calls return, and the queue itself never reads them (`push_erase`, `waitAndPop_erase`).

That the books balance is part of the type: every item accepted is either in the list of
departures or still buffered, in the same order, and the drop counter counts the evictions
and the rejections on a full queue. Each operation below proves it of its own entry, including
the one whose allocation fails after an eviction.
-/

namespace RadarRT

/-- How an item left the front of the queue. -/
inductive Departure where
  | popped
  | evicted
deriving DecidableEq, Repr

/-- The items of a list of departures that left in the way `d`. -/
def departed {α : Type*} (d : Departure) (removed : List (α × Departure)) : List α :=
  removed.filterMap fun p => if p.2 = d then some p.1 else none

/-- The call returned `true`. -/
def Except.returnedTrue {ε : Type*} : Except ε Bool → Bool
  | .ok b => b
  | .error _ => false

section departed

variable {α : Type*} (d : Departure)

@[simp] theorem departed_nil : departed d ([] : List (α × Departure)) = [] := rfl

theorem departed_append (r r' : List (α × Departure)) :
    departed d (r ++ r') = departed d r ++ departed d r' :=
  List.filterMap_append

@[simp] theorem departed_singleton (v : α) (e : Departure) :
    departed d [(v, e)] = if e = d then [v] else [] := by
  unfold departed
  by_cases h : e = d <;> simp [h]

theorem departed_sublist (r : List (α × Departure)) :
    (departed d r).Sublist (r.map Prod.fst) := by
  unfold departed
  induction r with
  | nil => exact .slnil
  | cons p r ih =>
    rw [List.map_cons, List.filterMap_cons]
    by_cases h : p.2 = d
    · simpa only [h, if_true] using ih.cons_cons p.1
    · simpa only [h, if_false] using ih.cons p.1

/-- Every departure is a pop or an eviction. -/
theorem departed_perm (r : List (α × Departure)) :
    (departed .popped r ++ departed .evicted r).Perm (r.map Prod.fst) := by
  induction r with
  | nil => exact .nil
  | cons p r ih =>
    obtain ⟨v, e⟩ := p
    have h : ∀ d, departed d ((v, e) :: r) = departed d [(v, e)] ++ departed d r :=
      fun d => departed_append d [(v, e)] r
    rw [h, h, departed_singleton, departed_singleton, List.map_cons]
    cases e with
    | popped => simpa using ih.cons v
    | evicted => simpa using List.perm_middle.trans (ih.cons v)

end departed

structure Ledger (α : Type*) where
  queue : ThreadSafeQueue α
  /-- The items whose `push` or `tryPush` returned `true`, in order. -/
  accepted : List α
  /-- The items that left the front, in order. -/
  removed : List (α × Departure)
  /-- The items of the pushes that returned `false` on an open, full queue. -/
  refusedFull : List α
  /-- The items of the pushes that returned `false` on a closed queue. -/
  refusedClosed : List α
  conserved : accepted = removed.map Prod.fst ++ queue.queue
  counted : queue.dropped = (departed .evicted removed).length + refusedFull.length
  evicted_nil : queue.policy ≠ .dropOldest → departed .evicted removed = []

namespace Ledger

variable {α : Type*}

/-- What the pops returned, in order. -/
def popped (l : Ledger α) : List α := departed .popped l.removed

/-- What `DropOldest` discarded, in order. -/
def evicted (l : Ledger α) : List α := departed .evicted l.removed

/-- The books of a queue nothing was done to. -/
def opened (capacity : ℕ) (policy : OverflowPolicy) (h : 0 < capacity) : Ledger α where
  queue := .empty capacity policy h
  accepted := []
  removed := []
  refusedFull := []
  refusedClosed := []
  conserved := rfl
  counted := rfl
  evicted_nil := fun _ => rfl

/-! ## The entry of an `enqueueLocked` -/

/-- The front item, when `enqueueLocked` is about to evict it. -/
def evictedNow (q : ThreadSafeQueue α) : List (α × Departure) :=
  if q.evicts then q.queue.head?.toList.map (·, .evicted) else []

theorem evictedNow_of_not {q : ThreadSafeQueue α} (h : q.evicts = false) : evictedNow q = [] := by
  simp [evictedNow, h]

theorem evictedNow_cons {q : ThreadSafeQueue α} (h : q.evicts = true) {v : α} {rest : List α}
    (hq : q.queue = v :: rest) : evictedNow q = [(v, .evicted)] := by
  simp [evictedNow, h, hq]

theorem evicts_of_closed {q : ThreadSafeQueue α} (h : q.closed = true) : q.evicts = false := by
  simp [ThreadSafeQueue.evicts, h]

theorem evicts_of_rejects {q : ThreadSafeQueue α} (h : q.rejects = true) : q.evicts = false := by
  simp only [ThreadSafeQueue.rejects, Bool.and_eq_true, Bool.not_eq_true'] at h
  simp [ThreadSafeQueue.evicts, h.2]

theorem evicts_of_not_full {q : ThreadSafeQueue α} (h : ¬ q.full = true) :
    q.evicts = false := by
  simp [ThreadSafeQueue.evicts, h]

theorem conserved_enqueue (l : Ledger α) (v : α) (f : Bool) :
    (if Except.returnedTrue (l.queue.enqueueLocked v f).1 then l.accepted ++ [v]
        else l.accepted)
      = (l.removed ++ evictedNow l.queue).map Prod.fst ++
          (l.queue.enqueueLocked v f).2.queue := by
  have hl := l.conserved
  rcases l.queue.enqueueLocked_cases with h | h | h | ⟨hc, hf⟩
  · rw [ThreadSafeQueue.enqueueLocked_closed h, evictedNow_of_not (evicts_of_closed h)]
    simpa [Except.returnedTrue] using hl
  · rw [ThreadSafeQueue.enqueueLocked_rejects h, evictedNow_of_not (evicts_of_rejects h)]
    simpa [Except.returnedTrue, ThreadSafeQueue.countDrop] using hl
  · -- the front leaves as evicted; the new item follows only if its storage was allocated
    obtain ⟨x, rest, hq⟩ := ThreadSafeQueue.exists_front_of_evicts h
    rw [ThreadSafeQueue.enqueueLocked_evicts h, evictedNow_cons h hq, hl, hq]
    cases f <;>
      simp [ThreadSafeQueue.store, ThreadSafeQueue.evict, Except.returnedTrue, hq]
  · rw [ThreadSafeQueue.enqueueLocked_stores hc hf, evictedNow_of_not (evicts_of_not_full hf),
      hl]
    cases f <;> simp [ThreadSafeQueue.store, Except.returnedTrue]

theorem counted_enqueue (l : Ledger α) (v : α) (f : Bool) :
    (l.queue.enqueueLocked v f).2.dropped
      = (departed .evicted (l.removed ++ evictedNow l.queue)).length +
          (if l.queue.rejects then l.refusedFull ++ [v] else l.refusedFull).length := by
  have hl := l.counted
  rcases l.queue.enqueueLocked_cases with h | h | h | ⟨hc, hf⟩
  · have hr : l.queue.rejects = false := by simp [ThreadSafeQueue.rejects, h]
    rw [ThreadSafeQueue.enqueueLocked_closed h, evictedNow_of_not (evicts_of_closed h), hr]
    simpa using hl
  · rw [ThreadSafeQueue.enqueueLocked_rejects h, evictedNow_of_not (evicts_of_rejects h), h]
    simp only [ThreadSafeQueue.countDrop, List.append_nil, if_true, List.length_append,
      List.length_singleton]
    omega
  · obtain ⟨x, rest, hq⟩ := ThreadSafeQueue.exists_front_of_evicts h
    have hr : l.queue.rejects = false := by
      simp only [ThreadSafeQueue.evicts, Bool.and_eq_true] at h
      simp [ThreadSafeQueue.rejects, h.2]
    rw [ThreadSafeQueue.enqueueLocked_evicts h, evictedNow_cons h hq, hr, departed_append]
    cases f <;> simp [ThreadSafeQueue.store, ThreadSafeQueue.evict, hl] <;> omega
  · have hr : l.queue.rejects = false := by simp [ThreadSafeQueue.rejects, hf]
    rw [ThreadSafeQueue.enqueueLocked_stores hc hf, evictedNow_of_not (evicts_of_not_full hf),
      hr]
    cases f <;> simpa [ThreadSafeQueue.store] using hl

theorem evicted_nil_enqueue (l : Ledger α) (v : α) (f : Bool)
    (h : (l.queue.enqueueLocked v f).2.policy ≠ .dropOldest) :
    departed .evicted (l.removed ++ evictedNow l.queue) = [] := by
  rw [(l.queue.enqueueLocked_frame v f).2.1] at h
  have hev : l.queue.evicts = false := by simp [ThreadSafeQueue.evicts, h]
  rw [evictedNow_of_not hev, List.append_nil]
  exact l.evicted_nil h

/-- `enqueueLocked` with its entry. -/
def enqueue (l : Ledger α) (v : α) (allocFails : Bool) : Except QueueError Bool × Ledger α :=
  ((l.queue.enqueueLocked v allocFails).1,
    { queue := (l.queue.enqueueLocked v allocFails).2
      accepted :=
        if Except.returnedTrue (l.queue.enqueueLocked v allocFails).1 then l.accepted ++ [v]
        else l.accepted
      removed := l.removed ++ evictedNow l.queue
      refusedFull := if l.queue.rejects then l.refusedFull ++ [v] else l.refusedFull
      refusedClosed := if l.queue.closed then l.refusedClosed ++ [v] else l.refusedClosed
      conserved := l.conserved_enqueue v allocFails
      counted := l.counted_enqueue v allocFails
      evicted_nil := l.evicted_nil_enqueue v allocFails })

/-! ## The other operations -/

theorem conserved_tryPop (l : Ledger α) :
    l.accepted = (l.removed ++ l.queue.tryPop.1.toList.map (·, Departure.popped)).map Prod.fst
      ++ l.queue.tryPop.2.queue := by
  have hl := l.conserved
  cases hq : l.queue.queue with
  | nil =>
    rw [ThreadSafeQueue.tryPop_nil hq]
    simpa using hl
  | cons v rest =>
    obtain ⟨hv, hrest⟩ := ThreadSafeQueue.tryPop_cons hq
    rw [hv, hrest, hl, hq]
    simp

theorem departed_evicted_popped (r : List (α × Departure)) (o : Option α) :
    departed .evicted (r ++ o.toList.map (·, Departure.popped)) = departed .evicted r := by
  rw [departed_append]
  cases o <;> simp

/-- `tryPop` with its entry. -/
def tryPop (l : Ledger α) : Option α × Ledger α :=
  (l.queue.tryPop.1,
    { queue := l.queue.tryPop.2
      accepted := l.accepted
      removed := l.removed ++ l.queue.tryPop.1.toList.map (·, Departure.popped)
      refusedFull := l.refusedFull
      refusedClosed := l.refusedClosed
      conserved := l.conserved_tryPop
      counted := by
        rw [departed_evicted_popped, l.queue.tryPop_frame.2.2.1]
        exact l.counted
      evicted_nil := by
        rw [departed_evicted_popped, l.queue.tryPop_frame.2.1]
        exact l.evicted_nil })

def push (l : Ledger α) (v : α) (allocFails : Bool) :
    Option (Except QueueError Bool × Ledger α) :=
  if l.queue.policy = .block ∧ l.queue.hasRoom = false then none
  else some (l.enqueue v allocFails)

def tryPush (l : Ledger α) (v : α) (allocFails : Bool) : Except QueueError Bool × Ledger α :=
  l.enqueue v allocFails

def waitAndPop (l : Ledger α) : Option (Option α × Ledger α) :=
  if l.queue.hasInput then some l.tryPop else none

def close (l : Ledger α) : Ledger α := { l with queue := l.queue.close }

/-! ## The queue never reads its books -/

theorem push_erase (l : Ledger α) (v : α) (f : Bool) :
    (l.push v f).map (fun r => (r.1, r.2.queue)) = l.queue.push v f := by
  unfold push ThreadSafeQueue.push
  split <;> rfl

theorem waitAndPop_erase (l : Ledger α) :
    l.waitAndPop.map (fun r => (r.1, r.2.queue)) = l.queue.waitAndPop := by
  unfold waitAndPop ThreadSafeQueue.waitAndPop
  split <;> rfl

/-! ## What a push does to the books -/

/-- The buffer grows by at most the item that was accepted. -/
theorem length_enqueue (l : Ledger α) (v : α) (f : Bool) :
    (l.enqueue v f).2.queue.queue.length ≤ l.queue.queue.length +
      if Except.returnedTrue (l.enqueue v f).1 then 1 else 0 := by
  show (l.queue.enqueueLocked v f).2.queue.length ≤ l.queue.queue.length +
    if Except.returnedTrue (l.queue.enqueueLocked v f).1 then 1 else 0
  rcases l.queue.enqueueLocked_cases with h | h | h | ⟨hc, hf⟩
  · rw [ThreadSafeQueue.enqueueLocked_closed h]
    exact Nat.le_add_right _ _
  · rw [ThreadSafeQueue.enqueueLocked_rejects h]
    exact Nat.le_add_right _ _
  · -- one item left for the one that may have been stored
    obtain ⟨x, rest, hq⟩ := ThreadSafeQueue.exists_front_of_evicts h
    rw [ThreadSafeQueue.enqueueLocked_evicts h]
    cases f <;> simp [ThreadSafeQueue.store, ThreadSafeQueue.evict, hq, Except.returnedTrue]
  · rw [ThreadSafeQueue.enqueueLocked_stores hc hf]
    cases f <;> simp [ThreadSafeQueue.store, Except.returnedTrue]

/-- A push accepts its item or leaves the list of accepted items as it was. -/
theorem enqueue_accepted (l : Ledger α) (v : α) (f : Bool) :
    (l.enqueue v f).2.accepted = l.accepted ++ [v] ∨
      (l.enqueue v f).2.accepted = l.accepted := by
  simp only [enqueue]
  split
  · exact .inl rfl
  · exact .inr rfl

theorem enqueue_popped (l : Ledger α) (v : α) (f : Bool) :
    (l.enqueue v f).2.popped = l.popped := by
  simp only [enqueue, popped, departed_append]
  unfold evictedNow
  split
  · cases l.queue.queue.head? <;> simp
  · simp

/-- Under `Block` a push that goes through accepts its item while the queue is open and
refuses it once the queue is closed. -/
theorem enqueue_block {l : Ledger α} (hp : l.queue.policy = .block) {v : α}
    (hpush : (l.push v false).isSome) :
    (l.queue.closed = true ∧ (l.enqueue v false).2.accepted = l.accepted) ∨
      (l.queue.closed = false ∧ (l.enqueue v false).2.accepted = l.accepted ++ [v]) := by
  have hroom : l.queue.hasRoom = true := by
    by_contra hroom
    simp [push, hp, hroom] at hpush
  cases hc : l.queue.closed with
  | true =>
    left
    simp [enqueue, ThreadSafeQueue.enqueueLocked_closed hc, Except.returnedTrue]
  | false =>
    right
    have hf : ¬ l.queue.full = true := by
      simpa [ThreadSafeQueue.hasRoom, hc] using hroom
    simp [enqueue, ThreadSafeQueue.enqueueLocked_stores hc hf, ThreadSafeQueue.store,
      Except.returnedTrue]

/-! ## Consequences of the balance -/

theorem popped_sublist (l : Ledger α) : l.popped.Sublist l.accepted := by
  have h := departed_sublist .popped l.removed
  rw [l.conserved]
  exact h.trans (List.sublist_append_left _ _)

/-- Each accepted item was popped, or evicted, or is still buffered, and only one of these. -/
theorem accepted_perm (l : Ledger α) :
    (l.popped ++ l.evicted ++ l.queue.queue).Perm l.accepted := by
  rw [l.conserved]
  exact (departed_perm l.removed).append_right _

end Ledger

end RadarRT
