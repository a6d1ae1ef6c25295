import Mathlib.Algebra.Group.Nat.Defs
import Mathlib.Data.List.Basic
import Mathlib.Data.Nat.Notation
import Mathlib.Tactic.TypeStar

/-!
# `ThreadSafeQueue`: the critical sections

`thread_safe_queue.hpp`, one definition per critical section. A blocking call returns `none`
while its wait predicate is false and the outcome of its one critical section once it holds;
what happens between the call and that moment is in `RadarRT.Queue.Monitor`.

The capacity check of the constructor and the bound on the buffer are fields of the type, so
a queue that breaks either cannot be built. `std::queue` is a list with its front first.
`droppedCount_` is kept as a natural number and wraps when it is read (`droppedCount`), which
is what `fetch_add` on a `uint64_t` amounts to.
-/

namespace RadarRT

/-- Behaviour of `push` on a full queue. -/
inductive OverflowPolicy where
  | block
  | dropNewest
  | dropOldest
deriving DecidableEq, Repr

/-- What the queue can throw: the constructor's argument check, and an allocation failure of
the underlying `std::queue` while it stores an item. -/
inductive QueueError where
  | invalidArgument (what : String)
  | badAlloc
deriving DecidableEq, Repr

structure ThreadSafeQueue (α : Type*) where
  /-- `queue_`, the buffered items with the front first. -/
  queue : List α
  capacity : ℕ
  policy : OverflowPolicy
  /-- `droppedCount_` before it wraps. -/
  dropped : ℕ
  closed : Bool
  capacity_pos : 0 < capacity
  size_le : queue.length ≤ capacity

namespace ThreadSafeQueue

variable {α : Type*}

/-! ## Construction and observers -/

/-- An open, empty queue of the given capacity. -/
def empty (capacity : ℕ) (policy : OverflowPolicy) (h : 0 < capacity) : ThreadSafeQueue α where
  queue := []
  capacity := capacity
  policy := policy
  dropped := 0
  closed := false
  capacity_pos := h
  size_le := Nat.zero_le _

/-- The constructor: a zero capacity throws `std::invalid_argument`. -/
def construct (capacity : ℕ) (policy : OverflowPolicy) :
    Except QueueError (ThreadSafeQueue α) :=
  if h : 0 < capacity then .ok (empty capacity policy h)
  else .error (.invalidArgument "ThreadSafeQueue capacity must be greater than zero")

/-- A queue that could be constructed starts out as `empty`. -/
theorem construct_eq_ok {capacity : ℕ} {policy : OverflowPolicy} {q : ThreadSafeQueue α} :
    construct capacity policy = .ok q ↔ ∃ h, q = empty capacity policy h := by
  unfold construct
  split
  · next h => simp [h, eq_comm]
  · next h => simp [h]

def full (q : ThreadSafeQueue α) : Bool := decide (q.capacity ≤ q.queue.length)

def size (q : ThreadSafeQueue α) : ℕ := q.queue.length

/-- `droppedCount()`, a load of the 64-bit counter. -/
def droppedCount (q : ThreadSafeQueue α) : ℕ := q.dropped % 2 ^ 64

/-- The wait predicate of a `Block` push, `!full() || closed_`. -/
def hasRoom (q : ThreadSafeQueue α) : Bool := !q.full || q.closed

/-- The wait predicate of `waitAndPop`, `!queue_.empty() || closed_`. -/
def hasInput (q : ThreadSafeQueue α) : Bool := !q.queue.isEmpty || q.closed

theorem full_iff (q : ThreadSafeQueue α) : q.full = true ↔ q.queue.length = q.capacity := by
  have := q.size_le
  simp only [full, decide_eq_true_eq]
  omega

theorem lt_of_not_full {q : ThreadSafeQueue α} (h : ¬ q.full = true) :
    q.queue.length < q.capacity := by
  have := q.size_le
  rw [full_iff] at h
  omega

/-! ## `enqueueLocked` -/

/-- `queue_.pop()` and the counted drop of the `DropOldest` branch. -/
def evict (q : ThreadSafeQueue α) : ThreadSafeQueue α where
  queue := q.queue.tail
  capacity := q.capacity
  policy := q.policy
  dropped := q.dropped + 1
  closed := q.closed
  capacity_pos := q.capacity_pos
  size_le := by
    have := q.size_le
    rw [List.length_tail]
    omega

/-- The counted rejection of the other two policies. -/
def countDrop (q : ThreadSafeQueue α) : ThreadSafeQueue α := { q with dropped := q.dropped + 1 }

/-- `queue_.push(std::move(value))`: a failing allocation throws and leaves the queue as it was
(the strong guarantee of `std::deque::push_back`). -/
def store (q : ThreadSafeQueue α) (value : α) (allocFails : Bool)
    (h : q.queue.length < q.capacity) : Except QueueError Bool × ThreadSafeQueue α :=
  if allocFails then (.error .badAlloc, q)
  else (.ok true, { q with
    queue := q.queue ++ [value]
    size_le := by rw [List.length_append, List.length_singleton]; omega })

theorem evict_lt (q : ThreadSafeQueue α) : q.evict.queue.length < q.evict.capacity := by
  have := q.size_le
  have := q.capacity_pos
  simp only [evict, List.length_tail]
  omega

/-- `enqueueLocked`, with the outcome of the one allocation it makes as a parameter. -/
def enqueueLocked (q : ThreadSafeQueue α) (value : α) (allocFails : Bool) :
    Except QueueError Bool × ThreadSafeQueue α :=
  if q.closed then (.ok false, q)
  else if h : q.full then
    match q.policy with
    | .dropOldest => q.evict.store value allocFails q.evict_lt
    | .block | .dropNewest => (.ok false, q.countDrop)
  else q.store value allocFails (lt_of_not_full h)

/-! ## The operations -/

/-- `push`: under `Block` it waits for `hasRoom`. -/
def push (q : ThreadSafeQueue α) (value : α) (allocFails : Bool) :
    Option (Except QueueError Bool × ThreadSafeQueue α) :=
  if q.policy = .block ∧ q.hasRoom = false then none else some (q.enqueueLocked value allocFails)

def tryPush (q : ThreadSafeQueue α) (value : α) (allocFails : Bool) :
    Except QueueError Bool × ThreadSafeQueue α :=
  q.enqueueLocked value allocFails

/-- `tryPop`, and what `waitAndPop` does once its predicate holds: the front item, or
`nullopt` from an empty queue. -/
def tryPop (q : ThreadSafeQueue α) : Option α × ThreadSafeQueue α :=
  match h : q.queue with
  | [] => (none, q)
  | v :: rest => (some v, { q with
    queue := rest
    size_le := by
      have := q.size_le
      rw [h, List.length_cons] at this
      omega })

/-- `waitAndPop`: waits for `hasInput`. -/
def waitAndPop (q : ThreadSafeQueue α) : Option (Option α × ThreadSafeQueue α) :=
  if q.hasInput then some q.tryPop else none

def close (q : ThreadSafeQueue α) : ThreadSafeQueue α := { q with closed := true }

/-! ## What each critical section does -/

/-- The branch of `enqueueLocked` that evicts. -/
def evicts (q : ThreadSafeQueue α) : Bool :=
  !q.closed && q.full && decide (q.policy = .dropOldest)

/-- The branch of `enqueueLocked` that counts a rejection. -/
def rejects (q : ThreadSafeQueue α) : Bool :=
  !q.closed && q.full && !decide (q.policy = .dropOldest)

/-- A full queue that evicts has a front item to evict. -/
theorem exists_front_of_evicts {q : ThreadSafeQueue α} (h : q.evicts = true) :
    ∃ v rest, q.queue = v :: rest := by
  have hfull : q.queue.length = q.capacity := by
    rw [← full_iff]
    simp only [evicts, Bool.and_eq_true] at h
    exact h.1.2
  have hpos := q.capacity_pos
  cases hq : q.queue with
  | nil =>
    rw [hq, List.length_nil] at hfull
    omega
  | cons v rest => exact ⟨v, rest, rfl⟩

/-- `enqueueLocked` on a closed queue stores nothing, counts nothing and returns `false`. -/
theorem enqueueLocked_closed {q : ThreadSafeQueue α} (h : q.closed = true) (v : α) (f : Bool) :
    q.enqueueLocked v f = (.ok false, q) := by
  simp [enqueueLocked, h]

theorem enqueueLocked_rejects {q : ThreadSafeQueue α} (h : q.rejects = true) (v : α) (f : Bool) :
    q.enqueueLocked v f = (.ok false, q.countDrop) := by
  simp only [rejects, Bool.and_eq_true, Bool.not_eq_true', decide_eq_false_iff_not] at h
  obtain ⟨⟨hc, hf⟩, hp⟩ := h
  simp only [enqueueLocked, hc, hf, Bool.false_eq_true, if_false, dite_true]
  cases hq : q.policy with
  | block => rfl
  | dropNewest => rfl
  | dropOldest => exact absurd hq hp

theorem enqueueLocked_evicts {q : ThreadSafeQueue α} (h : q.evicts = true) (v : α) (f : Bool) :
    q.enqueueLocked v f = q.evict.store v f q.evict_lt := by
  simp only [evicts, Bool.and_eq_true, Bool.not_eq_true', decide_eq_true_eq] at h
  obtain ⟨⟨hc, hf⟩, hp⟩ := h
  simp only [enqueueLocked, hc, hf, hp, Bool.false_eq_true, if_false, dite_true]

theorem enqueueLocked_stores {q : ThreadSafeQueue α} (hc : q.closed = false)
    (hf : ¬ q.full = true) (v : α) (f : Bool) :
    q.enqueueLocked v f = q.store v f (lt_of_not_full hf) := by
  simp only [enqueueLocked, hc, hf, Bool.false_eq_true, if_false, dite_false]

/-- The four branches of `enqueueLocked`. -/
theorem enqueueLocked_cases (q : ThreadSafeQueue α) :
    q.closed = true ∨ q.rejects = true ∨ q.evicts = true ∨
      (q.closed = false ∧ ¬ q.full = true) := by
  by_cases hc : q.closed = true
  · exact .inl hc
  · by_cases hf : q.full = true
    · by_cases hp : q.policy = .dropOldest <;> simp [rejects, evicts, hc, hf, hp]
    · simp only [Bool.not_eq_true] at hc
      exact .inr (.inr (.inr ⟨hc, hf⟩))

theorem tryPop_nil {q : ThreadSafeQueue α} (h : q.queue = []) : q.tryPop = (none, q) := by
  unfold tryPop
  split
  · rfl
  · next hq => rw [h] at hq; cases hq

theorem tryPop_cons {q : ThreadSafeQueue α} {v : α} {rest : List α} (h : q.queue = v :: rest) :
    q.tryPop.1 = some v ∧ q.tryPop.2.queue = rest := by
  unfold tryPop
  split
  · next hq => rw [h] at hq; cases hq
  · next hq =>
    rw [h] at hq
    cases hq
    exact ⟨rfl, rfl⟩

/-- Nothing but the buffer changes in a pop. -/
theorem tryPop_frame (q : ThreadSafeQueue α) :
    q.tryPop.2.capacity = q.capacity ∧ q.tryPop.2.policy = q.policy ∧
      q.tryPop.2.dropped = q.dropped ∧ q.tryPop.2.closed = q.closed := by
  unfold tryPop
  split <;> exact ⟨rfl, rfl, rfl, rfl⟩

/-- `enqueueLocked` never changes the capacity, the policy or the closed flag. -/
theorem enqueueLocked_frame (q : ThreadSafeQueue α) (v : α) (f : Bool) :
    (q.enqueueLocked v f).2.capacity = q.capacity ∧
      (q.enqueueLocked v f).2.policy = q.policy ∧
      (q.enqueueLocked v f).2.closed = q.closed := by
  rcases q.enqueueLocked_cases with h | h | h | ⟨hc, hf⟩
  · rw [enqueueLocked_closed h]
    exact ⟨rfl, rfl, rfl⟩
  · rw [enqueueLocked_rejects h]
    exact ⟨rfl, rfl, rfl⟩
  · rw [enqueueLocked_evicts h]
    cases f <;> exact ⟨rfl, rfl, rfl⟩
  · rw [enqueueLocked_stores hc hf]
    cases f <;> exact ⟨rfl, rfl, rfl⟩

/-- Under `Block` a completed `push` found room or a closed queue, so it counts no drop. -/
theorem push_block_dropped {q : ThreadSafeQueue α} (hp : q.policy = .block) {v : α} {f : Bool}
    {r : Except QueueError Bool × ThreadSafeQueue α} (h : q.push v f = some r) :
    r.2.dropped = q.dropped := by
  simp only [push, hp, true_and] at h
  split at h
  · cases h
  · next hroom =>
    cases h
    simp only [hasRoom, Bool.or_eq_false_iff, Bool.not_eq_false', not_and,
      Bool.not_eq_false] at hroom
    by_cases hfull : q.full = true
    · rw [enqueueLocked_closed (hroom hfull)]
    · by_cases hc : q.closed = true
      · rw [enqueueLocked_closed hc]
      · simp only [Bool.not_eq_true] at hc
        rw [enqueueLocked_stores hc hfull]
        cases f <;> rfl

/-- `push` runs `enqueueLocked` whenever it does not block. -/
theorem push_eq {q : ThreadSafeQueue α} {v : α} {f : Bool}
    {r : Except QueueError Bool × ThreadSafeQueue α} (h : q.push v f = some r) :
    r = q.enqueueLocked v f := by
  unfold push at h
  split at h
  · cases h
  · cases h; rfl

end ThreadSafeQueue

end RadarRT
