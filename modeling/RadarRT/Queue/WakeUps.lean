import Mathlib.Algebra.BigOperators.Group.Finset.Piecewise
import RadarRT.Lib.Tally
import RadarRT.Queue.Monitor

/-!
# No lost wake-up

The argument is a credit: every item in the buffer that a sleeping consumer should be woken for
is matched by a `notify_one` still to be issued or by a consumer already notified that has not
evaluated its predicate again. A store adds an item and a credit; a pop takes an item and at
most one credit, the popping consumer's own; a notification passes its credit on to the thread
it wakes. A consumer that goes back to sleep takes its credit with it, but it saw an empty
buffer.

On `not_full_` the two kinds of waiters are always woken together, so there it is enough that
whoever makes a predicate true has its `notify_all` still to come.
-/

namespace RadarRT.Monitor

open Finset

variable {ι α : Type*}

/-! ## Credits and pending notifications -/

/-- A consumer woken by a notification that has not evaluated its predicate again. -/
def Pc.notifiedConsumer : Pc α → Bool
  | .locking .waitAndPop n => n
  | .critical .waitAndPop n => n
  | _ => false

/-- A `not_empty_.notify_one()` still to be issued. -/
def Pc.owesNotifyOne : Pc α → Bool
  | .notifyOne => true
  | _ => false

/-- A `not_full_.notify_all()` still to be issued; `close` issues it last. -/
def Pc.owesNotifyFull : Pc α → Bool
  | .notifyAllEmpty => true
  | .notifyAllFull => true
  | _ => false

/-- Woken by a notification and not run since, whatever it waited for. -/
def Pc.notified : Pc α → Bool
  | .locking _ n => n
  | .critical _ n => n
  | _ => false

/-- The credit of one thread. -/
def Pc.credit (pc : Pc α) : ℕ :=
  (if pc.notifiedConsumer then 1 else 0) + if pc.owesNotifyOne then 1 else 0

/-- `close` has not issued its `not_empty_.notify_all()` yet. -/
def NotEmptyPending (s : State ι α) : Prop := ∃ t, s.threads t = .notifyAllEmpty

/-- A `not_full_.notify_all()` is still to come. -/
def NotFullPending (s : State ι α) : Prop := ∃ t, (s.threads t).owesNotifyFull = true

section counts

variable [Fintype ι]

/-- Consumers already notified but not yet run again. -/
def notifiedConsumers (s : State ι α) : ℕ :=
  (univ.filter fun t => (s.threads t).notifiedConsumer = true).card

/-- `not_empty_.notify_one()` calls still pending. -/
def pendingNotifyOnes (s : State ι α) : ℕ :=
  (univ.filter fun t => (s.threads t).owesNotifyOne = true).card

theorem credits_eq (s : State ι α) :
    notifiedConsumers s + pendingNotifyOnes s = ∑ t, (s.threads t).credit := by
  simp only [notifiedConsumers, pendingNotifyOnes, card_filter, Pc.credit, sum_add_distrib]

end counts

/-! ## Critical sections and the length of the buffer -/

/-- A push without an allocation failure never shortens the buffer. -/
theorem le_length_enqueueLocked (q : ThreadSafeQueue α) (v : α) :
    q.queue.length ≤ (q.enqueueLocked v false).2.queue.length := by
  rcases q.enqueueLocked_cases with h | h | h | ⟨hc, hf⟩
  · rw [ThreadSafeQueue.enqueueLocked_closed h]
  · rw [ThreadSafeQueue.enqueueLocked_rejects h]
    exact le_rfl
  · obtain ⟨x, rest, hq⟩ := ThreadSafeQueue.exists_front_of_evicts h
    simp [ThreadSafeQueue.enqueueLocked_evicts h, ThreadSafeQueue.store, ThreadSafeQueue.evict,
      hq]
  · simp [ThreadSafeQueue.enqueueLocked_stores hc hf, ThreadSafeQueue.store]

theorem full_of_length_le {q q' : ThreadSafeQueue α} (hcap : q'.capacity = q.capacity)
    (hlen : q.queue.length ≤ q'.queue.length) (h : q.full = true) : q'.full = true := by
  have := q'.size_le
  rw [ThreadSafeQueue.full_iff] at h ⊢
  omega

/-- A push that ran: what it stored is paid for by the notification it owes. -/
theorem afterEnqueue_effect (l : Ledger α) (v : α) :
    (∀ op, (afterEnqueue (l.enqueue v false)).2 ≠ .asleep op) ∧
      (afterEnqueue (l.enqueue v false)).2 ≠ .notifyAllEmpty ∧
      (l.enqueue v false).2.queue.closed = l.queue.closed ∧
      (l.enqueue v false).2.queue.capacity = l.queue.capacity ∧
      l.queue.queue.length ≤ (l.enqueue v false).2.queue.queue.length ∧
      (l.enqueue v false).2.queue.queue.length ≤
        l.queue.queue.length + (afterEnqueue (l.enqueue v false)).2.credit := by
  obtain ⟨hcap, -, hclo⟩ := l.queue.enqueueLocked_frame v false
  have hle := le_length_enqueueLocked l.queue v
  have hlen := l.length_enqueue v false
  have hnotify : (∀ op, (afterEnqueue (l.enqueue v false)).2 ≠ .asleep op) ∧
      (afterEnqueue (l.enqueue v false)).2 ≠ .notifyAllEmpty ∧
      (l.enqueue v false).2.queue.queue.length ≤
        l.queue.queue.length + (afterEnqueue (l.enqueue v false)).2.credit := by
    by_cases hr : Except.returnedTrue (l.enqueue v false).1 = true <;>
      simpa [afterEnqueue, hr, Pc.credit, Pc.notifiedConsumer, Pc.owesNotifyOne] using hlen
  exact ⟨hnotify.1, hnotify.2.1, hclo, hcap, hle, hnotify.2.2⟩

/-- A pop that ran: it took an item and owes a `notify_all`, or there was none to take. -/
theorem afterPop_effect (l : Ledger α) :
    (∀ op, (afterPop l.tryPop).2 ≠ .asleep op) ∧
      (((afterPop l.tryPop).2 = .notifyAllFull ∧
        l.tryPop.2.queue.closed = l.queue.closed ∧
        l.tryPop.2.queue.queue.length + 1 = l.queue.queue.length) ∨
      (l.tryPop.2.queue = l.queue ∧ (afterPop l.tryPop).2 = .idle ∧ l.queue.queue = [])) := by
  cases hq : l.queue.queue with
  | nil =>
    have hnil := ThreadSafeQueue.tryPop_nil hq
    simp [afterPop, Ledger.tryPop, hnil]
  | cons v rest =>
    obtain ⟨hv, hrest⟩ := ThreadSafeQueue.tryPop_cons hq
    have hclo := l.queue.tryPop_frame.2.2.2
    simp [afterPop, Ledger.tryPop, hv, hrest, hclo]

/-- What a completed critical section does, as far as the waiters are concerned. -/
theorem complete_effect {l l' : Ledger α} {op : Op α} {next : Pc α}
    (h : complete l op = some (l', next)) :
    (∀ op', next ≠ .asleep op') ∧
    -- a push: its credit pays for what it stored
    ((op ≠ .waitAndPop ∧ next ≠ .notifyAllEmpty ∧ l'.queue.closed = l.queue.closed ∧
        l'.queue.capacity = l.queue.capacity ∧
        l.queue.queue.length ≤ l'.queue.queue.length ∧
        l'.queue.queue.length ≤ l.queue.queue.length + next.credit) ∨
    -- a pop: the buffer lost an item and `notify_all` is to come
      (next = .notifyAllFull ∧ l'.queue.closed = l.queue.closed ∧
        l'.queue.queue.length + 1 = l.queue.queue.length) ∨
    -- nothing left to pop
      (l'.queue = l.queue ∧ next = .idle ∧ l.queue.queue = []) ∨
      (next = .notifyAllEmpty ∧ l'.queue = l.queue.close)) := by
  cases op with
  | push v =>
    obtain ⟨r, hr, hr'⟩ := Option.map_eq_some_iff.mp h
    rw [Ledger.push_some hr] at hr'
    cases hr'
    obtain ⟨hasleep, hpush⟩ := afterEnqueue_effect l v
    exact ⟨hasleep, .inl ⟨by simp, hpush⟩⟩
  | tryPush v =>
    cases h
    obtain ⟨hasleep, hpush⟩ := afterEnqueue_effect l v
    exact ⟨hasleep, .inl ⟨by simp, hpush⟩⟩
  | waitAndPop =>
    obtain ⟨r, hr, hr'⟩ := Option.map_eq_some_iff.mp h
    rw [(Ledger.waitAndPop_some hr).2] at hr'
    cases hr'
    obtain ⟨hasleep, hpop⟩ := afterPop_effect l
    exact ⟨hasleep, hpop.elim (fun h => .inr (.inl h)) (fun h => .inr (.inr (.inl h)))⟩
  | tryPop =>
    cases h
    obtain ⟨hasleep, hpop⟩ := afterPop_effect l
    exact ⟨hasleep, hpop.elim (fun h => .inr (.inl h)) (fun h => .inr (.inr (.inl h)))⟩
  | close =>
    cases h
    exact ⟨by simp, .inr (.inr (.inr ⟨rfl, rfl⟩))⟩
  | waitUntilEmpty =>
    simp only [complete] at h
    split at h
    · cases h
      exact ⟨by simp, .inl ⟨by simp, by simp, rfl, rfl, le_rfl, by simp⟩⟩
    · cases h

/-- A thread that goes to sleep saw its predicate false. -/
theorem sleeping_predicate {l : Ledger α} {op : Op α} (h : complete l op = none) :
    (op = .waitAndPop ∧ l.queue.closed = false ∧ l.queue.queue = []) ∨
    (∃ v, op = .push v ∧ l.queue.full = true ∧ l.queue.closed = false) ∨
    (op = .waitUntilEmpty ∧ l.queue.queue ≠ []) := by
  cases op with
  | push v =>
    right; left
    simp only [complete, Option.map_eq_none_iff, Ledger.push] at h
    split at h
    · next hb =>
      have hroom := hb.2
      simp only [ThreadSafeQueue.hasRoom, Bool.or_eq_false_iff, Bool.not_eq_false'] at hroom
      exact ⟨v, rfl, hroom.1, hroom.2⟩
    · cases h
  | waitAndPop =>
    left
    simp only [complete, Option.map_eq_none_iff, Ledger.waitAndPop] at h
    split at h
    · cases h
    · next hi =>
      simpa [ThreadSafeQueue.hasInput, and_comm] using hi
  | waitUntilEmpty =>
    right; right
    simp only [complete] at h
    split at h
    · cases h
    · next he =>
      exact ⟨rfl, by simpa using he⟩
  | tryPush v => cases h
  | tryPop => cases h
  | close => cases h

/-! ## The invariant -/

/-- Every sleeping thread whose predicate may have become true has a wake-up on its way. -/
structure Attended [Fintype ι] (s : State ι α) : Prop where
  consumers : ∀ t, s.threads t = .asleep .waitAndPop →
    (s.books.queue.closed = false ∧
      s.books.queue.queue.length ≤ ∑ t, (s.threads t).credit) ∨ NotEmptyPending s
  producers : ∀ t v, s.threads t = .asleep (.push v) →
    (s.books.queue.full = true ∧ s.books.queue.closed = false) ∨ NotFullPending s
  emptiness : ∀ t, s.threads t = .asleep .waitUntilEmpty →
    s.books.queue.queue ≠ [] ∨ NotFullPending s

section update

variable [DecidableEq ι]

/-- A sleeper after a step of `t` slept before it, unless it is `t` itself. -/
theorem asleep_of_update {f : ι → Pc α} {t u : ι} {pc : Pc α} {op : Op α}
    (h : Function.update f t pc u = .asleep op) (hpc : pc ≠ .asleep op) :
    f u = .asleep op := by
  by_cases hu : u = t
  · subst hu
    rw [Function.update_self] at h
    exact absurd h hpc
  · rwa [Function.update_of_ne hu] at h

/-- A notification owed by a thread is still owed after a step of another one. -/
theorem exists_of_update {f : ι → Pc α} {t : ι} {pc : Pc α} {p : Pc α → Prop}
    (h : ∃ u, p (f u)) (ht : p (f t) → p pc) : ∃ u, p (Function.update f t pc u) := by
  obtain ⟨u, hu⟩ := h
  refine ⟨u, ?_⟩
  by_cases hut : u = t
  · subst hut
    rw [Function.update_self]
    exact ht hu
  · rwa [Function.update_of_ne hut]

/-- So is a pending `notify_all`, which only its own thread can issue. -/
theorem NotEmptyPending.update {s : State ι α} (h : NotEmptyPending s) {t : ι}
    (ht : s.threads t ≠ .notifyAllEmpty) {l : Ledger α} {m : Option ι} {pc : Pc α} :
    NotEmptyPending ⟨l, m, Function.update s.threads t pc⟩ := by
  apply exists_of_update (p := (· = Pc.notifyAllEmpty)) h
  intro h'
  exact absurd h' ht

theorem NotFullPending.update {s : State ι α} (h : NotFullPending s) {t : ι}
    (ht : (s.threads t).owesNotifyFull = false) {l : Ledger α} {m : Option ι} {pc : Pc α} :
    NotFullPending ⟨l, m, Function.update s.threads t pc⟩ := by
  apply exists_of_update (p := fun pc => pc.owesNotifyFull = true) h
  intro h'
  rw [ht] at h'
  cases h'

end update

variable [DecidableEq ι] [Fintype ι]

/-- A step of a thread that owes no `not_full_.notify_all()` and does not go to sleep in `push`
keeps what the waiting producers rely on, as long as the queue stays as it was. -/
theorem Attended.producers_update {s : State ι α} (hs : Attended s) {t u : ι} {pc : Pc α} {v : α}
    (hfull : (s.threads t).owesNotifyFull = false)
    (hu : Function.update s.threads t pc u = .asleep (.push v)) (hpc : pc ≠ .asleep (.push v))
    {l : Ledger α} {m : Option ι} :
    (s.books.queue.full = true ∧ s.books.queue.closed = false) ∨
      NotFullPending ⟨l, m, Function.update s.threads t pc⟩ :=
  (hs.producers u v (asleep_of_update hu hpc)).imp_right (·.update hfull)

/-- The same for the threads in `waitUntilEmpty`. -/
theorem Attended.emptiness_update {s : State ι α} (hs : Attended s) {t u : ι} {pc : Pc α}
    (hfull : (s.threads t).owesNotifyFull = false)
    (hu : Function.update s.threads t pc u = .asleep .waitUntilEmpty)
    (hpc : pc ≠ .asleep .waitUntilEmpty) {l : Ledger α} {m : Option ι} :
    s.books.queue.queue ≠ [] ∨ NotFullPending ⟨l, m, Function.update s.threads t pc⟩ :=
  (hs.emptiness u (asleep_of_update hu hpc)).imp_right (·.update hfull)

/-- A step of `t` that leaves the queue alone, keeps the credit of `t` and what it owes, and
does not put it to sleep. -/
theorem attended_move {s : State ι α} {t : ι} {pc : Pc α} {m : Option ι} (hs : Attended s)
    (hasleep : ∀ op, pc ≠ .asleep op) (hcredit : pc.credit = (s.threads t).credit)
    (hempty : s.threads t ≠ .notifyAllEmpty) (hfull : (s.threads t).owesNotifyFull = false) :
    Attended { s with mutex := m, threads := Function.update s.threads t pc } := by
  refine ⟨?_, ?_, ?_⟩
  · intro u hu
    have hsum := Tally.sum_update_eq (f := s.threads) (i := t) hcredit
    rcases hs.consumers u (asleep_of_update hu (hasleep _)) with ⟨hopen, hlen⟩ | hpend
    · exact .inl ⟨hopen, hlen.trans hsum.ge⟩
    · exact .inr (hpend.update hempty)
  · intro u v hu
    exact hs.producers_update hfull hu (hasleep _)
  · intro u hu
    exact hs.emptiness_update hfull hu (hasleep _)

theorem attended_complete {s : State ι α} {t : ι} {op : Op α} {n : Bool} {l : Ledger α}
    {next : Pc α} (hs : Attended s) (ht : s.threads t = .critical op n)
    (hc : complete s.books op = some (l, next)) :
    Attended { books := l, mutex := none, threads := Function.update s.threads t next } := by
  obtain ⟨hasleep, heffect⟩ := complete_effect hc
  have hempty : s.threads t ≠ .notifyAllEmpty := by simp [ht]
  have hfull : (s.threads t).owesNotifyFull = false := by rw [ht]; rfl
  have hsum := Tally.sum_update_add Pc.credit s.threads t next
  rw [ht] at hsum
  have hone : (Pc.critical op n : Pc α).credit ≤ 1 := by
    simp only [Pc.credit, Pc.owesNotifyOne]
    split <;> simp
  rcases heffect with ⟨hop, -, hclo, hcap, hle, hgrow⟩ | ⟨rfl, hclo, hlen⟩ |
    ⟨hq, rfl, hnil⟩ | ⟨rfl, hq⟩
  · -- a push: what it stored comes with its own credit
    have hzero : (Pc.critical op n : Pc α).credit = 0 := by
      cases op <;> first | rfl | exact absurd rfl hop
    refine ⟨?_, ?_, ?_⟩
    · intro u hu
      rcases hs.consumers u (asleep_of_update hu (hasleep _)) with ⟨hopen, hlen⟩ | hpend
      · refine .inl ⟨hclo.trans hopen, ?_⟩
        dsimp only
        omega
      · exact .inr (hpend.update hempty)
    · intro u v hu
      refine (hs.producers_update hfull hu (hasleep _)).imp_left ?_
      rintro ⟨hf, hopen⟩
      exact ⟨full_of_length_le hcap hle hf, hclo.trans hopen⟩
    · intro u hu
      refine (hs.emptiness_update hfull hu (hasleep _)).imp_left ?_
      intro hne
      rw [← List.length_pos_iff] at hne ⊢
      exact lt_of_lt_of_le hne hle
  · -- a pop: one item and at most one credit less, and `notify_all` is to come
    have hpend : NotFullPending
        { books := l, mutex := none, threads := Function.update s.threads t .notifyAllFull } :=
      ⟨t, by simp [Pc.owesNotifyFull]⟩
    refine ⟨?_, fun _ _ _ => .inr hpend, fun _ _ => .inr hpend⟩
    intro u hu
    rcases hs.consumers u (asleep_of_update hu (hasleep _)) with ⟨hopen, hle⟩ | hpend
    · have hzero : (Pc.notifyAllFull : Pc α).credit = 0 := rfl
      refine .inl ⟨hclo.trans hopen, ?_⟩
      dsimp only
      omega
    · exact .inr (hpend.update hempty)
  · -- nothing to pop: the thread may drop its credit, since there is no item to cover
    refine ⟨?_, ?_, ?_⟩
    · intro u hu
      rcases hs.consumers u (asleep_of_update hu (hasleep _)) with ⟨hopen, -⟩ | hpend
      · left
        dsimp only
        rw [hq, hnil]
        exact ⟨hopen, Nat.zero_le _⟩
      · exact .inr (hpend.update hempty)
    · intro u v hu
      dsimp only
      rw [hq]
      exact hs.producers_update hfull hu (hasleep _)
    · intro u hu
      dsimp only
      rw [hq]
      exact hs.emptiness_update hfull hu (hasleep _)
  · -- `close`: both of its `notify_all` are to come
    have hpendE : NotEmptyPending
        { books := l, mutex := none, threads := Function.update s.threads t .notifyAllEmpty } :=
      ⟨t, by simp⟩
    have hpendF : NotFullPending
        { books := l, mutex := none, threads := Function.update s.threads t .notifyAllEmpty } :=
      ⟨t, by simp [Pc.owesNotifyFull]⟩
    exact ⟨fun _ _ => .inr hpendE, fun _ _ _ => .inr hpendF, fun _ _ => .inr hpendF⟩

/-- A thread that falls asleep and is not a consumer has no credit to take along. -/
theorem consumers_sleep {s : State ι α} {t : ι} {op : Op α} {n : Bool} (hs : Attended s)
    (ht : s.threads t = .critical op n) (hop : op ≠ .waitAndPop) {u : ι}
    (hu : Function.update s.threads t (.asleep op) u = .asleep .waitAndPop) :
    (s.books.queue.closed = false ∧ s.books.queue.queue.length ≤
        ∑ v, (Function.update s.threads t (.asleep op) v).credit) ∨
      NotEmptyPending
        { s with mutex := none, threads := Function.update s.threads t (.asleep op) } := by
  have hcredit : (Pc.asleep op : Pc α).credit = (s.threads t).credit := by
    rw [ht]
    cases op <;> first | rfl | exact absurd rfl hop
  have hsum := Tally.sum_update_eq (f := s.threads) (i := t) hcredit
  have hne : (Pc.asleep op : Pc α) ≠ .asleep .waitAndPop := by simpa using hop
  rcases hs.consumers u (asleep_of_update hu hne) with ⟨hopen, hlen⟩ | hpend
  · exact .inl ⟨hopen, hlen.trans hsum.ge⟩
  · exact .inr (hpend.update (by simp [ht]))

theorem attended_sleep {s : State ι α} {t : ι} {op : Op α} {n : Bool} (hs : Attended s)
    (ht : s.threads t = .critical op n) (hc : complete s.books op = none) :
    Attended { s with mutex := none, threads := Function.update s.threads t (.asleep op) } := by
  have hfull : (s.threads t).owesNotifyFull = false := by rw [ht]; rfl
  rcases sleeping_predicate hc with ⟨rfl, hclo, hnil⟩ | ⟨v, rfl, hf, hclo⟩ | ⟨rfl, hne⟩
  · -- the sleeper takes its credit along, but it saw an empty buffer
    refine ⟨?_, ?_, ?_⟩
    · intro _ _
      left
      dsimp only
      rw [hnil]
      exact ⟨hclo, Nat.zero_le _⟩
    · intro u v hu
      exact hs.producers_update hfull hu (by simp)
    · intro u hu
      exact hs.emptiness_update hfull hu (by simp)
  · refine ⟨fun u => consumers_sleep hs ht (by simp), fun _ _ _ => .inl ⟨hf, hclo⟩, ?_⟩
    intro u hu
    exact hs.emptiness_update hfull hu (by simp)
  · refine ⟨fun u => consumers_sleep hs ht (by simp), ?_, fun _ _ => .inl hne⟩
    intro u v hu
    exact hs.producers_update hfull hu (by simp)

theorem attended_notifyOne {s : State ι α} {t w : ι} (hs : Attended s)
    (ht : s.threads t = .notifyOne) (hw : s.threads w = .asleep .waitAndPop) :
    Attended { s with
      threads := Function.update (Function.update s.threads t .idle) w
        (.locking .waitAndPop true) } := by
  have hwt : w ≠ t := by
    rintro rfl
    rw [ht] at hw
    cases hw
  have hw' : Function.update s.threads t .idle w = .asleep .waitAndPop := by
    rw [Function.update_of_ne hwt, hw]
  -- the credit of the notification moves from `t` to the consumer it wakes
  have hidle := Tally.sum_update_add Pc.credit s.threads t .idle
  have hwake := Tally.sum_update_add Pc.credit (Function.update s.threads t .idle) w
    (.locking .waitAndPop true)
  rw [hw'] at hwake
  rw [ht] at hidle
  have hcredits : (Pc.notifyOne : Pc α).credit = 1 ∧ (Pc.idle : Pc α).credit = 0 ∧
      (Pc.asleep .waitAndPop : Pc α).credit = 0 ∧
      (Pc.locking .waitAndPop true : Pc α).credit = 1 := ⟨rfl, rfl, rfl, rfl⟩
  -- neither of the two threads that change owes a `notify_all`
  have hidleE : NotEmptyPending s →
      NotEmptyPending { s with threads := Function.update s.threads t .idle } :=
    fun hpend => hpend.update (by simp [ht])
  have hidleF : NotFullPending s →
      NotFullPending { s with threads := Function.update s.threads t .idle } :=
    fun hpend => hpend.update (by rw [ht]; rfl)
  have hback : ∀ {u op}, Function.update (Function.update s.threads t .idle) w
      (.locking .waitAndPop true) u = .asleep op → s.threads u = .asleep op := by
    intro u op hu
    exact asleep_of_update (asleep_of_update hu (by simp)) (by simp)
  refine ⟨?_, ?_, ?_⟩
  · intro u hu
    rcases hs.consumers u (hback hu) with ⟨hopen, hlen⟩ | hpend
    · refine .inl ⟨hopen, ?_⟩
      dsimp only
      omega
    · exact .inr ((hidleE hpend).update (by simp [hw']))
  · intro u v hu
    refine (hs.producers u v (hback hu)).imp_right ?_
    exact fun hpend => (hidleF hpend).update (by simp [hw', Pc.owesNotifyFull])
  · intro u hu
    refine (hs.emptiness u (hback hu)).imp_right ?_
    exact fun hpend => (hidleF hpend).update (by simp [hw', Pc.owesNotifyFull])

omit [DecidableEq ι] [Fintype ι] in
/-- `not_empty_.notify_all()` leaves no consumer asleep. -/
theorem wakeNotEmpty_asleep {pc : Pc α} {op : Op α} (h : pc.wakeNotEmpty = .asleep op) :
    op ≠ .waitAndPop := by
  rintro rfl
  cases pc with
  | asleep op => cases op <;> cases h
  | _ => cases h

theorem attended_notifyAllEmpty (s : State ι α) (t : ι) :
    Attended { s with
      threads := Function.update (fun w => (s.threads w).wakeNotEmpty) t .notifyAllFull } := by
  have hpend : NotFullPending { s with
      threads := Function.update (fun w => (s.threads w).wakeNotEmpty) t .notifyAllFull } :=
    ⟨t, by simp [Pc.owesNotifyFull]⟩
  refine ⟨?_, fun _ _ _ => .inr hpend, fun _ _ => .inr hpend⟩
  intro u hu
  have hwoken := asleep_of_update (f := fun w => (s.threads w).wakeNotEmpty) hu (by simp)
  exact absurd rfl (wakeNotEmpty_asleep hwoken)

omit [DecidableEq ι] [Fintype ι] in
theorem wakeNotFull_credit (pc : Pc α) : pc.wakeNotFull.credit = pc.credit := by
  cases pc with
  | asleep op => cases op <;> rfl
  | _ => rfl

omit [DecidableEq ι] [Fintype ι] in
/-- `not_full_.notify_all()` leaves neither kind of its waiters asleep. -/
theorem wakeNotFull_asleep {pc : Pc α} {op : Op α} (h : pc.wakeNotFull = .asleep op) :
    pc = .asleep op ∧ (∀ v, op ≠ .push v) ∧ op ≠ .waitUntilEmpty := by
  cases pc with
  | asleep op' =>
    cases op' with
    | push v | waitUntilEmpty => cases h
    | _ =>
      cases h
      simp
  | _ => cases h

theorem attended_notifyAllFull {s : State ι α} {t : ι} (hs : Attended s)
    (ht : s.threads t = .notifyAllFull) :
    Attended { s with
      threads := Function.update (fun w => (s.threads w).wakeNotFull) t .idle } := by
  have hback : ∀ {u op}, Function.update (fun w => (s.threads w).wakeNotFull) t .idle u
      = .asleep op → s.threads u = .asleep op ∧ (∀ v, op ≠ .push v) ∧ op ≠ .waitUntilEmpty := by
    intro u op hu
    exact wakeNotFull_asleep
      (asleep_of_update (f := fun w => (s.threads w).wakeNotFull) hu (by simp))
  refine ⟨?_, ?_, ?_⟩
  · intro u hu
    rcases hs.consumers u (hback hu).1 with ⟨hopen, hlen⟩ | ⟨w, hw⟩
    · have hsum := Tally.sum_update_add Pc.credit (fun w => (s.threads w).wakeNotFull) t .idle
      simp only [wakeNotFull_credit, ht] at hsum
      have hzero : (Pc.notifyAllFull : Pc α).credit = 0 ∧ (Pc.idle : Pc α).credit = 0 :=
        ⟨rfl, rfl⟩
      refine .inl ⟨hopen, ?_⟩
      dsimp only
      omega
    · -- the other `notify_all` belongs to another thread, which this one does not wake
      have hwt : w ≠ t := by
        rintro rfl
        rw [ht] at hw
        cases hw
      refine .inr ⟨w, ?_⟩
      dsimp only
      rw [Function.update_of_ne hwt, hw]
      rfl
  · intro u v hu
    exact absurd rfl ((hback hu).2.1 v)
  · intro u hu
    exact absurd rfl (hback hu).2.2

theorem attended_step {s s' : State ι α} (h : Step s s') (hs : Attended s) : Attended s' := by
  cases h with
  | call t op ht | acquire t op n ht hm | spurious t op ht =>
    refine attended_move hs (by simp) ?_ (by simp [ht]) (by rw [ht]; rfl)
    rw [ht]
    cases op <;> rfl
  | complete t op n l next ht hc => exact attended_complete hs ht hc
  | sleep t op n ht hc => exact attended_sleep hs ht hc
  | notifyOne t w ht hw => exact attended_notifyOne hs ht hw
  | notifyNobody t ht hw =>
    -- the credit of a notification that meets no sleeping consumer is lost, and not needed
    have hfull : (s.threads t).owesNotifyFull = false := by rw [ht]; rfl
    refine ⟨?_, ?_, ?_⟩
    · intro u hu
      exact absurd (asleep_of_update hu (by simp)) (hw u)
    · intro u v hu
      exact hs.producers_update hfull hu (by simp)
    · intro u hu
      exact hs.emptiness_update hfull hu (by simp)
  | notifyAllEmpty t ht => exact attended_notifyAllEmpty s t
  | notifyAllFull t ht => exact attended_notifyAllFull hs ht

theorem attended_of_reaches {capacity : ℕ} {policy : OverflowPolicy} {hcap : 0 < capacity}
    {s : State ι α} (h : Lts.Reaches step (start capacity policy hcap) s) : Attended s :=
  h.invariant (fun _ _ _ hst => attended_step (step_cases hst))
    ⟨by simp [start], by simp [start], by simp [start]⟩

/-! ## No thread sleeps through its wake-up -/

/-- No thread is notified but not run, and no notification is pending. -/
def Quiet (s : State ι α) : Prop :=
  ∀ t, (s.threads t).notified = false ∧ (s.threads t).owesNotifyOne = false ∧
    (s.threads t).owesNotifyFull = false

omit [DecidableEq ι] in
theorem quiet_credits {s : State ι α} (h : Quiet s) : ∑ t, (s.threads t).credit = 0 := by
  refine sum_eq_zero ?_
  intro t _
  obtain ⟨hn, ho, -⟩ := h t
  cases hpc : s.threads t with
  | locking op n | critical op n =>
    rw [hpc] at hn
    obtain rfl : n = false := hn
    cases op <;> rfl
  | notifyOne =>
    rw [hpc] at ho
    cases ho
  | _ => rfl

/-- In every reachable state of the monitor, for any capacity, policy, threads and calls:
(1) while a `waitAndPop` caller sleeps un-notified, the queue is open and its items are covered
by consumers notified but not run and `notify_one` calls pending, or the `notify_all` of
`close` is pending; (2) while a `Block` push sleeps, the queue is full and open or a
`notify_all` is pending; (3) while a `waitUntilEmpty` sleeps, the buffer is not empty or a
`notify_all` is pending. Hence once nothing is pending and nobody is notified but not run, every
sleeping thread's predicate is false. -/
theorem no_lost_wake_up (capacity : ℕ) (policy : OverflowPolicy) (hcap : 0 < capacity)
    (s : State ι α) (h : Lts.Reaches step (start capacity policy hcap) s) :
    (∀ t, s.threads t = .asleep .waitAndPop →
      (s.books.queue.closed = false ∧
        s.books.queue.queue.length ≤ notifiedConsumers s + pendingNotifyOnes s) ∨
      NotEmptyPending s) ∧
    (∀ t v, s.threads t = .asleep (.push v) →
      (s.books.queue.full = true ∧ s.books.queue.closed = false) ∨ NotFullPending s) ∧
    (∀ t, s.threads t = .asleep .waitUntilEmpty →
      s.books.queue.queue ≠ [] ∨ NotFullPending s) ∧
    (Quiet s → ∀ t,
      (s.threads t = .asleep .waitAndPop → s.books.queue.hasInput = false) ∧
      (∀ v, s.threads t = .asleep (.push v) → s.books.queue.hasRoom = false) ∧
      (s.threads t = .asleep .waitUntilEmpty → s.books.queue.queue ≠ [])) := by
  have hs := attended_of_reaches h
  refine ⟨?_, hs.producers, hs.emptiness, ?_⟩
  · rw [credits_eq]
    exact hs.consumers
  · intro hq t
    have hE : ¬ NotEmptyPending s := by
      rintro ⟨u, hu⟩
      have := (hq u).2.2
      rw [hu] at this
      cases this
    have hF : ¬ NotFullPending s := by
      rintro ⟨u, hu⟩
      rw [(hq u).2.2] at hu
      cases hu
    refine ⟨?_, ?_, fun ht => (hs.emptiness t ht).resolve_right hF⟩
    · intro ht
      obtain ⟨hopen, hlen⟩ := (hs.consumers t ht).resolve_right hE
      rw [quiet_credits hq, Nat.le_zero, List.length_eq_zero_iff] at hlen
      simp [ThreadSafeQueue.hasInput, hopen, hlen]
    · intro v ht
      obtain ⟨hfull, hopen⟩ := (hs.producers t v ht).resolve_right hF
      simp [ThreadSafeQueue.hasRoom, hfull, hopen]

/-- A consumer asleep while a push has stored an item and not yet notified: the item is covered
by the pending `notify_one`. -/
theorem no_lost_wake_up_one_item :
    ∃ s : State (Fin 2) ℕ, Lts.Reaches step (start 1 .block (by decide)) s ∧
      s.threads 0 = .asleep .waitAndPop ∧ s.books.queue.queue = [7] ∧
      ((s.books.queue.closed = false ∧
        s.books.queue.queue.length ≤ notifiedConsumers s + pendingNotifyOnes s) ∨
      NotEmptyPending s) := by
  obtain ⟨s, hrun, hasleep, hq⟩ := Lts.exists_run step
    (start 1 .block (by decide) : State (Fin 2) ℕ)
    [.call 0 .waitAndPop, .acquire 0, .body 0, .call 1 (.push 7), .acquire 1, .body 1]
    (fun s => (s.threads 0).onNotEmpty = true ∧ s.books.queue.queue = [7]) (by decide)
  have hreach : Lts.Reaches step (start 1 .block (by decide)) s := ⟨_, hrun⟩
  have h0 : s.threads 0 = .asleep .waitAndPop := onNotEmpty_iff.mp hasleep
  exact ⟨s, hreach, h0, hq, (no_lost_wake_up 1 .block (by decide) s hreach).1 0 h0⟩

end RadarRT.Monitor
