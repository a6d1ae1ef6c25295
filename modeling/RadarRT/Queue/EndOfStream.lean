import Mathlib.Algebra.BigOperators.Fin
import Mathlib.Algebra.Order.BigOperators.Group.Finset
import Mathlib.Algebra.Order.Group.Multiset
import Mathlib.Data.Fintype.Basic
import RadarRT.Lib.Tally
import RadarRT.Queue.Accounting

/-!
# End of stream with any number of producers and consumers

Producers push their own lists in order, consumers loop on `waitAndPop` until it returns
`nullopt`, and `close` may happen at any moment, any number of times. An item carries the
producer that pushed it and its place in that producer's list, so that items are told apart
even when their values are equal. A producer does not look at what `push` returned: one that
stops after a `false` is a producer that takes no further step.
-/

namespace RadarRT.EndOfStream

open Finset

/-- The `index`-th item of the list of `producer`. -/
structure Item (π β : Type*) where
  producer : π
  index : ℕ
  value : β
deriving DecidableEq

/-- The queue with its books, how many pushes each producer completed, and for each consumer
what it was given so far and whether it has left its loop. -/
structure Exchange (π κ β : Type*) where
  books : Ledger (Item π β)
  pushed : π → ℕ
  consumed : κ → List (Item π β)
  ended : κ → Bool

inductive Move (π κ : Type*) where
  | push (p : π)
  | pop (c : κ)
  | close

variable {π κ β : Type*} [DecidableEq π] [DecidableEq κ]

/-- Nothing pushed, nothing popped. -/
def start (capacity : ℕ) (policy : OverflowPolicy) (h : 0 < capacity) : Exchange π κ β where
  books := .opened capacity policy h
  pushed := fun _ => 0
  consumed := fun _ => []
  ended := fun _ => false

/-- What a consumer does with the result of its `waitAndPop`. -/
def take (s : Exchange π κ β) (c : κ) (r : Option (Item π β) × Ledger (Item π β)) :
    Exchange π κ β :=
  match r.1 with
  | some x => { s with
      books := r.2
      consumed := Function.update s.consumed c (s.consumed c ++ [x]) }
  | none => { s with
      books := r.2
      ended := Function.update s.ended c true }

def step (lists : π → List β) (s : Exchange π κ β) : Move π κ → Option (Exchange π κ β)
  | .push p =>
    match (lists p)[s.pushed p]? with
    | none => none
    | some v => (s.books.push ⟨p, s.pushed p, v⟩ false).map fun r => { s with
        books := r.2
        pushed := Function.update s.pushed p (s.pushed p + 1) }
  | .pop c => if s.ended c then none else s.books.waitAndPop.map (take s c)
  | .close => some { s with books := s.books.close }

/-! ## What a move can do -/

variable {lists : π → List β}

theorem step_cases {s s' : Exchange π κ β} {m : Move π κ} (h : step lists s m = some s') :
    (∃ p v, m = .push p ∧ (lists p)[s.pushed p]? = some v ∧
      (s.books.push ⟨p, s.pushed p, v⟩ false).isSome ∧
      s' = { s with
        books := (s.books.enqueue ⟨p, s.pushed p, v⟩ false).2
        pushed := Function.update s.pushed p (s.pushed p + 1) }) ∨
    (∃ c, m = .pop c ∧ s.ended c = false ∧ s.books.queue.hasInput = true ∧
      s' = take s c s.books.tryPop) ∨
    (m = .close ∧ s' = { s with books := s.books.close }) := by
  cases m with
  | push p =>
    left
    simp only [step] at h
    split at h
    · cases h
    · next v hv =>
      obtain ⟨r, hr, rfl⟩ := Option.map_eq_some_iff.mp h
      exact ⟨p, v, rfl, hv, by simp [hr], by rw [Ledger.push_some hr]⟩
  | pop c =>
    right; left
    simp only [step] at h
    split at h
    · cases h
    · next hc =>
      obtain ⟨r, hr, rfl⟩ := Option.map_eq_some_iff.mp h
      obtain ⟨hi, rfl⟩ := Ledger.waitAndPop_some hr
      exact ⟨c, rfl, by simpa using hc, hi, rfl⟩
  | close =>
    right; right
    cases h
    exact ⟨rfl, rfl⟩

omit [DecidableEq π] in
/-- A pop hands the front item to the consumer, or ends the consumer on a closed, empty
queue. -/
theorem take_cases {s : Exchange π κ β} {c : κ} (hi : s.books.queue.hasInput = true) :
    (∃ x rest, s.books.queue.queue = x :: rest ∧
      take s c s.books.tryPop = { s with
        books := s.books.tryPop.2
        consumed := Function.update s.consumed c (s.consumed c ++ [x]) } ∧
      s.books.tryPop.2.popped = s.books.popped ++ [x] ∧
      s.books.tryPop.2.queue.queue = rest) ∨
    (s.books.queue.queue = [] ∧ s.books.queue.closed = true ∧
      take s c s.books.tryPop = { s with
        books := s.books.tryPop.2
        ended := Function.update s.ended c true } ∧
      s.books.tryPop.2.popped = s.books.popped ∧ s.books.tryPop.2.queue = s.books.queue) := by
  cases hq : s.books.queue.queue with
  | nil =>
    right
    have hpop := ThreadSafeQueue.tryPop_nil hq
    have hc : s.books.queue.closed = true := by
      simpa [ThreadSafeQueue.hasInput, hq] using hi
    refine ⟨rfl, hc, ?_, ?_, ?_⟩
    · simp [take, Ledger.tryPop, hpop]
    · simp [Ledger.tryPop, Ledger.popped, hpop]
    · simp [Ledger.tryPop, hpop]
  | cons x rest =>
    left
    obtain ⟨hx, hrest⟩ := ThreadSafeQueue.tryPop_cons hq
    refine ⟨x, rest, rfl, ?_, ?_, ?_⟩
    · simp [take, Ledger.tryPop, hx]
    · simp [Ledger.tryPop, Ledger.popped, hx, departed_append]
    · exact hrest

theorem step_policy {s s' : Exchange π κ β} {m : Move π κ} (h : step lists s m = some s') :
    s'.books.queue.policy = s.books.queue.policy := by
  rcases step_cases h with ⟨p, v, -, -, -, rfl⟩ | ⟨c, -, -, hi, rfl⟩ | ⟨-, rfl⟩
  · exact (s.books.queue.enqueueLocked_frame ⟨p, s.pushed p, v⟩ false).2.1
  · have hpol := s.books.queue.tryPop_frame.2.1
    rcases take_cases (c := c) hi with ⟨x, rest, -, hs', -⟩ | ⟨-, -, hs', -⟩ <;>
      rw [hs'] <;> exact hpol
  · rfl

/-! ## The invariant -/

/-- Two items of one producer, the first pushed before the second. -/
def InOrder (x y : Item π β) : Prop := x.producer = y.producer → x.index < y.index

/-- The items of one producer, as a list of values. -/
def valuesOf (p : π) (xs : List (Item π β)) : List β :=
  (xs.filter fun x => x.producer = p).map Item.value

/-- What ties the books to the producers and the consumers. -/
structure Sound [Fintype κ] (lists : π → List β) (s : Exchange π κ β) : Prop where
  /-- An accepted item was pushed by its producer, from its place in the list. -/
  origin : ∀ x ∈ s.books.accepted,
    x.index < s.pushed x.producer ∧ (lists x.producer)[x.index]? = some x.value
  ordered : s.books.accepted.Pairwise InOrder
  /-- What a consumer holds was popped, in that order. -/
  given : ∀ c, (s.consumed c).Sublist s.books.popped
  /-- The consumers together hold what was popped, each item once. -/
  shared : (∑ c, (s.consumed c : Multiset (Item π β))) = s.books.popped
  /-- A consumer left only at the end of the stream. -/
  drained : ∀ c, s.ended c = true →
    s.books.queue.closed = true ∧ s.books.queue.queue = []
  /-- Under `Block` the accepted items of a producer are an initial part of its list, and all
  it pushed while the queue is open. -/
  initial : s.books.queue.policy = .block → ∀ p, ∃ n,
    valuesOf p s.books.accepted = (lists p).take n ∧ n ≤ s.pushed p ∧
      (s.books.queue.closed = false → n = s.pushed p)

variable [Fintype κ]

omit [DecidableEq κ] in
theorem sound_start {capacity : ℕ} {policy : OverflowPolicy} {h : 0 < capacity} :
    Sound lists (start capacity policy h : Exchange π κ β) where
  origin := by simp [start, Ledger.opened]
  ordered := List.Pairwise.nil
  given := fun _ => List.nil_sublist _
  shared := by simp [start, Ledger.opened, Ledger.popped]
  drained := by simp [start]
  initial := fun _ p => ⟨0, rfl, le_rfl, fun _ => rfl⟩

omit [DecidableEq κ] [Fintype κ] in
theorem pushed_le_update (s : Exchange π κ β) (p q : π) :
    s.pushed q ≤ Function.update s.pushed p (s.pushed p + 1) q := by
  by_cases hq : q = p
  · subst hq
    simp
  · simp [hq]

omit [DecidableEq κ] in
theorem origin_push {s : Exchange π κ β} {p : π} {v : β} (hs : Sound lists s)
    (hv : (lists p)[s.pushed p]? = some v) :
    ∀ x ∈ (s.books.enqueue ⟨p, s.pushed p, v⟩ false).2.accepted,
      x.index < Function.update s.pushed p (s.pushed p + 1) x.producer ∧
        (lists x.producer)[x.index]? = some x.value := by
  have hold : ∀ x ∈ s.books.accepted,
      x.index < Function.update s.pushed p (s.pushed p + 1) x.producer ∧
        (lists x.producer)[x.index]? = some x.value := by
    intro x hx
    obtain ⟨hlt, hvalue⟩ := hs.origin x hx
    exact ⟨lt_of_lt_of_le hlt (pushed_le_update s p _), hvalue⟩
  rcases s.books.enqueue_accepted ⟨p, s.pushed p, v⟩ false with hacc | hacc
  · rw [hacc]
    intro x hx
    rcases List.mem_append.mp hx with hx | hx
    · exact hold x hx
    · rw [List.mem_singleton] at hx
      subst hx
      exact ⟨by simp, hv⟩
  · rw [hacc]
    exact hold

omit [DecidableEq κ] in
theorem ordered_push {s : Exchange π κ β} {p : π} {v : β} (hs : Sound lists s) :
    (s.books.enqueue ⟨p, s.pushed p, v⟩ false).2.accepted.Pairwise InOrder := by
  rcases s.books.enqueue_accepted ⟨p, s.pushed p, v⟩ false with hacc | hacc
  · rw [hacc]
    refine List.pairwise_append.mpr ⟨hs.ordered, List.pairwise_singleton _ _, ?_⟩
    intro x hx y hy hxp
    rw [List.mem_singleton] at hy
    subst hy
    -- what the producer pushed before has a smaller place in its list
    have := (hs.origin x hx).1
    rw [hxp] at this
    exact this
  · rw [hacc]
    exact hs.ordered

omit [DecidableEq κ] in
theorem initial_push {s : Exchange π κ β} {p : π} {v : β} (hs : Sound lists s)
    (hv : (lists p)[s.pushed p]? = some v)
    (hpush : (s.books.push ⟨p, s.pushed p, v⟩ false).isSome)
    (hb : s.books.queue.policy = .block) (q : π) :
    ∃ n, valuesOf q (s.books.enqueue ⟨p, s.pushed p, v⟩ false).2.accepted = (lists q).take n ∧
      n ≤ Function.update s.pushed p (s.pushed p + 1) q ∧
      ((s.books.enqueue ⟨p, s.pushed p, v⟩ false).2.queue.closed = false →
        n = Function.update s.pushed p (s.pushed p + 1) q) := by
  have hclo := (s.books.queue.enqueueLocked_frame ⟨p, s.pushed p, v⟩ false).2.2
  obtain ⟨n, hn, hle, hopen⟩ := hs.initial hb q
  rcases Ledger.enqueue_block hb hpush with ⟨hc, hacc⟩ | ⟨hc, hacc⟩
  · -- a closed queue takes nothing more, so the part it took stays as it is
    refine ⟨n, by rw [hacc]; exact hn, hle.trans (pushed_le_update s p q), ?_⟩
    intro h
    rw [show (s.books.enqueue ⟨p, s.pushed p, v⟩ false).2.queue.closed = true from
      hclo.trans hc] at h
    cases h
  · -- an open queue took the item, the next one of its producer
    have hnq := hopen hc
    by_cases hq : q = p
    · subst hq
      refine ⟨n + 1, ?_, by simp [hnq], fun _ => by simp [hnq]⟩
      rw [hacc]
      rw [← hnq] at hv
      simp only [valuesOf, List.filter_append, List.map_append] at hn ⊢
      rw [hn, List.take_add_one, hv]
      simp
    · refine ⟨n, ?_, by simpa [hq] using hle, fun _ => by simpa [hq] using hnq⟩
      rw [hacc]
      simp only [valuesOf, List.filter_append, List.map_append] at hn ⊢
      simpa [Ne.symm hq] using hn

omit [DecidableEq κ] in
theorem sound_push {s : Exchange π κ β} {p : π} {v : β} (hs : Sound lists s)
    (hv : (lists p)[s.pushed p]? = some v)
    (hpush : (s.books.push ⟨p, s.pushed p, v⟩ false).isSome) :
    Sound lists { s with
      books := (s.books.enqueue ⟨p, s.pushed p, v⟩ false).2
      pushed := Function.update s.pushed p (s.pushed p + 1) } := by
  refine ⟨origin_push hs hv, ordered_push hs, ?_, ?_, ?_, ?_⟩
  · intro c
    rw [Ledger.enqueue_popped]
    exact hs.given c
  · rw [Ledger.enqueue_popped]
    exact hs.shared
  · intro c hc
    -- somebody has seen the end of the stream: the push finds the queue closed
    obtain ⟨hclosed, hempty⟩ := hs.drained c hc
    have hq : (s.books.enqueue ⟨p, s.pushed p, v⟩ false).2.queue = s.books.queue := by
      simp [Ledger.enqueue, ThreadSafeQueue.enqueueLocked_closed hclosed]
    rw [hq]
    exact ⟨hclosed, hempty⟩
  · intro hb q
    have hpol := (s.books.queue.enqueueLocked_frame ⟨p, s.pushed p, v⟩ false).2.1
    exact initial_push hs hv hpush (hpol.symm.trans hb) q

theorem sound_pop {s : Exchange π κ β} {c : κ} (hs : Sound lists s)
    (hi : s.books.queue.hasInput = true) : Sound lists (take s c s.books.tryPop) := by
  obtain ⟨-, hpol, -, hclo⟩ := s.books.queue.tryPop_frame
  rcases take_cases (c := c) hi with
    ⟨x, rest, hq, hs', hpopped, hbuf⟩ | ⟨hq, hc, hs', hpopped, hqueue⟩
  · -- the consumer gets the front item
    rw [hs']
    refine ⟨hs.origin, hs.ordered, ?_, ?_, ?_, ?_⟩
    · intro c'
      simp only [hpopped]
      by_cases hcc : c' = c
      · subst hcc
        rw [Function.update_self]
        exact (hs.given c').append (List.Sublist.refl [x])
      · rw [Function.update_of_ne hcc]
        exact (hs.given c').trans (List.sublist_append_left _ _)
    · have h := Tally.sum_update_add (fun xs : List (Item π β) => (xs : Multiset (Item π β)))
        s.consumed c (s.consumed c ++ [x])
      simp only [hs.shared, ← Multiset.coe_add] at h
      rw [add_comm (s.consumed c : Multiset (Item π β)), ← add_assoc,
        add_left_inj (s.consumed c : Multiset (Item π β))] at h
      rw [h, hpopped, ← Multiset.coe_add]
    · intro c' hc'
      -- nobody has left: there was an item to pop
      have := (hs.drained c' hc').2
      rw [hq] at this
      cases this
    · intro hb p
      obtain ⟨n, hn, hle, hopen⟩ := hs.initial (hpol.symm.trans hb) p
      exact ⟨n, hn, hle, fun h => hopen (hclo.symm.trans h)⟩
  · -- the consumer leaves its loop
    rw [hs']
    refine ⟨hs.origin, hs.ordered, ?_, ?_, ?_, ?_⟩
    · intro c'
      rw [hpopped]
      exact hs.given c'
    · rw [hpopped]
      exact hs.shared
    · intro c' _
      rw [hqueue]
      exact ⟨hc, hq⟩
    · intro hb p
      rw [hqueue] at hb ⊢
      exact hs.initial hb p

omit [DecidableEq κ] in
theorem sound_close {s : Exchange π κ β} (hs : Sound lists s) :
    Sound lists { s with books := s.books.close } where
  origin := hs.origin
  ordered := hs.ordered
  given := hs.given
  shared := hs.shared
  drained := fun c hc => ⟨rfl, (hs.drained c hc).2⟩
  initial := fun hb p => by
    obtain ⟨n, hn, hle, -⟩ := hs.initial hb p
    exact ⟨n, hn, hle, fun h => Bool.noConfusion h⟩

theorem sound_step {s s' : Exchange π κ β} {m : Move π κ} (h : step lists s m = some s')
    (hs : Sound lists s) : Sound lists s' := by
  rcases step_cases h with ⟨p, v, -, hv, hpush, rfl⟩ | ⟨c, -, -, hi, rfl⟩ | ⟨-, rfl⟩
  · exact sound_push hs hv hpush
  · exact sound_pop hs hi
  · exact sound_close hs

theorem sound_of_reaches {capacity : ℕ} {policy : OverflowPolicy} {hcap : 0 < capacity}
    {s : Exchange π κ β} (h : Lts.Reaches (step lists) (start capacity policy hcap) s) :
    Sound lists s :=
  h.invariant (fun _ _ _ hst hs => sound_step hst hs) sound_start

/-! ## End of stream -/

omit [DecidableEq π] [Fintype κ] [DecidableEq κ] in
/-- No item is accepted twice. -/
theorem nodup_of_ordered {xs : List (Item π β)} (h : xs.Pairwise InOrder) : xs.Nodup := by
  refine h.imp fun {x y} hxy hEq => ?_
  subst hEq
  exact lt_irrefl _ (hxy rfl)

/-- The queue is closed and everything it accepted has been popped or evicted. -/
def Exhausted (s : Exchange π κ β) : Prop :=
  s.books.queue.closed = true ∧ s.books.queue.queue = []

omit [Fintype κ] in
/-- An exhausted queue stays exhausted. -/
theorem exhausted_step {s s' : Exchange π κ β} {m : Move π κ} (h : step lists s m = some s')
    (hs : Exhausted s) : Exhausted s' := by
  obtain ⟨hc, hq⟩ := hs
  rcases step_cases h with ⟨p, v, -, -, -, rfl⟩ | ⟨c, -, -, hi, rfl⟩ | ⟨-, rfl⟩
  · have henq := ThreadSafeQueue.enqueueLocked_closed hc ⟨p, s.pushed p, v⟩ false
    simp only [Exhausted, Ledger.enqueue, henq]
    exact ⟨hc, hq⟩
  · have hpop := ThreadSafeQueue.tryPop_nil hq
    simp only [take, Exhausted, Ledger.tryPop, hpop]
    exact ⟨hc, hq⟩
  · exact ⟨rfl, hq⟩

omit [DecidableEq π] in
/-- What every operation returns on an exhausted queue. -/
theorem exhausted_results {q : ThreadSafeQueue (Item π β)} (hc : q.closed = true)
    (hq : q.queue = []) (x : Item π β) (f : Bool) :
    q.waitAndPop = some (none, q) ∧ q.tryPop = (none, q) ∧
      q.push x f = some (.ok false, q) ∧ q.tryPush x f = (.ok false, q) := by
  have hpop := ThreadSafeQueue.tryPop_nil hq
  refine ⟨?_, hpop, Ledger.push_closed hc x f, ThreadSafeQueue.enqueueLocked_closed hc x f⟩
  simp [ThreadSafeQueue.waitAndPop, ThreadSafeQueue.hasInput, hc, hpop]

omit [Fintype κ] in
/-- A consumer that leaves its loop at a move found the queue exhausted before it. -/
theorem exhausted_of_ends {s s' : Exchange π κ β} {c : κ} (h : step lists s (.pop c) = some s')
    (hend : s'.ended c = true) : Exhausted s := by
  rcases step_cases h with ⟨p, v, hm, -⟩ | ⟨c', hm, hlive, hi, rfl⟩ | ⟨hm, -⟩
  · cases hm
  · cases hm
    rcases take_cases (c := c) hi with ⟨x, rest, -, hs', -⟩ | ⟨hq, hc, -⟩
    · rw [hs', hlive] at hend
      cases hend
    · exact ⟨hc, hq⟩
  · cases hm

/-- For every capacity and policy, any producers and consumers, and `close` at any moment:
(a) a consumer that gets `nullopt` found the queue closed with every accepted item popped or
evicted, and in any continuation every pop returns `nullopt` and every push `false`; (b) once
all the consumers have ended, what they hold is disjoint and, with the evicted items, exactly
what was accepted; (c) each consumer holds the items of a producer in that producer's push
order; (d) under `Block` the accepted items of a producer are a prefix of its list. -/
theorem end_of_stream_final (lists : π → List β) (capacity : ℕ) (policy : OverflowPolicy)
    (hcap : 0 < capacity) (s : Exchange π κ β)
    (hs : Lts.Reaches (step lists) (start capacity policy hcap) s) :
    (∀ c s', step lists s (.pop c) = some s' → s'.ended c = true →
      s.books.queue.closed = true ∧ (s.books.popped ++ s.books.evicted).Perm s.books.accepted ∧
      ∀ s'', Lts.Reaches (step lists) s' s'' → ∀ x f,
        s''.books.queue.waitAndPop = some (none, s''.books.queue) ∧
        s''.books.queue.tryPop = (none, s''.books.queue) ∧
        s''.books.queue.push x f = some (.ok false, s''.books.queue) ∧
        s''.books.queue.tryPush x f = (.ok false, s''.books.queue)) ∧
    (Nonempty κ → (∀ c, s.ended c = true) →
      (∀ c c', c ≠ c' → (s.consumed c).Disjoint (s.consumed c')) ∧
      (∑ c, (s.consumed c : Multiset (Item π β))) + (s.books.evicted : Multiset (Item π β))
        = s.books.accepted) ∧
    (∀ c, (s.consumed c).Pairwise InOrder ∧
      ∀ x ∈ s.consumed c, (lists x.producer)[x.index]? = some x.value) ∧
    (policy = .block → ∀ p, valuesOf p s.books.accepted <+: lists p) := by
  have hsound := sound_of_reaches hs
  have hheld : ∀ c, (s.consumed c).Sublist s.books.accepted :=
    fun c => (hsound.given c).trans s.books.popped_sublist
  refine ⟨?_, ?_, ?_, ?_⟩
  · intro c s' hstep hend
    have hex := exhausted_of_ends hstep hend
    have hperm := s.books.accepted_perm
    rw [hex.2, List.append_nil] at hperm
    refine ⟨hex.1, hperm, ?_⟩
    intro s'' hcont x f
    have hex'' : Exhausted s'' := hcont.invariant
      (fun _ _ _ hst h => exhausted_step hst h) (exhausted_step hstep hex)
    exact exhausted_results hex''.1 hex''.2 x f
  · rintro ⟨c₀⟩ hall
    have hperm := s.books.accepted_perm
    rw [(hsound.drained c₀ (hall c₀)).2, List.append_nil] at hperm
    refine ⟨?_, ?_⟩
    · -- two consumers holding one item would make the list of popped items repeat it
      intro c c' hne
      have hnodup : (s.books.popped : Multiset (Item π β)).Nodup :=
        Multiset.coe_nodup.mpr
          ((nodup_of_ordered hsound.ordered).sublist s.books.popped_sublist)
      rw [← hsound.shared] at hnodup
      have hpair : ∑ d ∈ ({c, c'} : Finset κ), (s.consumed d : Multiset (Item π β))
          ≤ ∑ d, (s.consumed d : Multiset (Item π β)) :=
        sum_le_sum_of_subset (subset_univ _)
      rw [sum_pair hne] at hpair
      have hsum := Multiset.nodup_of_le hpair hnodup
      exact Multiset.coe_disjoint _ _ |>.mp (Multiset.nodup_add.mp hsum).2.2
    · rw [hsound.shared, Multiset.coe_add]
      exact Multiset.coe_eq_coe.mpr hperm
  · intro c
    refine ⟨hsound.ordered.sublist (hheld c), ?_⟩
    intro x hx
    exact (hsound.origin x ((hheld c).subset hx)).2
  · intro hb p
    have hpolicy : s.books.queue.policy = policy :=
      hs.invariant (I := fun s : Exchange π κ β => s.books.queue.policy = policy)
        (fun _ _ _ hst h => (step_policy hst).trans h) rfl
    obtain ⟨n, hn, -⟩ := hsound.initial (hpolicy.trans hb) p
    rw [hn]
    exact List.take_prefix n (lists p)

/-- Two producers and two consumers on a `Block` queue of capacity 1, closed while both
producers still have an item to push: the consumers end with the two accepted items. -/
theorem end_of_stream_final_closed_early :
    ∃ s : Exchange (Fin 2) (Fin 2) ℕ,
      Lts.Reaches (step ![[10, 11], [20, 21]]) (start 1 .block (by decide)) s ∧
      (∀ c, s.ended c = true) ∧
      (∑ c, (s.consumed c : Multiset (Item (Fin 2) ℕ)))
        + (s.books.evicted : Multiset (Item (Fin 2) ℕ)) = s.books.accepted ∧
      s.books.accepted = [⟨0, 0, 10⟩, ⟨1, 0, 20⟩] := by
  obtain ⟨s, hrun, hall, hacc⟩ := Lts.exists_run (step ![[10, 11], [20, 21]])
    (start 1 .block (by decide) : Exchange (Fin 2) (Fin 2) ℕ)
    [.push 0, .pop 1, .push 1, .close, .push 0, .pop 0, .push 1, .pop 1, .pop 0]
    (fun s => (∀ c, s.ended c = true) ∧ s.books.accepted = [⟨0, 0, 10⟩, ⟨1, 0, 20⟩])
    (by decide)
  have hreach : Lts.Reaches (step ![[10, 11], [20, 21]]) (start 1 .block (by decide)) s :=
    ⟨_, hrun⟩
  exact ⟨s, hreach, hall,
    ((end_of_stream_final _ 1 .block (by decide) s hreach).2.1 ⟨0⟩ hall).2, hacc⟩

end RadarRT.EndOfStream
