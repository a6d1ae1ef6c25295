import RadarRT.System.Conservation

/-!
# The backlog between the counters

`signalsProduced` and `signalsProcessed` are bumped outside the critical sections of the queue, by
different threads, so neither is exact while the system runs. How far they can drift apart is
bounded all the same: the producer is at most one count late, the queue holds at most its
capacity, and a worker holds at most one signal.
-/

namespace RadarRT

open Finset

variable {F : Type} {N : ℕ} {env : Env F} {o : Outside F}

/-! ## The three places where a signal waits -/

theorem ProducerPc.unrecorded_le_one (pc : ProducerPc) : pc.unrecorded ≤ 1 := by
  cases pc with
  | recordSignalProduced _ => exact le_rfl
  | _ => exact Nat.zero_le 1

theorem WorkerPc.card_held_le_one (pc : WorkerPc F) : Multiset.card pc.held ≤ 1 := by
  -- a worker in its handler, or dead, may have popped nothing
  have hoption : ∀ held : Option (RadarSignal F),
      Multiset.card (held.toList : Multiset (RadarSignal F)) ≤ 1 := by
    intro held
    cases held <;> simp
  cases pc with
  | recordThreadException held | requestShutdown held => exact hoption held
  | finished exit =>
    cases exit with
    | endOfStream => exact Nat.zero_le 1
    | died held => exact hoption held
  | _ => simp [WorkerPc.held]

/-- The workers together hold at most one signal each. -/
theorem card_held_le (workers : Fin N → WorkerPc F) :
    Multiset.card (∑ i, (workers i).held) ≤ N := by
  calc Multiset.card (∑ i, (workers i).held)
      = ∑ i, Multiset.card (workers i).held := Multiset.card_sum _ _
    _ ≤ ∑ _i : Fin N, 1 := sum_le_sum fun i _ => (workers i).card_held_le_one
    _ = N := by simp

theorem inputCapacity_main {s s' : State F N} (h : MainMove o s s') :
    s'.shared.input.queue.capacity = s.shared.input.queue.capacity := by
  cases h <;> rfl

theorem inputCapacity_move {s s' : State F N} {a : Action F N} (h : Move env s a s') :
    s'.shared.input.queue.capacity = s.shared.input.queue.capacity := by
  cases h with
  | main hm => exact inputCapacity_main hm
  | producer hm => exact hm.extends.input.capacity
  | worker hm => exact hm.extends.input.capacity
  | logger hm => exact hm.extends.input.capacity
  | watchdog hm => exact hm.extends.input.capacity

/-- The input queue keeps the capacity it was configured with. -/
theorem Reachable.inputCapacity {s : State F N} (h : Reachable env s) :
    s.shared.input.queue.capacity = env.config.inputCapacity :=
  h.invariant (I := fun s => s.shared.input.queue.capacity = env.config.inputCapacity)
    (fun _ => rfl) fun _ _ _ hm hI => (inputCapacity_move hm).trans hI

/-! ## The bounds -/

/-- Buffered or in the hands of a worker: the accepted signals that nobody has processed. -/
theorem Reachable.unprocessed {s : State F N} (h : Reachable env s) :
    ∃ rest : Multiset (RadarSignal F),
      (s.shared.input.accepted : Multiset (RadarSignal F)) = s.shared.processed + rest ∧
      Multiset.card rest ≤ env.config.inputCapacity + N := by
  refine ⟨(∑ i, (s.workers i).held) + s.shared.input.queue.queue, ?_, ?_⟩
  · rw [h.conserved.accepted h.fixed, add_assoc]
  · have hheld := card_held_le s.workers
    have hqueue := s.shared.input.queue.size_le
    rw [h.inputCapacity] at hqueue
    rw [Multiset.card_add, Multiset.coe_card]
    omega

/-- In every reachable state, whatever threw: the processed counter is at most one ahead of the
produced counter, and at most `inputCapacity + N` behind it; no more than that many accepted
signals are unprocessed. -/
theorem bounded_backlog {s : State F N} (h : Reachable env s) :
    s.shared.metrics.signalsProcessed ≤ s.shared.metrics.signalsProduced + 1 ∧
    s.shared.metrics.signalsProduced ≤
      s.shared.metrics.signalsProcessed + env.config.inputCapacity + N ∧
    ∃ rest : Multiset (RadarSignal F),
      (s.shared.input.accepted : Multiset (RadarSignal F)) = s.shared.processed + rest ∧
      Multiset.card rest ≤ env.config.inputCapacity + N := by
  obtain ⟨rest, hrest, hle⟩ := h.unprocessed
  have hproduced := h.conserved.produced
  have hprocessed := h.conserved.processed
  have hlate := s.producer.unrecorded_le_one
  have hlength : s.shared.input.accepted.length =
      s.shared.processed.length + Multiset.card rest := by
    rw [← Multiset.coe_card, hrest, Multiset.card_add, Multiset.coe_card]
  refine ⟨?_, ?_, rest, hrest, hle⟩
  · omega
  · omega

/-- An input queue with room for one signal. -/
def cramped : Env ℕ := silentEnv { inputCapacity := 1 } Nat.one_pos (Nat.succ_pos 1023)

/-- One worker and a queue of capacity one: the worker may process a signal the producer has not
counted yet, and it may hold one signal while the next is buffered, so both bounds are met. -/
theorem bounded_backlog_tight :
    (∃ s : State ℕ 1, Reachable cramped s ∧
      s.shared.metrics.signalsProduced = 0 ∧ s.shared.metrics.signalsProcessed = 1) ∧
    ∃ s : State ℕ 1, Reachable cramped s ∧
      s.shared.metrics.signalsProduced = 2 ∧ s.shared.metrics.signalsProcessed = 0 ∧
      s.shared.metrics.signalsProduced ≤ s.shared.metrics.signalsProcessed + 1 + 1 := by
  refine ⟨?_, ?_⟩
  · obtain ⟨s, hrun, hproduced, hprocessed⟩ := Lts.exists_run
      (step cramped) (initial cramped 1 0)
      (plainly 5 0 .main ++ plainly 6 0 .producer ++ plainly 9 0 (.worker 0))
      (fun s => s.shared.metrics.signalsProduced = 0 ∧ s.shared.metrics.signalsProcessed = 1)
      (by decide +kernel)
    exact ⟨s, reachable_of_run hrun, hproduced, hprocessed⟩
  · obtain ⟨s, hrun, hproduced, hprocessed⟩ := Lts.exists_run
      (step cramped) (initial cramped 1 0)
      (plainly 5 0 .main ++ plainly 13 0 .producer ++ plainly 3 0 (.worker 0) ++
        [throwing (.worker 0), elapsing .producer] ++ plainly 6 0 .producer)
      (fun s => s.shared.metrics.signalsProduced = 2 ∧ s.shared.metrics.signalsProcessed = 0)
      (by decide +kernel)
    exact ⟨s, reachable_of_run hrun, hproduced, hprocessed,
      (bounded_backlog (reachable_of_run hrun)).2.1⟩

end RadarRT
