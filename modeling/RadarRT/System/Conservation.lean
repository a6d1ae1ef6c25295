import Mathlib.Algebra.BigOperators.Fin
import Mathlib.Algebra.Order.BigOperators.Group.Finset
import Mathlib.Algebra.Order.Group.Multiset
import RadarRT.Lib.Tally
import RadarRT.System.Phases
import RadarRT.System.Schedules

/-!
# Signal conservation

Every signal the input queue accepted is, at any moment, in exactly one place: buffered, held by
a worker that has popped it and not yet counted it (a dead worker keeps it), or processed. The
books of the queue say what was popped; `Conserved` says where the popped signals are, and ties
the metrics to the books.
-/

namespace RadarRT

open Finset

variable {F : Type} {N : ℕ} {env : Env F} {beat : ℕ} {o : Outside F} {sh sh' : Shared F}

/-! ## Where a signal can be -/

/-- The signal a worker has popped and not yet called `recordSignalProcessed` for. -/
def WorkerPc.held : WorkerPc F → Multiset (RadarSignal F)
  | .readInputSize x | .setInputQueueDepth x _ | .readClock x | .storeTimestamp x _
  | .storeRunning x | .recordSignalProcessed x => {x}
  | .recordThreadException held | .requestShutdown held | .finished (.died held) =>
    (held.toList : Multiset (RadarSignal F))
  | _ => 0

/-- The worker died after popping a signal and before `recordSignalProcessed`. -/
def WorkerPc.diedHolding : WorkerPc F → Bool
  | .finished (.died (some _)) => true
  | _ => false

/-- The worker died by an exception. -/
def WorkerPc.died : WorkerPc F → Bool
  | .finished (.died _) => true
  | _ => false

/-- A signal the producer has pushed and not yet called `recordSignalProduced` for. -/
def ProducerPc.unrecorded : ProducerPc → ℕ
  | .recordSignalProduced _ => 1
  | _ => 0

/-- A drop count the producer has read and not yet stored. -/
def ProducerPc.pendingDrops : ProducerPc → ℕ
  | .setInputDrops _ drops => drops
  | _ => 0

/-! ## What a step does to the books -/

/-- What a step of the producer does to the books of the input queue and the metrics. -/
structure ProducerMove.Books (sh sh' : Shared F) (pc pc' : ProducerPc) : Prop where
  popped : sh'.input.popped = sh.input.popped
  refusedFull : sh'.input.refusedFull = sh.input.refusedFull
  processed : sh'.processed = sh.processed
  signalsProcessed : sh'.metrics.signalsProcessed = sh.metrics.signalsProcessed
  produced : sh'.input.accepted.length + (sh.metrics.signalsProduced + pc.unrecorded) =
    sh.input.accepted.length + (sh'.metrics.signalsProduced + pc'.unrecorded)
  drained : sh.input.queue.closed = true → sh.input.queue.queue = [] → sh'.input.queue.queue = []
  drops : sh.input.queue.droppedCount = 0 → sh.metrics.inputDrops = 0 → pc.pendingDrops = 0 →
    sh'.metrics.inputDrops = 0 ∧ pc'.pendingDrops = 0

theorem ProducerMove.books {pc pc' : ProducerPc} (h : ProducerMove env beat o sh pc sh' pc')
    (hpol : sh.input.queue.policy ≠ .dropNewest) : ProducerMove.Books sh sh' pc pc' := by
  cases h with
  | pushed hp =>
    have hq := Ledger.push_true hpol hp
    refine ⟨hq.popped, hq.refusedFull, rfl, rfl, ?_, ?_, fun _ h _ => ⟨h, rfl⟩⟩
    · simp [hq.accepted, ProducerPc.unrecorded]
      omega
    · -- a signal was accepted, so the queue was open
      intro hc
      rw [hq.isOpen] at hc
      cases hc
  | refused hp =>
    have hq := Ledger.push_false hpol hp
    refine ⟨hq.popped, hq.refusedFull, rfl, rfl, ?_, ?_, fun _ h _ => ⟨h, rfl⟩⟩
    · simp [hq.accepted, ProducerPc.unrecorded]
    · intro _ h
      rw [hq.queue, h]
  | pushThrew _ hp =>
    have hq := Ledger.push_error hpol hp
    refine ⟨hq.popped, hq.refusedFull, rfl, rfl, ?_, ?_, fun _ h _ => ⟨h, rfl⟩⟩
    · simp [hq.accepted, ProducerPc.unrecorded]
    · -- a push that throws never makes the buffer longer
      intro _ h
      have hlen := hq.length_le
      rw [h, List.length_nil, Nat.le_zero] at hlen
      exact List.length_eq_zero_iff.mp hlen
  | recordSignalProduced =>
    refine ⟨rfl, rfl, rfl, rfl, ?_, fun _ h => h, fun _ h _ => ⟨h, rfl⟩⟩
    simp [ProducerPc.unrecorded]
  -- what is read and then stored is the drop count, which is zero
  | readInputDrops => exact ⟨rfl, rfl, rfl, rfl, rfl, fun _ h => h, fun hd h _ => ⟨h, hd⟩⟩
  | setInputDrops => exact ⟨rfl, rfl, rfl, rfl, rfl, fun _ h => h, fun _ _ h => ⟨h, rfl⟩⟩
  | _ => exact ⟨rfl, rfl, rfl, rfl, rfl, fun _ h => h, fun _ h _ => ⟨h, rfl⟩⟩

/-- What a step of a worker does to them. -/
structure WorkerMove.Books (sh sh' : Shared F) (pc pc' : WorkerPc F) : Prop where
  accepted : sh'.input.accepted = sh.input.accepted
  refusedFull : sh'.input.refusedFull = sh.input.refusedFull
  moved : (sh'.input.popped : Multiset (RadarSignal F)) + (sh.processed + pc.held) =
    sh.input.popped + (sh'.processed + pc'.held)
  signalsProduced : sh'.metrics.signalsProduced = sh.metrics.signalsProduced
  signalsProcessed : sh'.metrics.signalsProcessed + sh.processed.length =
    sh.metrics.signalsProcessed + sh'.processed.length
  drops : sh'.metrics.inputDrops = sh.metrics.inputDrops
  drained : sh.input.queue.queue = [] → sh'.input.queue.queue = []
  ended : pc' = .finished .endOfStream →
    sh.input.queue.closed = true ∧ sh.input.queue.queue = []

theorem WorkerMove.books {pc pc' : WorkerPc F} (h : WorkerMove env beat o sh pc sh' pc') :
    WorkerMove.Books sh sh' pc pc' := by
  cases h with
  | ended hp =>
    obtain ⟨hc, hnil, rfl⟩ := Ledger.waitAndPop_nullopt hp
    exact ⟨rfl, rfl, rfl, rfl, rfl, rfl, id, fun _ => ⟨hc, hnil⟩⟩
  | took hp =>
    have hq := Ledger.waitAndPop_item hp
    refine ⟨hq.accepted, hq.refusedFull, ?_, rfl, rfl, rfl, ?_, ?_⟩
    · -- the signal goes from the buffer into the worker's hands
      simp only [hq.popped, WorkerPc.held, ← Multiset.coe_add, Multiset.coe_singleton]
      abel
    · intro h
      rw [hq.front] at h
      cases h
    · intro he
      cases he
  | recordSignalProcessed =>
    refine ⟨rfl, rfl, ?_, rfl, ?_, rfl, id, fun he => by cases he⟩
    · -- and from there to the processed ones
      simp only [WorkerPc.held, ← Multiset.coe_add, Multiset.coe_singleton]
      abel
    · simp
      omega
  | _ => exact ⟨rfl, rfl, rfl, rfl, rfl, rfl, id, fun he => by cases he⟩

/-- The logger and the watchdog do not touch them. -/
structure Shared.SameSignals (sh sh' : Shared F) : Prop where
  input : sh'.input = sh.input
  processed : sh'.processed = sh.processed
  signalsProduced : sh'.metrics.signalsProduced = sh.metrics.signalsProduced
  signalsProcessed : sh'.metrics.signalsProcessed = sh.metrics.signalsProcessed
  drops : sh'.metrics.inputDrops = sh.metrics.inputDrops

theorem LoggerMove.sameSignals {pc pc' : LoggerPc F} (h : LoggerMove env beat o sh pc sh' pc') :
    sh.SameSignals sh' := by
  cases h <;> exact ⟨rfl, rfl, rfl, rfl, rfl⟩

theorem WatchdogMove.sameSignals {pc pc' : WatchdogPc} (h : WatchdogMove env o sh pc sh' pc') :
    sh.SameSignals sh' := by
  cases h <;> exact ⟨rfl, rfl, rfl, rfl, rfl⟩

/-! ## The invariant -/

structure Conserved (s : State F N) : Prop where
  popped : (s.shared.input.popped : Multiset (RadarSignal F)) =
    s.shared.processed + ∑ i, (s.workers i).held
  refusedFull : s.shared.input.refusedFull = []
  produced : s.shared.input.accepted.length =
    s.shared.metrics.signalsProduced + s.producer.unrecorded
  processed : s.shared.metrics.signalsProcessed = s.shared.processed.length
  drops : s.shared.metrics.inputDrops = 0 ∧ s.producer.pendingDrops = 0
  ended : ∀ i, s.workers i = .finished .endOfStream →
    s.shared.input.queue.closed = true ∧ s.shared.input.queue.queue = []
  unstarted : s.producer = .notStarted → s.shared.input.accepted = []

theorem conserved_initial (env : Env F) (t₀ : Time) : Conserved (initial env N t₀) := by
  refine ⟨?_, rfl, rfl, rfl, ⟨rfl, rfl⟩, by nofun, fun _ => rfl⟩
  simp [initial, Ledger.opened, Ledger.popped, WorkerPc.held]

/-- Under `Block` nothing is dropped, since nothing is refused while the queue is open. -/
theorem Conserved.droppedCount {s : State F N} (h : Conserved s) (hf : Fixed s) :
    s.shared.input.queue.droppedCount = 0 := by
  have hev := s.shared.input.evicted_nil (by rw [hf.input]; nofun)
  rw [ThreadSafeQueue.droppedCount, s.shared.input.counted, hev, h.refusedFull]
  rfl

/-- Steps that leave the signals where they are. -/
theorem Conserved.same {s s' : State F N} (h : Conserved s)
    (hsh : s.shared.SameSignals s'.shared)
    (hp : s'.producer.unrecorded = s.producer.unrecorded)
    (hd : s'.producer.pendingDrops = s.producer.pendingDrops)
    (hn : s'.producer = .notStarted → s.producer = .notStarted)
    (hw : ∀ i, (s'.workers i).held = (s.workers i).held)
    (he : ∀ i, s'.workers i = .finished .endOfStream → s.workers i = .finished .endOfStream) :
    Conserved s' := by
  obtain ⟨hi, hx, hm, hm', hm''⟩ := hsh
  refine ⟨?_, ?_, ?_, ?_, ?_, ?_, ?_⟩
  · rw [hi, hx, h.popped]
    simp only [hw]
  · rw [hi, h.refusedFull]
  · rw [hi, hm, hp, h.produced]
  · rw [hm', hx, h.processed]
  · rw [hm'', hd]
    exact h.drops
  · rw [hi]
    exact fun i hend => h.ended i (he i hend)
  · rw [hi]
    exact fun hns => h.unstarted (hn hns)

theorem Shared.SameSignals.refl (sh : Shared F) : sh.SameSignals sh :=
  ⟨rfl, rfl, rfl, rfl, rfl⟩

theorem conserved_main {s s' : State F N} (h : MainMove o s s') (hst : Started s)
    (hs : Conserved s) : Conserved s' := by
  have hst := hst.starting
  cases h with
  | @startWorker k hk hm =>
    simp only [State.Starting, hm] at hst
    have hns : s.workers ⟨k, hk⟩ = .notStarted := (hst.2.2 ⟨k, hk⟩).mpr le_rfl
    refine hs.same (.refl _) rfl rfl id ?_ ?_
    · intro i
      by_cases hi : i = ⟨k, hk⟩
      · subst hi
        simp [hns, WorkerPc.held]
      · simp only [Function.update_of_ne hi]
    · intro i
      by_cases hi : i = ⟨k, hk⟩
      · subst hi
        simp
      · simp only [Function.update_of_ne hi, imp_self]
  | startProducer hm =>
    simp only [State.Starting, hm] at hst
    refine hs.same (.refl _) ?_ ?_ ?_ (fun _ => rfl) (fun _ => id)
    · rw [hst.2.1]
      rfl
    · rw [hst.2.1]
      rfl
    · intro hp
      cases hp
  | closeInput hm =>
    exact ⟨hs.popped, hs.refusedFull, hs.produced, hs.processed, hs.drops,
      fun i h => ⟨rfl, (hs.ended i h).2⟩, hs.unstarted⟩
  | _ =>
    exact hs.same ⟨rfl, rfl, rfl, rfl, rfl⟩ rfl rfl id (fun _ => rfl) (fun _ => id)

theorem conserved_move {s s' : State F N} {a : Action F N} (h : Move env s a s')
    (hst : Started s) (hf : Fixed s) (hs : Conserved s) : Conserved s' := by
  cases h with
  | main hm => exact conserved_main hm hst hs
  | producer hm =>
    have hb := hm.books hf.input_ne
    refine ⟨?_, ?_, ?_, ?_, ?_, ?_, ?_⟩
    · show (_ : Multiset (RadarSignal F)) = _
      rw [hb.popped, hb.processed, hs.popped]
    · exact hb.refusedFull.trans hs.refusedFull
    · have := hb.produced
      have := hs.produced
      dsimp only
      omega
    · show _ = List.length _
      rw [hb.signalsProcessed, hb.processed, hs.processed]
    · exact hb.drops (hs.droppedCount hf) hs.drops.1 hs.drops.2
    · intro i hi
      obtain ⟨hc, hnil⟩ := hs.ended i hi
      exact ⟨hm.extends.input.closed.trans hc, hb.drained hc hnil⟩
    · exact fun h => absurd h hm.alive.2
  | @worker i o sh pc hm =>
    have hb := hm.books
    refine ⟨?_, ?_, ?_, ?_, ?_, ?_, ?_⟩
    · -- what the worker gained or passed on is what left the queue or was counted
      exact Tally.balance_update hs.popped hb.moved
    · exact hb.refusedFull.trans hs.refusedFull
    · show List.length _ = _ + _
      rw [hb.accepted, hb.signalsProduced, hs.produced]
    · have := hb.signalsProcessed
      have := hs.processed
      dsimp only
      omega
    · exact ⟨hb.drops.trans hs.drops.1, hs.drops.2⟩
    · intro j hj
      by_cases hji : j = i
      · subst hji
        simp only [Function.update_self] at hj
        obtain ⟨hc, hnil⟩ := hb.ended hj
        exact ⟨hm.extends.input.closed.trans hc, hb.drained hnil⟩
      · simp only [Function.update_of_ne hji] at hj
        obtain ⟨hc, hnil⟩ := hs.ended j hj
        exact ⟨hm.extends.input.closed.trans hc, hb.drained hnil⟩
    · exact fun h => hb.accepted.trans (hs.unstarted h)
  | logger hm => exact hs.same hm.sameSignals rfl rfl id (fun _ => rfl) (fun _ => id)
  | watchdog hm => exact hs.same hm.sameSignals rfl rfl id (fun _ => rfl) (fun _ => id)

theorem Reachable.conserved {s : State F N} (h : Reachable env s) : Conserved s := by
  have hall : Started s ∧ Fixed s ∧ Conserved s :=
    h.invariant (I := fun s => Started s ∧ Fixed s ∧ Conserved s)
      (fun t₀ => ⟨started_initial env t₀, ⟨rfl, rfl, rfl⟩, conserved_initial env t₀⟩)
      (fun _ _ _ hm hI => ⟨started_move hm hI.1, fixed_move hm hI.2.1,
        conserved_move hm hI.1 hI.2.1 hI.2.2⟩)
  exact hall.2.2

/-! ## The balance -/

/-- Where each accepted signal is. -/
theorem Conserved.accepted {s : State F N} (h : Conserved s) (hf : Fixed s) :
    (s.shared.input.accepted : Multiset (RadarSignal F)) =
      s.shared.processed + (∑ i, (s.workers i).held) + s.shared.input.queue.queue := by
  have hperm := s.shared.input.accepted_perm
  have hev : s.shared.input.evicted = [] := s.shared.input.evicted_nil (by rw [hf.input]; nofun)
  rw [hev, List.append_nil, ← Multiset.coe_eq_coe, ← Multiset.coe_add, h.popped] at hperm
  exact hperm.symm

theorem Conserved.processed_subperm {s : State F N} (h : Conserved s) (hf : Fixed s) :
    s.shared.processed.Subperm s.shared.input.accepted := by
  rw [← Multiset.coe_le, h.accepted hf, add_assoc]
  exact Multiset.le_add_right _ _

theorem WorkerPc.card_held {pc : WorkerPc F} (h : pc.joined = true) :
    Multiset.card pc.held = if pc.diedHolding then 1 else 0 := by
  cases pc with
  | notStarted => rfl
  | finished exit =>
    cases exit with
    | endOfStream => rfl
    | died held => cases held <;> rfl
  | _ => cases h

theorem WorkerPc.diedHolding_of_not_died {pc : WorkerPc F} (h : pc.died = false) :
    pc.diedHolding = false := by
  cases pc with
  | finished exit =>
    cases exit with
    | endOfStream => rfl
    | died held => cases h
  | _ => rfl

theorem ProducerPc.unrecorded_of_joined {pc : ProducerPc} (h : pc.joined = true) :
    pc.unrecorded = 0 := by
  cases pc <;> first | rfl | cases h

/-- A worker that was started and did not die saw the end of the stream. -/
theorem WorkerPc.ended_of_joined {pc : WorkerPc F} (h : pc.joined = true)
    (hs : pc ≠ .notStarted) (hd : pc.died = false) : pc = .finished .endOfStream := by
  cases pc with
  | notStarted => exact absurd rfl hs
  | finished exit =>
    cases exit with
    | endOfStream => rfl
    | died held => cases hd
  | _ => cases h

/-- Main has joined every worker by the time it returns. -/
theorem Teardown.workers_joined {s : State F N} (h : Teardown s) (hm : s.main = .returned)
    (i : Fin N) : (s.workers i).joined = true := by
  refine h.workers i ?_
  rw [hm]
  exact i.isLt

/-- Workers that all lived to the end leave nothing in the input queue. -/
theorem Conserved.drained {s : State F N} (h : Conserved s) (hst : Started s) (hN : 0 < N)
    (hjoined : ∀ i, (s.workers i).joined = true) (hdied : ∀ i, (s.workers i).died = false) :
    s.shared.input.queue.queue = [] := by
  by_cases hns : s.workers ⟨0, hN⟩ = .notStarted
  · -- the producer was never started either
    have hcons := s.shared.input.conserved
    rw [h.unstarted (hst.workers _ hns), eq_comm, List.append_eq_nil_iff] at hcons
    exact hcons.2
  · exact (h.ended _ (WorkerPc.ended_of_joined (hjoined _) hns (hdied _))).2

/-- For every number of workers, capacity, schedule, failed `start()` and exception: nothing is
ever dropped on the input side and no signal is processed twice, and once `shutdown()` has
returned every accepted signal was counted as produced and is accounted for. -/
theorem signal_conservation {s : State F N} (h : Reachable env s) :
    s.shared.input.queue.droppedCount = 0 ∧ s.shared.metrics.inputDrops = 0 ∧
    s.shared.metrics.signalsProcessed = s.shared.processed.length ∧
    (∃ position : Fin s.shared.processed.length ↪ Fin s.shared.input.accepted.length,
      ∀ k, s.shared.processed.get k = s.shared.input.accepted.get (position k)) ∧
    (s.shared.input.accepted.Nodup → s.shared.processed.Nodup) ∧
    (s.main = .returned →
      s.shared.metrics.signalsProduced = s.shared.input.accepted.length ∧
      s.shared.metrics.signalsProduced = s.shared.metrics.signalsProcessed +
        #{i | (s.workers i).diedHolding} + s.shared.input.queue.size ∧
      ((∃ i, s.workers i = .finished .endOfStream) → s.shared.input.queue.size = 0) ∧
      (0 < N → (∀ i, (s.workers i).died = false) →
        s.shared.metrics.signalsProduced = s.shared.metrics.signalsProcessed)) := by
  classical
  have hc := h.conserved
  have hf := h.fixed
  have hsub := hc.processed_subperm hf
  refine ⟨hc.droppedCount hf, hc.drops.1, hc.processed, ?_, ?_, ?_⟩
  · exact ⟨⟨hsub.idxInj, hsub.idxInj_injective⟩,
      fun k => hsub.getElem_idxInj_eq_getElem.symm⟩
  · obtain ⟨l, hperm, hl⟩ := hsub
    exact fun hnodup => hperm.nodup_iff.mp (hl.nodup hnodup)
  · -- every thread main waited for is joined now, so nobody is between a step and its count
    intro hm
    have ht := h.teardown
    have hst := h.started
    have hjoined := ht.workers_joined hm
    have hproduced : s.shared.metrics.signalsProduced = s.shared.input.accepted.length := by
      rw [hc.produced, ProducerPc.unrecorded_of_joined (ht.producer (by rw [hm]; decide))]
      rfl
    have hbalance : s.shared.metrics.signalsProduced = s.shared.metrics.signalsProcessed +
        #{i | (s.workers i).diedHolding} + s.shared.input.queue.size := by
      -- count the places where an accepted signal can be
      have hcard := congrArg Multiset.card (hc.accepted hf)
      simp only [Multiset.card_add, Multiset.coe_card, Multiset.card_sum,
        WorkerPc.card_held (hjoined _)] at hcard
      rw [hproduced, hcard, hc.processed, Finset.card_filter]
      rfl
    have hdrained : (∃ i, s.workers i = .finished .endOfStream) →
        s.shared.input.queue.size = 0 := by
      rintro ⟨i, hi⟩
      rw [ThreadSafeQueue.size, (hc.ended i hi).2]
      rfl
    refine ⟨hproduced, hbalance, hdrained, ?_⟩
    intro hN hdied
    have hheld : #{i | (s.workers i).diedHolding} = 0 := by
      rw [Finset.card_eq_zero, Finset.filter_eq_empty_iff]
      intro i _ hi
      rw [WorkerPc.diedHolding_of_not_died (hdied i)] at hi
      cases hi
    have hleft : s.shared.input.queue.size = 0 := by
      rw [ThreadSafeQueue.size, hc.drained hst hN hjoined hdied]
      rfl
    omega

/-- Two workers and two signals: the first worker dies between its pop and
`recordSignalProcessed`, the second processes its signal and sees the end of the stream. -/
theorem signal_conservation_one_death :
    ∃ s : State ℕ 2, Reachable silentDefaults s ∧
      s.main = .returned ∧ s.shared.input.accepted.length = 2 ∧
      s.shared.metrics.signalsProduced = 2 ∧ s.shared.metrics.signalsProcessed = 1 ∧
      #{i | (s.workers i).diedHolding} = 1 ∧ s.shared.input.queue.size = 0 ∧
      s.shared.input.queue.droppedCount = 0 := by
  obtain ⟨s, hrun, hm, hacc, hproc, hdied⟩ := Lts.exists_run
    (step silentDefaults) (initial silentDefaults 2 0)
    (plainly 6 0 .main ++ plainly 13 0 .producer ++ [elapsing .producer] ++
      plainly 12 0 .producer ++ plainly 3 0 (.worker 0) ++ [throwing (.worker 0)] ++
      plainly 2 0 (.worker 0) ++ plainly 16 0 (.worker 1) ++ plainly 4 0 .main ++
      plainly 1 0 .producer ++ plainly 2 0 (.worker 1) ++ plainly 5 0 .main ++
      plainly 15 0 .logger ++ plainly 2 0 .watchdog ++ plainly 2 0 .main)
    (fun s => s.main = .returned ∧ s.shared.input.accepted.length = 2 ∧
      s.shared.metrics.signalsProcessed = 1 ∧ #{i | (s.workers i).diedHolding} = 1)
    (by decide +kernel)
  obtain ⟨hdropped, -, -, -, -, hreturned⟩ := signal_conservation (reachable_of_run hrun)
  obtain ⟨hproduced, hbalance, -, -⟩ := hreturned hm
  exact ⟨s, reachable_of_run hrun, hm, hacc, by omega, hproc, hdied, by omega, hdropped⟩

end RadarRT
