import RadarRT.System.Phases
import RadarRT.System.Schedules

/-!
# The drop count of the output queue in `Metrics`

After each push a worker reads `outputQueue_.droppedCount()` and stores it with `setLogDrops`,
as two separate steps; the watchdog, which pushes too, stores nothing. So the gauge can end up
behind the counter it mirrors, in two ways: a worker stores a count it read before another
worker's later eviction was stored, or the watchdog evicts a record and no worker reads the count
after it. In a run where neither happens the gauge agrees with the counter at the end.
-/

namespace RadarRT

variable {F : Type} {N : ℕ} {env : Env F} {beat : ℕ} {o : Outside F} {sh sh' : Shared F}

/-! ## Who will still store a current count -/

/-- The worker has taken a signal and not yet read the drop count in this round. -/
def WorkerPc.readsAhead : WorkerPc F → Bool
  | .readInputSize _ | .setInputQueueDepth _ _ | .readClock _ | .storeTimestamp _ _
  | .storeRunning _ | .recordSignalProcessed _ | .readLatencyClock _
  | .recordProcessingLatency _ _ | .push _ | .readOutputSize | .setOutputQueueDepth _
  | .readLogDrops => true
  | _ => false

/-- The worker will store a count not older than `drops`. -/
def WorkerPc.refreshes (drops : ℕ) : WorkerPc F → Bool
  | .setLogDrops d => d == drops
  | pc => pc.readsAhead

/-- The gauge is right, or a worker on its way will set it right. -/
def Mirrored (s : State F N) : Prop :=
  s.shared.metrics.logDrops = s.shared.output.queue.droppedCount ∨
    ∃ j, (s.workers j).refreshes s.shared.output.queue.droppedCount = true

/-- A worker stores the current drop count, unless another worker will still store a current one;
and the watchdog evicts a record only while some worker has its read of the count ahead. -/
def keepsMirror (s : State F N) (a : Action F N) : Bool :=
  match a.1 with
  | .worker i =>
    match s.workers i with
    | .setLogDrops d => d == s.shared.output.queue.droppedCount ||
        decide (∃ j, j ≠ i ∧ (s.workers j).refreshes s.shared.output.queue.droppedCount = true)
    | _ => true
  | .watchdog =>
    match s.watchdog with
    | .push _ _ => !s.shared.output.queue.evicts ||
        decide (∃ j, (s.workers j).readsAhead = true)
    | _ => true
  | _ => true

theorem WorkerPc.refreshes_of_readsAhead {pc : WorkerPc F} (h : pc.readsAhead = true)
    (drops : ℕ) : pc.refreshes drops = true := by
  cases pc <;> first | exact h | cases h

theorem WorkerPc.refreshes_of_joined {pc : WorkerPc F} (h : pc.joined = true) (drops : ℕ) :
    pc.refreshes drops = false := by
  cases pc <;> first | rfl | cases h

/-! ## What a step does to the counter and the gauge -/

/-- The counter and the gauge stay as they are. -/
structure Shared.SameDrops (sh sh' : Shared F) : Prop where
  dropped : sh'.output.queue.dropped = sh.output.queue.dropped
  logDrops : sh'.metrics.logDrops = sh.metrics.logDrops

theorem Shared.SameDrops.droppedCount (h : sh.SameDrops sh') :
    sh'.output.queue.droppedCount = sh.output.queue.droppedCount := by
  rw [ThreadSafeQueue.droppedCount, ThreadSafeQueue.droppedCount, h.dropped]

theorem ProducerMove.sameDrops {pc pc' : ProducerPc} (h : ProducerMove env beat o sh pc sh' pc') :
    sh.SameDrops sh' := by
  cases h <;> exact ⟨rfl, rfl⟩

theorem LoggerMove.sameDrops {pc pc' : LoggerPc F} (h : LoggerMove env beat o sh pc sh' pc') :
    sh.SameDrops sh' := by
  cases h with
  | ended hp =>
    obtain ⟨-, -, rfl⟩ := Ledger.waitAndPop_nullopt hp
    exact ⟨rfl, rfl⟩
  | took hp => exact ⟨(Ledger.waitAndPop_item hp).dropped, rfl⟩
  | _ => exact ⟨rfl, rfl⟩

theorem MainMove.sameDrops {s s' : State F N} (h : MainMove o s s') :
    s.shared.SameDrops s'.shared := by
  cases h <;> exact ⟨rfl, rfl⟩

/-- Without an eviction, a push that returns leaves the counter alone. -/
theorem Ledger.push_dropped {α : Type*} {l q : Ledger α} (hp : l.queue.policy ≠ .dropNewest)
    {v : α} {f b : Bool} (h : l.push v f = some (.ok b, q)) (hev : l.queue.evicts = false) :
    q.queue.dropped = l.queue.dropped := by
  cases b with
  | true => exact (push_true hp h).dropped hev
  | false => rw [(push_false hp h).queue]

/-- A step of the watchdog that does not throw changes nothing, unless its push evicts. -/
theorem WatchdogMove.sameDrops {pc pc' : WatchdogPc} (h : WatchdogMove env o sh pc sh' pc')
    (hpol : sh.output.queue.policy ≠ .dropNewest) (hcalm : pc'.threw = false) :
    sh.SameDrops sh' ∨ (∃ sc age, pc = .push sc age) ∧ sh.output.queue.evicts = true ∧
      sh'.metrics.logDrops = sh.metrics.logDrops := by
  cases h with
  | pushed hp =>
    cases hev : sh.output.queue.evicts with
    | false => exact .inl ⟨Ledger.push_dropped hpol hp hev, rfl⟩
    | true => exact .inr ⟨⟨_, _, rfl⟩, rfl, rfl⟩
  | pushThrew => cases hcalm
  | _ => exact .inl ⟨rfl, rfl⟩

/-- What a step of a worker that does not throw does: it reads the counter, it stores what it
has read, or it leaves both alone and stays ahead of its read if it was. A push counts as none of
these, but the worker is ahead of its read after it. -/
theorem WorkerMove.drops {pc pc' : WorkerPc F} (h : WorkerMove env beat o sh pc sh' pc')
    (hcalm : pc'.threw = false) :
    (pc' = .readOutputSize ∧ sh'.metrics.logDrops = sh.metrics.logDrops) ∨
    (∃ d, pc = .setLogDrops d ∧ sh'.output = sh.output ∧ sh'.metrics.logDrops = d) ∨
    (sh.SameDrops sh' ∧ (pc.refreshes sh.output.queue.droppedCount = true →
      pc'.refreshes sh.output.queue.droppedCount = true)) := by
  cases h with
  | pushed => exact .inl ⟨rfl, rfl⟩
  | setLogDrops => exact .inr (.inl ⟨_, rfl, rfl, rfl⟩)
  | readLogDrops =>
    refine .inr (.inr ⟨⟨rfl, rfl⟩, fun _ => ?_⟩)
    simp [WorkerPc.refreshes]
  | popFailed | readInputSizeFailed | pushThrew | pushFailed | readOutputSizeFailed
  | recordThreadException | requestShutdown => cases hcalm
  | configure | markWaiting | ended | took => exact .inr (.inr ⟨⟨rfl, rfl⟩, by nofun⟩)
  | _ => exact .inr (.inr ⟨⟨rfl, rfl⟩, fun _ => rfl⟩)

/-! ## The invariant -/

theorem Mirrored.same {s s' : State F N} (h : Mirrored s) (hsh : s.shared.SameDrops s'.shared)
    (hw : ∀ j, (s.workers j).refreshes s.shared.output.queue.droppedCount = true →
      (s'.workers j).refreshes s.shared.output.queue.droppedCount = true) : Mirrored s' := by
  unfold Mirrored
  rw [hsh.droppedCount, hsh.logDrops]
  exact h.imp id fun ⟨j, hj⟩ => ⟨j, hw j hj⟩

theorem mirrored_main {s s' : State F N} (h : MainMove o s s') (hst : Started s)
    (hs : Mirrored s) : Mirrored s' := by
  refine hs.same h.sameDrops ?_
  intro j hj
  have hst := hst.starting
  cases h with
  | @startWorker k hk hm =>
    simp only [State.Starting, hm] at hst
    by_cases hjk : j = ⟨k, hk⟩
    · subst hjk
      rw [(hst.2.2 _).mpr le_rfl] at hj
      cases hj
    · simpa only [Function.update_of_ne hjk] using hj
  | _ => exact hj

theorem mirrored_move {s s' : State F N} {a : Action F N} (h : Move env s a s') (hph : Phases s)
    (hP : keepsMirror s a = true) (hcalm : s'.Calm) (hs : Mirrored s) : Mirrored s' := by
  obtain ⟨hst, -, hf⟩ := hph
  cases h with
  | main hm => exact mirrored_main hm hst hs
  | producer hm => exact hs.same hm.sameDrops fun _ => id
  | logger hm => exact hs.same hm.sameDrops fun _ => id
  | @worker i o sh pc hm =>
    have hci : pc.threw = false := by simpa using hcalm.workers i
    rcases hm.drops hci with ⟨rfl, -⟩ | ⟨d, hd, ho, hlog⟩ | ⟨hsame, hkeep⟩
    · -- it pushed, so its own read of the count is still ahead
      exact .inr ⟨i, by simp [WorkerPc.refreshes, WorkerPc.readsAhead]⟩
    · -- it stores: the current count, or another worker will
      simp only [keepsMirror, hd, Bool.or_eq_true, beq_iff_eq, decide_eq_true_eq] at hP
      rcases hP with hcur | ⟨j, hji, hj⟩
      · exact .inl (by simp only [ho, hlog, hcur])
      · exact .inr ⟨j, by simpa only [Function.update_of_ne hji, ho] using hj⟩
    · refine hs.same hsame ?_
      intro j hj
      by_cases hji : j = i
      · subst hji
        simpa using hkeep hj
      · simpa only [Function.update_of_ne hji] using hj
  | watchdog hm =>
    rcases hm.sameDrops hf.output_ne hcalm.watchdog with hsame | ⟨⟨sc, age, hpc⟩, hev, hlog⟩
    · exact hs.same hsame fun _ => id
    · -- it evicted a record, while some worker has its read ahead
      simp only [keepsMirror, hpc, hev, Bool.not_true, Bool.false_or, decide_eq_true_eq] at hP
      obtain ⟨j, hj⟩ := hP
      exact .inr ⟨j, WorkerPc.refreshes_of_readsAhead hj _⟩

/-- In every run without a thread exception whose steps keep the mirror, `logDrops` is the drop
count of the output queue when `shutdown()` has returned. -/
theorem logDrops_mirrored {t₀ : Time} {as : List (Action F N)} {s : State F N}
    (hrun : Lts.run (step env) (initial env N t₀) as = some s)
    (hkeep : Lts.Along (step env) (fun s a => keepsMirror s a = true) (initial env N t₀) as)
    (hm : s.main = .returned) (hc : s.Calm) :
    s.shared.metrics.logDrops = s.shared.output.queue.droppedCount := by
  have hmir : Mirrored s :=
    calm_run_invariant (fun _ _ _ => mirrored_move) (phases_initial env t₀) (.inl rfl) hrun
      hkeep hc
  rcases hmir with h | ⟨j, hj⟩
  · exact h
  · have hreach := reachable_of_run hrun
    have hjoined : (s.workers j).joined = true :=
      hreach.teardown.workers j (by rw [hm]; exact j.isLt)
    rw [WorkerPc.refreshes_of_joined hjoined] at hj
    cases hj

/-- An output queue that holds one record. -/
def smallOutput : Env ℕ := silentEnv { outputCapacity := 1 } (by decide) (by decide)

/-- One worker and two signals: the second record evicts the first, and the worker mirrors it. -/
theorem logDrops_mirrored_one_worker :
    ∃ s : State ℕ 1, Reachable smallOutput s ∧ s.main = .returned ∧
      s.shared.output.queue.droppedCount = 1 ∧ s.shared.metrics.logDrops = 1 := by
  obtain ⟨s, hrun, hm, hdropped, hcp, hcw, hcl, hcd⟩ := Lts.exists_run
    (step smallOutput) (initial smallOutput 1 0)
    (plainly 5 0 .main ++ plainly 13 0 .producer ++ [elapsing .producer] ++
      plainly 12 0 .producer ++ plainly 31 0 (.worker 0) ++ plainly 6 0 .main ++
      plainly 1 0 .producer ++ plainly 2 0 (.worker 0) ++ plainly 4 0 .main ++
      plainly 15 0 .logger ++ plainly 2 0 .watchdog ++ plainly 2 0 .main)
    (fun s => s.main = .returned ∧ s.shared.output.queue.droppedCount = 1 ∧
      s.producer.threw = false ∧ (∀ i, (s.workers i).threw = false) ∧ s.logger.threw = false ∧
      s.watchdog.threw = false)
    (by decide +kernel)
  have hlog := logDrops_mirrored hrun (by decide +kernel) hm ⟨hcp, hcw, hcl, hcd⟩
  exact ⟨s, reachable_of_run hrun, hm, hdropped, hlog.trans hdropped⟩

/-- Worker 0 pushes and reads the count 0; worker 1 pushes, evicts that record, reads and stores
1; then worker 0 stores its 0 and the application shuts down. -/
def staleStore : List (Action ℕ 2) :=
  plainly 6 0 .main ++ plainly 13 0 .producer ++ [elapsing .producer] ++ plainly 12 0 .producer ++
    plainly 15 0 (.worker 0) ++ plainly 16 0 (.worker 1) ++ plainly 1 0 (.worker 0) ++
    plainly 6 0 .main ++ plainly 1 0 .producer ++ plainly 2 0 (.worker 0) ++
    plainly 2 0 (.worker 1) ++ plainly 5 0 .main ++ plainly 15 0 .logger ++
    plainly 2 0 .watchdog ++ plainly 2 0 .main

/-- An eviction that `Metrics` does not count, in a run without a thread exception. -/
theorem logDrops_under_reported :
    ∃ s : State ℕ 2, Lts.run (step smallOutput) (initial smallOutput 2 0) staleStore = some s ∧
      s.main = .returned ∧ s.Calm ∧ s.shared.metrics.logDrops = 0 ∧
      s.shared.output.queue.droppedCount = 1 := by
  obtain ⟨s, hrun, hm, hlog, hdropped, hcp, hcw, hcl, hcd⟩ := Lts.exists_run
    (step smallOutput) (initial smallOutput 2 0) staleStore
    (fun s => s.main = .returned ∧ s.shared.metrics.logDrops = 0 ∧
      s.shared.output.queue.droppedCount = 1 ∧ s.producer.threw = false ∧
      (∀ i, (s.workers i).threw = false) ∧ s.logger.threw = false ∧ s.watchdog.threw = false)
    (by decide +kernel)
  exact ⟨s, hrun, hm, ⟨hcp, hcw, hcl, hcd⟩, hlog, hdropped⟩

end RadarRT
