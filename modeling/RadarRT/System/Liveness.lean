import RadarRT.Lib.Fairness
import RadarRT.System.Drain
import RadarRT.System.LogTail

/-!
# Every signal reaches the log

The drain says what happens after a shutdown request. This file is about an application that is
never asked to stop: a run without end, in which no thread throws and neither a worker nor the
logger is passed over for good while it could move. The producer, the watchdog and the main thread
may be scheduled in any way, and the producer may be faster than the pool.

A worker waits only for an empty input queue and the logger only for an empty output queue, so each
of them serves its queue in a loop. Hence every accepted signal is eventually processed, and its
record is on every sink or has been evicted for a newer one.
-/

namespace RadarRT

open Finset

variable {F : Type} {N : ℕ} {env : Env F} {beat : ℕ} {o : Outside F} {sh sh' : Shared F}

/-! ## The books only grow -/

namespace Ledger

variable {α : Type}

structure Grows (l q : Ledger α) : Prop where
  accepted : l.accepted <+: q.accepted
  removed : l.removed <+: q.removed

theorem Grows.refl (l : Ledger α) : l.Grows l := ⟨List.prefix_rfl, List.prefix_rfl⟩

theorem Grows.trans {l q p : Ledger α} (h : l.Grows q) (h' : q.Grows p) : l.Grows p :=
  ⟨h.accepted.trans h'.accepted, h.removed.trans h'.removed⟩

theorem grows_of_push {l q : Ledger α} {v : α} {f : Bool} {r : Except QueueError Bool}
    (h : l.push v f = some (r, q)) : l.Grows q := by
  obtain ⟨-, rfl⟩ := push_result h
  refine ⟨?_, List.prefix_append _ _⟩
  rcases l.enqueue_accepted v f with hacc | hacc
  · rw [hacc]
    exact List.prefix_append _ _
  · rw [hacc]

theorem grows_of_waitAndPop {l q : Ledger α} {r : Option α} (h : l.waitAndPop = some (r, q)) :
    l.Grows q := by
  have hq : q = l.tryPop.2 := congrArg Prod.snd (waitAndPop_some h).2
  rw [hq]
  exact ⟨List.prefix_rfl, List.prefix_append _ _⟩

theorem Grows.popped {l q : Ledger α} (h : l.Grows q) : l.popped <+: q.popped :=
  h.removed.filterMap _

/-- With an empty buffer everything accepted has left. -/
theorem length_removed_of_nil {l : Ledger α} (h : l.queue.queue = []) :
    l.removed.length = l.accepted.length := by
  rw [l.length_accepted, h, List.length_nil, Nat.add_zero]

end Ledger

theorem ProducerMove.grows {pc pc' : ProducerPc} (h : ProducerMove env beat o sh pc sh' pc') :
    sh.input.Grows sh'.input ∧ sh.output.Grows sh'.output := by
  cases h with
  | pushed hp | refused hp | pushThrew _ hp => exact ⟨Ledger.grows_of_push hp, .refl _⟩
  | _ => exact ⟨.refl _, .refl _⟩

theorem WorkerMove.grows {pc pc' : WorkerPc F} (h : WorkerMove env beat o sh pc sh' pc') :
    sh.input.Grows sh'.input ∧ sh.output.Grows sh'.output := by
  cases h with
  | ended hp | took hp => exact ⟨Ledger.grows_of_waitAndPop hp, .refl _⟩
  | pushed hp | pushThrew _ hp => exact ⟨.refl _, Ledger.grows_of_push hp⟩
  | _ => exact ⟨.refl _, .refl _⟩

theorem LoggerMove.grows {pc pc' : LoggerPc F} (h : LoggerMove env beat o sh pc sh' pc') :
    sh.input.Grows sh'.input ∧ sh.output.Grows sh'.output := by
  cases h with
  | ended hp | took hp => exact ⟨.refl _, Ledger.grows_of_waitAndPop hp⟩
  | _ => exact ⟨.refl _, .refl _⟩

theorem WatchdogMove.grows {pc pc' : WatchdogPc} (h : WatchdogMove env o sh pc sh' pc') :
    sh.input.Grows sh'.input ∧ sh.output.Grows sh'.output := by
  cases h with
  | pushed hp | pushThrew _ hp => exact ⟨.refl _, Ledger.grows_of_push hp⟩
  | _ => exact ⟨.refl _, .refl _⟩

theorem Move.grows {s s' : State F N} {a : Action F N} (h : Move env s a s') :
    s.shared.input.Grows s'.shared.input ∧ s.shared.output.Grows s'.shared.output := by
  cases h with
  | main hm =>
    cases hm <;>
      exact ⟨⟨List.prefix_rfl, List.prefix_rfl⟩, List.prefix_rfl, List.prefix_rfl⟩
  | producer hm => exact hm.grows
  | worker hm => exact hm.grows
  | logger hm => exact hm.grows
  | watchdog hm => exact hm.grows

/-! ## What a thread waits for -/

/-- The same draw of samples in a world in which nothing throws and the clock stands still. -/
def Outside.kind (o : Outside F) (sh : Shared F) : Outside F :=
  { o with failure := .none, now := sh.clock }

theorem Outside.kind_willing (o : Outside F) (sh : Shared F) : (o.kind sh).Willing sh :=
  ⟨rfl, le_rfl⟩

/-- A worker that cannot move is at its end, or waits for a signal. -/
theorem WorkerPc.blocked {pc : WorkerPc F} (ho : o.Willing sh)
    (hpol : sh.output.queue.policy = .dropOldest) (h : workerStep env beat o sh pc = none) :
    pc.joined = true ∨ pc = .waitAndPop ∧ sh.input.queue.queue = [] := by
  cases pc with
  | notStarted | finished => exact .inl rfl
  | waitAndPop =>
    refine .inr ⟨rfl, ?_⟩
    by_contra hne
    have hin : sh.input.queue.hasInput = true := by
      simp [ThreadSafeQueue.hasInput, hne]
    simp only [workerStep, ho.throws, Bool.false_eq_true, if_false, Ledger.waitAndPop, hin,
      if_true] at h
    split at h <;> simp_all
  | readClock | readLatencyClock =>
    simp [workerStep, Shared.readClock, ho.now] at h
  | push r =>
    simp only [workerStep, ho.failure, reduceCtorEq, if_false, Ledger.push_dropOldest hpol] at h
    split at h <;> simp_all
  | _ => cases h

/-- The logger likewise. -/
theorem LoggerPc.blocked {pc : LoggerPc F} (ho : o.Willing sh)
    (h : loggerStep env beat o sh pc = none) :
    pc.joined = true ∨ pc = .waitAndPop ∧ sh.output.queue.queue = [] := by
  cases pc with
  | notStarted | finished => exact .inl rfl
  | waitAndPop =>
    refine .inr ⟨rfl, ?_⟩
    by_contra hne
    have hin : sh.output.queue.hasInput = true := by
      simp [ThreadSafeQueue.hasInput, hne]
    simp only [loggerStep, ho.throws, Bool.false_eq_true, if_false, Ledger.waitAndPop, hin,
      if_true] at h
    split at h <;> simp_all
  | readClock =>
    simp [loggerStep, Shared.readClock, ho.now] at h
  | write | flush =>
    simp only [loggerStep, ho.throws, Bool.false_eq_true, if_false] at h
    split at h <;> cases h
  | _ => cases h

/-! ## One step of a worker, one step of the logger -/

/-- Every step brings a worker closer to its next pop, or is one. -/
theorem WorkerMove.rank_or_took {pc pc' : WorkerPc F} (h : WorkerMove env beat o sh pc sh' pc') :
    pc'.rank env < pc.rank env ∨ sh.input.popped.length < sh'.input.popped.length ∧
      pc'.rank env < recordWeight env + 18 := by
  cases h with
  | took hp =>
    refine .inr ⟨?_, ?_⟩
    · rw [(Ledger.waitAndPop_item hp).popped, List.length_append, List.length_singleton]
      omega
    · simp [WorkerPc.rank]
  | _ =>
    left
    simp only [WorkerPc.rank]
    omega

theorem LoggerMove.rank_or_took {pc pc' : LoggerPc F} (h : LoggerMove env beat o sh pc sh' pc') :
    pc'.rank env < pc.rank env ∨ sh.output.removed.length < sh'.output.removed.length ∧
      pc = .waitAndPop ∧ pc'.rank env < 2 * env.sinkCount + 14 := by
  cases h with
  | @took x q hp =>
    refine .inr ⟨?_, rfl, ?_⟩
    · have hq := Ledger.waitAndPop_item hp
      have hbefore := sh.output.length_accepted
      have hafter := q.length_accepted
      rw [hq.front, List.length_cons] at hbefore
      rw [hq.accepted] at hafter
      show sh.output.removed.length < q.removed.length
      omega
    · simp [LoggerPc.rank]
  | _ =>
    left
    simp only [LoggerPc.rank]
    omega

/-- The records a worker will still push: of the signal it holds, or of the result it owes. -/
def WorkerPc.inTransit (env : Env F) (pc : WorkerPc F) : Multiset (LogRecord F) :=
  pc.held.map (recordOf env) + pc.owed

open Classical in
/-- A worker that does not throw carries a record on until it has pushed it. -/
theorem WorkerMove.carries {pc pc' : WorkerPc F} (h : WorkerMove env beat o sh pc sh' pc')
    (hpol : sh.output.queue.policy ≠ .dropNewest) (hopen : sh.output.queue.closed = false)
    (hcalm : pc'.threw = false) {y : LogRecord F} (hy : y ∈ pc.inTransit env) :
    (dspRecords sh.output.accepted).count y < (dspRecords sh'.output.accepted).count y ∨
      y ∈ pc'.inTransit env ∧ pc'.rank env < pc.rank env := by
  cases h with
  | @pushed r b q f hp =>
    cases b with
    | false =>
      have := (Ledger.push_false hpol hp).isClosed
      rw [hopen] at this
      cases this
    | true =>
      left
      have hyr : y = toLogRecord r := by
        simpa [WorkerPc.inTransit, WorkerPc.held, WorkerPc.owed] using hy
      have hdsp : dspRecords [toLogRecord r] = [toLogRecord r] := by
        simp [dspRecords, toLogRecord]
      rw [(Ledger.push_true hpol hp).accepted, dspRecords_append, hdsp, List.count_append, hyr]
      simp
  | took hp => simp [WorkerPc.inTransit, WorkerPc.held, WorkerPc.owed] at hy
  | popFailed | readInputSizeFailed | pushThrew | pushFailed | readOutputSizeFailed
  | recordThreadException | requestShutdown => cases hcalm
  | recordSignalProcessed =>
    right
    refine ⟨?_, by simp [WorkerPc.rank]⟩
    simpa [WorkerPc.inTransit, WorkerPc.held, WorkerPc.owed, recordOf] using hy
  | readInputSize | setInputQueueDepth | readClock | storeTimestamp | storeRunning
  | readLatencyClock | recordProcessingLatency =>
    exact .inr ⟨hy, by simp [WorkerPc.rank]⟩
  | _ => simp [WorkerPc.inTransit, WorkerPc.held, WorkerPc.owed] at hy

/-! ## Whose step it was -/

theorem Move.of_worker {s s' : State F N} {a : Action F N} (h : Move env s a s') {i : Fin N}
    (ha : a.1 = .worker i) :
    ∃ sh pc, WorkerMove env (workerBeat i) a.2 s.shared (s.workers i) sh pc ∧
      s' = { s with shared := sh, workers := Function.update s.workers i pc } := by
  cases h with
  | worker hm =>
    cases ha
    exact ⟨_, _, hm, rfl⟩
  | _ => cases ha

theorem Move.of_logger {s s' : State F N} {a : Action F N} (h : Move env s a s')
    (ha : a.1 = .logger) : ∃ sh pc, LoggerMove env (loggerBeat N) a.2 s.shared s.logger sh pc ∧
      s' = { s with shared := sh, logger := pc } := by
  cases h with
  | logger hm => exact ⟨_, _, hm, rfl⟩
  | _ => cases ha

/-- Nobody else moves a worker that has been started. -/
theorem Move.worker_eq {s s' : State F N} {a : Action F N} (h : Move env s a s')
    (hst : Started s) {i : Fin N} (ha : a.1 ≠ .worker i) (hi : s.workers i ≠ .notStarted) :
    s'.workers i = s.workers i := by
  cases h with
  | main hm =>
    have hstart := hst.starting
    cases hm with
    | @startWorker k hk hm =>
      simp only [State.Starting, hm] at hstart
      refine Function.update_of_ne ?_ _ _
      rintro rfl
      exact hi ((hstart.2.2 _).mpr le_rfl)
    | _ => rfl
  | @worker j o sh pc hm =>
    refine Function.update_of_ne ?_ _ _
    rintro rfl
    exact ha rfl
  | _ => rfl

/-- Nobody else moves a logger that has been started. -/
theorem Move.logger_eq {s s' : State F N} {a : Action F N} (h : Move env s a s')
    (hst : Started s) (ha : a.1 ≠ .logger) (hl : s.logger ≠ .notStarted) :
    s'.logger = s.logger := by
  cases h with
  | main hm =>
    have hstart := hst.starting
    cases hm with
    | startLogger hm =>
      simp only [State.Starting, hm] at hstart
      exact absurd hstart hl
    | _ => rfl
  | logger hm => exact absurd rfl ha
  | _ => rfl

/-! ## Runs without end -/

theorem trace_move (r : Lts.Trace (step (N := N) env)) (n : ℕ) :
    Move env (r.state n) (r.label n) (r.state (n + 1)) :=
  step_move (r.steps n)

theorem trace_reachable {r : Lts.Trace (step (N := N) env)} (h : Reachable env (r.state 0))
    (n : ℕ) : Reachable env (r.state n) := by
  obtain ⟨t₀, hreach⟩ := h
  exact ⟨t₀, hreach.trans (r.reaches (Nat.zero_le n))⟩

theorem trace_grows (r : Lts.Trace (step (N := N) env)) {n m : ℕ} (h : n ≤ m) :
    (r.state n).shared.input.Grows (r.state m).shared.input ∧
      (r.state n).shared.output.Grows (r.state m).shared.output := by
  induction m, h using Nat.le_induction with
  | base => exact ⟨.refl _, .refl _⟩
  | succ m _ ih =>
    exact ⟨ih.1.trans (trace_move r m).grows.1, ih.2.trans (trace_move r m).grows.2⟩

/-- An infinite run of the application from a reachable state, in which no thread throws and the
workers and the logger are scheduled fairly. -/
structure FairRun (env : Env F) (r : Lts.Trace (step (N := N) env)) : Prop where
  reachable : Reachable env (r.state 0)
  calm : ∀ n, (r.state n).Calm
  workers : ∀ i, r.Fair (fun a => a.1 = .worker i) fun a => a.2.throws = false
  logger : r.Fair (fun a => a.1 = .logger) fun a => a.2.throws = false

namespace FairRun

variable {r : Lts.Trace (step (N := N) env)}

theorem reachable_all (h : FairRun env r) (n : ℕ) : Reachable env (r.state n) :=
  trace_reachable h.reachable n

/-- A worker that cannot move has left nothing to pop. -/
theorem worker_blocked (h : FairRun env r) {n : ℕ} {i : Fin N}
    (hb : ∀ a : Action F N, a.1 = .worker i → a.2.throws = false →
      step env (r.state n) a = none) :
    (r.state n).shared.input.queue.queue = [] ∧ ((r.state n).workers i).inTransit env = 0 := by
  have hr := h.reachable_all n
  have hnone : workerStep env (workerBeat i) ((r.label n).2.kind (r.state n).shared)
      (r.state n).shared ((r.state n).workers i) = none := by
    simpa [step] using hb (.worker i, (r.label n).2.kind (r.state n).shared) rfl rfl
  rcases WorkerPc.blocked (Outside.kind_willing _ _) hr.fixed.output hnone with hj | ⟨hpc, hnil⟩
  · obtain ⟨hheld, howed, hdied⟩ := WorkerPc.idle_of_joined hj ((h.calm n).workers i)
    refine ⟨?_, by simp [WorkerPc.inTransit, hheld, howed]⟩
    by_cases hns : (r.state n).workers i = .notStarted
    · -- the producer was not started either
      have hcons := (r.state n).shared.input.conserved
      rw [hr.conserved.unstarted (hr.started.workers i hns), eq_comm,
        List.append_eq_nil_iff] at hcons
      exact hcons.2
    · exact (hr.conserved.ended i (WorkerPc.ended_of_joined hj hns hdied)).2
  · rw [hpc]
    exact ⟨hnil, by simp [WorkerPc.inTransit, WorkerPc.held, WorkerPc.owed]⟩

/-- A logger that cannot move has left nothing to pop and has written all it popped. -/
theorem logger_blocked (h : FairRun env r) {n : ℕ}
    (hb : ∀ a : Action F N, a.1 = .logger → a.2.throws = false →
      step env (r.state n) a = none) :
    (r.state n).shared.output.queue.queue = [] ∧ (r.state n).logger.line env = [] := by
  have hr := (h.reachable_all n).refines (h.calm n)
  have hnone : loggerStep env (loggerBeat N) ((r.label n).2.kind (r.state n).shared)
      (r.state n).shared (r.state n).logger = none := by
    simpa [step] using hb (.logger, (r.label n).2.kind (r.state n).shared) rfl rfl
  rcases LoggerPc.blocked (Outside.kind_willing _ _) hnone with hj | ⟨hpc, hnil⟩
  · have hend := LoggerPc.ended_of_joined hj (h.calm n).logger
    refine ⟨hr.buffer_nil hend, ?_⟩
    rcases hend with hl | hl <;> rw [hl] <;> rfl
  · rw [hpc]
    exact ⟨hnil, rfl⟩

/-! ## From the producer to the pool -/

theorem accepted_eq (h : FairRun env r) (n : ℕ) : (r.state n).shared.input.accepted =
    (r.state n).shared.input.popped ++ (r.state n).shared.input.queue.queue := by
  apply Ledger.accepted_eq
  rw [(h.reachable_all n).fixed.input]
  nofun

/-- Every signal is eventually popped. -/
theorem eventually_popped (h : FairRun env r) (hN : 0 < N) (t : ℕ) :
    ∃ m ≥ t, (r.state t).shared.input.accepted.length ≤ (r.state m).shared.input.popped.length := by
  have hfair := h.workers ⟨0, hN⟩
  refine r.eventually_served hfair (fun s => s.shared.input.popped.length)
    (fun s => (s.workers ⟨0, hN⟩).rank env) (recordWeight env + 18) ?_ ?_ ?_ ?_
  · exact fun n => (trace_move r n).grows.1.popped.length_le
  · intro n hn hmine
    obtain ⟨sh, pc, hm, hs⟩ := (trace_move r n).of_worker hmine
    rw [hs]
    simpa using hm.rank_or_took
  · intro n hn hlt hmine
    -- something has been accepted, so the pool is running
    have hle := (trace_grows r hn).1.accepted.length_le
    have hstarted : (r.state n).workers ⟨0, hN⟩ ≠ .notStarted := by
      intro hns
      have hnil := (h.reachable_all n).conserved.unstarted
        ((h.reachable_all n).started.workers _ hns)
      rw [hnil, List.length_nil] at hle
      omega
    rw [(trace_move r n).worker_eq (h.reachable_all n).started hmine hstarted]
  · intro n hn hb
    have hle := (trace_grows r hn).1.accepted.length_le
    rw [h.accepted_eq n, (h.worker_blocked hb).1, List.append_nil] at hle
    exact hle

/-! ## From the pool to the output queue -/

/-- The records of the popped signals are accepted by the output queue or on their way to it. -/
theorem popped_eq (h : FairRun env r) (n : ℕ) :
    (((r.state n).shared.input.popped.map (recordOf env) : List (LogRecord F)) :
        Multiset (LogRecord F)) =
      dspRecords (r.state n).shared.output.accepted +
        ∑ i, ((r.state n).workers i).inTransit env := by
  have hpop := (h.reachable_all n).conserved.popped
  have hrec := ((h.reachable_all n).refines (h.calm n)).records
  have hsum : (∑ i, ((r.state n).workers i).inTransit env) =
      (∑ i, ((r.state n).workers i).held).map (recordOf env) +
        ∑ i, ((r.state n).workers i).owed := by
    simp only [WorkerPc.inTransit, sum_add_distrib]
    rw [← Multiset.coe_mapAddMonoidHom, map_sum]
  rw [← Multiset.map_coe, hpop, Multiset.map_add, Multiset.map_coe, hrec, hsum]
  abel

open Classical in
/-- How often the output queue has accepted the record `y` from the pool by time `n`. -/
noncomputable def timesAccepted (r : Lts.Trace (step (N := N) env)) (y : LogRecord F) (n : ℕ) :
    ℕ :=
  (dspRecords (r.state n).shared.output.accepted).count y

theorem timesAccepted_mono (r : Lts.Trace (step (N := N) env)) (y : LogRecord F) :
    Monotone (timesAccepted r y) := by
  classical
  intro n m h
  exact ((trace_grows r h).2.accepted.sublist.filter _).count_le y

/-- One step of the worker that carries `y`. -/
theorem carries (h : FairRun env r) {n : ℕ} {i : Fin N} {y : LogRecord F}
    (hy : y ∈ ((r.state n).workers i).inTransit env) (hmine : (r.label n).1 = .worker i) :
    timesAccepted r y n < timesAccepted r y (n + 1) ∨
      y ∈ ((r.state (n + 1)).workers i).inTransit env ∧
        ((r.state (n + 1)).workers i).rank env < ((r.state n).workers i).rank env := by
  obtain ⟨sh, pc, hm, hs⟩ := (trace_move r n).of_worker hmine
  have hr := h.reachable_all n
  have hcalm : pc.threw = false := by
    have := (h.calm (n + 1)).workers i
    rw [hs] at this
    simpa using this
  unfold timesAccepted
  rw [hs]
  simpa using hm.carries hr.fixed.output_ne (hr.teardown.output_open hm.alive.1) hcalm hy

/-- Nobody takes `y` from the worker that carries it. -/
theorem carries_other (h : FairRun env r) {n : ℕ} {i : Fin N} {y : LogRecord F}
    (hy : y ∈ ((r.state n).workers i).inTransit env) (hmine : (r.label n).1 ≠ .worker i) :
    (r.state (n + 1)).workers i = (r.state n).workers i := by
  refine (trace_move r n).worker_eq (h.reachable_all n).started hmine ?_
  intro hns
  rw [hns] at hy
  simp [WorkerPc.inTransit, WorkerPc.held, WorkerPc.owed] at hy

/-- A record that a worker carries stays with it until it is accepted. -/
theorem carried (h : FairRun env r) {t : ℕ} {i : Fin N} {y : LogRecord F}
    (hy : y ∈ ((r.state t).workers i).inTransit env) {n : ℕ} (hn : n ≥ t) :
    timesAccepted r y t < timesAccepted r y n ∨ y ∈ ((r.state n).workers i).inTransit env := by
  induction n, hn using Nat.le_induction with
  | base => exact .inr hy
  | succ n hn ih =>
    rcases ih with hlt | hin
    · exact .inl (hlt.trans_le (timesAccepted_mono r y (Nat.le_succ n)))
    · by_cases hmine : (r.label n).1 = .worker i
      · rcases h.carries hin hmine with hlt | ⟨hin', -⟩
        · exact .inl ((timesAccepted_mono r y hn).trans_lt hlt)
        · exact .inr hin'
      · rw [h.carries_other hin hmine]
        exact .inr hin

/-- A record a worker carries is eventually accepted once more than before. -/
theorem eventually_pushed (h : FairRun env r) {t : ℕ} {i : Fin N} {y : LogRecord F}
    (hy : y ∈ ((r.state t).workers i).inTransit env) :
    ∃ m ≥ t, timesAccepted r y t < timesAccepted r y m := by
  refine r.eventually (h.workers i) (fun n => timesAccepted r y t < timesAccepted r y n)
    (fun s => (s.workers i).rank env) ?_ ?_ ?_
  · intro n hn hgoal hmine hgoal'
    have hin := (h.carried hy hn).resolve_left hgoal
    rcases h.carries hin hmine with hlt | ⟨-, hrank⟩
    · exact absurd ((timesAccepted_mono r y hn).trans_lt hlt) hgoal'
    · exact hrank
  · intro n hn hgoal hmine _
    have hin := (h.carried hy hn).resolve_left hgoal
    rw [h.carries_other hin hmine]
  · intro n hn hb
    refine (h.carried hy hn).resolve_right ?_
    rw [(h.worker_blocked hb).2]
    exact Multiset.notMem_zero y

open Classical in
/-- What has been popped and not yet accepted is carried by somebody, so it moves on. -/
theorem eventually_accepted_times (h : FairRun env r) (t : ℕ) (y : LogRecord F) :
    ∃ m ≥ t, ((r.state t).shared.input.popped.map (recordOf env)).count y ≤
      timesAccepted r y m := by
  generalize hc : ((r.state t).shared.input.popped.map (recordOf env)).count y = c
  -- induction on how often `y` is still to be accepted
  have hgap : ∀ k, ∀ n ≥ t, c - timesAccepted r y n = k → ∃ m ≥ t, c ≤ timesAccepted r y m := by
    intro k
    induction k using Nat.strong_induction_on with
    | _ k ih =>
      intro n hn hk
      by_cases hle : c ≤ timesAccepted r y n
      · exact ⟨n, hn, hle⟩
      · have hcount : c ≤ ((r.state n).shared.input.popped.map (recordOf env)).count y := by
          rw [← hc]
          exact ((trace_grows r hn).1.popped.sublist.map _).count_le y
        have heq := congrArg (Multiset.count y) (h.popped_eq n)
        rw [Multiset.coe_count, Multiset.count_add, Multiset.coe_count] at heq
        have hpos : y ∈ ∑ i, ((r.state n).workers i).inTransit env := by
          rw [← Multiset.one_le_count_iff_mem]
          have hdef : timesAccepted r y n =
            (dspRecords (r.state n).shared.output.accepted).count y := rfl
          omega
        obtain ⟨i, -, hi⟩ := Multiset.mem_sum.mp hpos
        obtain ⟨m, hm, hlt⟩ := h.eventually_pushed hi
        exact ih _ (by omega) m (le_trans hn hm) rfl
  exact hgap _ t le_rfl rfl

/-- Every popped signal is eventually processed and its record accepted. -/
theorem eventually_accepted (h : FairRun env r) (t : ℕ) :
    ∃ m ≥ t, (((r.state t).shared.input.popped.map (recordOf env) : List (LogRecord F)) :
        Multiset (LogRecord F)) ≤ dspRecords (r.state m).shared.output.accepted := by
  classical
  choose time htime hcount using h.eventually_accepted_times t
  let records := (r.state t).shared.input.popped.map (recordOf env)
  refine ⟨t + ∑ y ∈ records.toFinset, time y, Nat.le_add_right _ _, ?_⟩
  rw [Multiset.le_iff_count]
  intro y
  rw [Multiset.coe_count, Multiset.coe_count]
  by_cases hy : y ∈ records
  · have hle : time y ≤ t + ∑ y ∈ records.toFinset, time y :=
      (single_le_sum (fun _ _ => Nat.zero_le _) (List.mem_toFinset.mpr hy)).trans
        (Nat.le_add_left _ _)
    exact (hcount y).trans (timesAccepted_mono r y hle)
  · rw [List.count_eq_zero_of_not_mem hy]
    exact Nat.zero_le _

/-! ## From the output queue to the sinks -/

/-- Every accepted record is eventually popped or evicted. -/
theorem eventually_departed (h : FairRun env r) (t : ℕ) :
    ∃ m ≥ t, (r.state t).shared.output.accepted.length ≤
      (r.state m).shared.output.removed.length := by
  refine r.eventually_served h.logger (fun s => s.shared.output.removed.length)
    (fun s => s.logger.rank env) (2 * env.sinkCount + 14) ?_ ?_ ?_ ?_
  · exact fun n => (trace_move r n).grows.2.removed.length_le
  · intro n hn hmine
    obtain ⟨sh, pc, hm, hs⟩ := (trace_move r n).of_logger hmine
    rw [hs]
    exact hm.rank_or_took.imp_right fun h => ⟨h.1, h.2.2⟩
  · intro n hn hlt hmine
    have hle := (trace_grows r hn).2.accepted.length_le
    have hstarted : (r.state n).logger ≠ .notStarted := by
      intro hns
      rw [((h.reachable_all n).refines (h.calm n)).unstarted hns, List.length_nil] at hle
      omega
    rw [(trace_move r n).logger_eq (h.reachable_all n).started hmine hstarted]
  · intro n hn hb
    have hle := (trace_grows r hn).2.accepted.length_le
    rw [← Ledger.length_removed_of_nil (h.logger_blocked hb).1] at hle
    exact hle

/-- The logger eventually has written all it has popped. -/
theorem eventually_written (h : FairRun env r) (t : ℕ) :
    ∃ m ≥ t, (r.state m).logger.line env = [] := by
  refine r.eventually h.logger (fun n => (r.state n).logger.line env = [])
    (fun s => s.logger.rank env) ?_ ?_ ?_
  · intro n hn hgoal hmine _
    obtain ⟨sh, pc, hm, hs⟩ := (trace_move r n).of_logger hmine
    rw [hs]
    rcases hm.rank_or_took with hlt | ⟨-, hpc, -⟩
    · exact hlt
    · -- it pops only when it has nothing left to write
      rw [hpc] at hgoal
      exact absurd rfl hgoal
  · intro n hn hgoal hmine _
    have hstarted : (r.state n).logger ≠ .notStarted := by
      intro hns
      rw [hns] at hgoal
      exact hgoal rfl
    rw [(trace_move r n).logger_eq (h.reachable_all n).started hmine hstarted]
  · exact fun n _ hb => (h.logger_blocked hb).2

end FairRun

/-! ## The whole way -/

/-- The record of every accepted signal is eventually on every sink, or it was evicted for newer
records and counted as dropped. -/
theorem every_signal_logged (hN : 0 < N) {r : Lts.Trace (step (N := N) env)}
    (h : FairRun env r) (t : ℕ) :
    ∃ m ≥ t,
      (((r.state t).shared.input.accepted.map (recordOf env) : List (LogRecord F)) :
          Multiset (LogRecord F)) ≤
        ((dspRecords (r.state m).shared.output.popped ++
          dspRecords (r.state m).shared.output.evicted : List (LogRecord F)) :
            Multiset (LogRecord F)) ∧
      (∀ k < env.sinkCount, writtenLines ((r.state m).shared.sinks k) =
        linesOf env (r.state m).shared.output.popped) ∧
      (r.state m).shared.output.queue.dropped = (r.state m).shared.output.evicted.length := by
  obtain ⟨t₁, ht₁, hpopped⟩ := h.eventually_popped hN t
  obtain ⟨t₂, ht₂, haccepted⟩ := h.eventually_accepted t₁
  obtain ⟨t₃, ht₃, hdeparted⟩ := h.eventually_departed t₂
  obtain ⟨m, hm, hline⟩ := h.eventually_written t₃
  have hrefines := (h.reachable_all m).refines (h.calm m)
  refine ⟨m, by omega, ?_, ?_, hrefines.dropped_eq⟩
  · -- accepted signals, popped signals, accepted records, departed records
    have hsignals : (r.state t).shared.input.accepted <+: (r.state t₁).shared.input.popped := by
      have hgrows := (trace_grows r ht₁).1.accepted
      rw [h.accepted_eq t₁] at hgrows
      exact List.prefix_of_prefix_length_le hgrows (List.prefix_append _ _) hpopped
    have hrecords : (r.state t₂).shared.output.accepted <+:
        (r.state m).shared.output.removed.map Prod.fst := by
      have hgrows := (trace_grows r (ht₃.trans hm)).2.accepted
      have hlen := (trace_grows r hm).2.removed.length_le
      rw [(r.state m).shared.output.conserved] at hgrows
      refine List.prefix_of_prefix_length_le hgrows (List.prefix_append _ _) ?_
      rw [List.length_map]
      omega
    have hdsp : (dspRecords (r.state t₂).shared.output.accepted).Subperm
        (dspRecords (r.state m).shared.output.popped ++
          dspRecords (r.state m).shared.output.evicted) := by
      refine (hrecords.sublist.filter _).subperm.trans ?_
      rw [← dspRecords_append]
      exact ((departed_perm _).filter _).symm.subperm
    calc (((r.state t).shared.input.accepted.map (recordOf env) : List (LogRecord F)) :
            Multiset (LogRecord F))
        ≤ (r.state t₁).shared.input.popped.map (recordOf env) :=
          (hsignals.sublist.map _).subperm
      _ ≤ dspRecords (r.state t₂).shared.output.accepted := haccepted
      _ ≤ _ := hdsp
  · intro k hk
    obtain ⟨done, hlines, hsinks⟩ := hrefines.sinks
    rw [hline, List.append_nil] at hlines
    rw [hsinks k hk, writtenLines_trace, hline, hlines]
    simp

/-! ## Such runs exist -/

theorem Lts.Reaches.calm {s s' : State F N} (h : Lts.Reaches (step env) s s') (hs : Phases s)
    (hc : s'.Calm) : s.Calm := by
  have hall : Phases s' ∧ (s'.Calm → s.Calm) := by
    refine h.invariant (I := fun u => Phases u ∧ (u.Calm → s.Calm)) ?_ ⟨hs, id⟩
    intro u a u' hstep hu
    have hm := step_move hstep
    exact ⟨phases_move hm hu.1, fun hc' => hu.2 (calm_of_move hm hu.1.started hc')⟩
  exact hall.2 hc

/-- A pool and a logger that have caught up, while the main thread polls for ever. -/
theorem fairRun_of_waiting {t₀ : Time} {as : List (Action F N)} {s : State F N}
    (h : Lts.run (step env) (initial env N t₀) as = some s) (hmain : s.main = .waitTest)
    (htoken : s.shared.token = false) (hc : s.Calm)
    (hworkers : ∀ i, s.workers i = .waitAndPop) (hin : s.shared.input.queue.hasInput = false)
    (hlogger : s.logger = .waitAndPop) (hout : s.shared.output.queue.hasInput = false)
    (o o' : Outside F) (ho : o'.throws = false) (helapsed : o'.elapsed = true) :
    ∃ r : Lts.Trace (step (N := N) env), FairRun env r ∧
      ∀ n < as.length, r.state n = (Lts.run (step env) (initial env N t₀) (as.take n)).getD
        (initial env N t₀) := by
  have hpoll : step env s (.main, o) = some { s with main := .waitPoll } := by
    simp [step, mainStep, hmain, htoken]
  have htimeout : step env { s with main := .waitPoll } (.main, o') = some s := by
    simp only [step, mainStep, ho, helapsed, Bool.false_eq_true, if_false, if_true]
    rw [← hmain]
  let r := Lts.Trace.lasso as (.main, o) (.main, o') h hpoll htimeout
  have hzero : r.state 0 = initial env N t₀ := Lts.Trace.lasso_state_zero ..
  refine ⟨r, ⟨?_, ?_, ?_, ?_⟩, fun n hn => Lts.Trace.lasso_state_of_lt _ _ _ _ _ _ hn⟩
  · rw [hzero]
    exact ⟨t₀, .refl _⟩
  · -- the run is calm where it loops, hence before that too
    intro n
    have hlast : r.state (as.length + 2 * n) = s := Lts.Trace.lasso_state ..
    have hstart := r.reaches (Nat.zero_le n)
    have hreach := r.reaches (n := n) (m := as.length + 2 * n) (by omega)
    rw [hzero] at hstart
    rw [hlast] at hreach
    refine hreach.calm ?_ hc
    exact hstart.invariant (fun _ _ _ hs => phases_move (step_move hs)) (phases_initial env t₀)
  · intro i
    refine Lts.Trace.lasso_fair _ _ _ _ _ _ ?_
    rintro ⟨actor, o''⟩ rfl hproper
    have hthrows : o''.throws = false := hproper
    simp [step, workerStep, hworkers i, hthrows, Ledger.waitAndPop, hin]
  · refine Lts.Trace.lasso_fair _ _ _ _ _ _ ?_
    rintro ⟨actor, o''⟩ rfl hproper
    have hthrows : o''.throws = false := hproper
    simp [step, loggerStep, hlogger, hthrows, Ledger.waitAndPop, hout]

theorem WorkerPc.eq_waitAndPop {pc : WorkerPc F} (h : pc.rank env = 3) : pc = .waitAndPop := by
  cases pc <;> simp [WorkerPc.rank] at h ⊢

theorem LoggerPc.eq_waitAndPop {pc : LoggerPc F} (h : pc.rank env = env.sinkCount + 5) :
    pc = .waitAndPop := by
  cases pc <;> simp [LoggerPc.rank] at h ⊢ <;> omega

/-- One signal is produced, processed and logged. -/
def caughtUp : List (Action ℕ 1) :=
  plainly 5 0 .main ++ plainly 13 0 .producer ++ plainly 17 0 (.worker ⟨0, Nat.one_pos⟩) ++
    plainly 12 0 .logger

/-- One signal is accepted, processed and logged; then everybody waits for ever. -/
theorem every_signal_logged_one :
    ∃ r : Lts.Trace (step (N := 1) silentDefaults), FairRun silentDefaults r ∧
      (r.state 18).shared.input.accepted.length = 1 ∧
      (r.state 18).shared.sinks 0 = [] ∧
      ∃ m ≥ 18, (dspRecords (r.state m).shared.output.popped ++
          dspRecords (r.state m).shared.output.evicted) ≠ [] ∧
        writtenLines ((r.state m).shared.sinks 0) =
          linesOf silentDefaults (r.state m).shared.output.popped := by
  obtain ⟨s, hrun, hmain, htoken, hworkers, hin, hlogger, hout, hcp, hcw, hcl, hcd⟩ :=
    Lts.exists_run (step silentDefaults) (initial silentDefaults 1 0) caughtUp
    (fun s => s.main = .waitTest ∧ s.shared.token = false ∧
      (∀ i, (s.workers i).rank silentDefaults = 3) ∧ s.shared.input.queue.hasInput = false ∧
      s.logger.rank silentDefaults = 6 ∧ s.shared.output.queue.hasInput = false ∧
      s.producer.threw = false ∧ (∀ i, (s.workers i).threw = false) ∧ s.logger.threw = false ∧
      s.watchdog.threw = false)
    (by decide +kernel)
  obtain ⟨s₁, hrun₁, hacc, hsinks⟩ := Lts.exists_run (step silentDefaults)
    (initial silentDefaults 1 0) (caughtUp.take 18)
    (fun s => s.shared.input.accepted.length = 1 ∧ s.shared.sinks 0 = []) (by decide +kernel)
  obtain ⟨r, hr, hstates⟩ := fairRun_of_waiting hrun hmain htoken ⟨hcp, hcw, hcl, hcd⟩
    (fun i => WorkerPc.eq_waitAndPop (hworkers i)) hin (LoggerPc.eq_waitAndPop hlogger) hout
    { samples := fun _ => 0 } { elapsed := true, samples := fun _ => 0 } rfl rfl
  have hstate : r.state 18 = s₁ := by
    rw [hstates 18 (by decide), hrun₁, Option.getD_some]
  obtain ⟨m, hm, hle, hlines, -⟩ := every_signal_logged Nat.one_pos hr 18
  refine ⟨r, hr, by rw [hstate, hacc], by rw [hstate, hsinks], m, hm, ?_, hlines 0 Nat.one_pos⟩
  intro hnil
  have hcard := Multiset.card_le_card hle
  rw [hnil, hstate, Multiset.coe_card, List.length_map, hacc] at hcard
  simp at hcard

end RadarRT
