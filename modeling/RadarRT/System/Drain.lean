import Mathlib.Algebra.BigOperators.Fin
import Mathlib.Algebra.Order.BigOperators.Group.Finset
import RadarRT.Lib.Tally
import RadarRT.System.Phases
import RadarRT.System.Schedules

/-!
# The ordered drain completes

Once `shutdown()` has set the token and closed the input queue, the system only has finitely
much left to do. The measure counts it: every program point has a rank, the number of steps to
the end of its thread when the queues give it nothing more; a buffered log record is worth what
the logger spends on it, a buffered signal what a worker spends on it and the record it leads to.

No thread waits for something that will not come: at each join the main thread has already given
the signal the joined thread may be waiting for.
-/

namespace RadarRT

open Finset

variable {F : Type} {N : ℕ} {env : Env F} {beat : ℕ} {o : Outside F} {sh sh' : Shared F}

/-! ## Ranks -/

/-- What a buffered log record is worth: the steps of the logger from one wait to the next. -/
def recordWeight (env : Env F) : ℕ := env.sinkCount + 9

/-- What a buffered signal is worth: the steps of a worker, and the record it pushes. -/
def signalWeight (env : Env F) : ℕ := recordWeight env + 15

def ProducerPc.rank : ProducerPc → ℕ
  | .notStarted | .finished _ => 0
  | .requestShutdown => 1
  | .recordThreadException => 2
  | .loopTest _ | .waitFor _ => 3
  | .configure | .markWaiting _ | .recordDeadlineMiss _ => 4
  | .checkDeadline _ => 5
  | .setInputDrops _ _ => 6
  | .readInputDrops _ => 7
  | .setInputQueueDepth _ _ => 8
  | .readInputSize _ => 9
  | .recordSignalProduced _ => 10
  | .push _ _ => 11
  | .storeRunning _ _ => 12
  | .storeTimestamp _ _ => 13
  | .readClock _ => 14

def WorkerPc.rank (env : Env F) : WorkerPc F → ℕ
  | .notStarted | .finished _ => 0
  | .requestShutdown _ => 1
  | .recordThreadException _ => 2
  | .waitAndPop => 3
  | .markWaiting => 4
  | .configure | .setLogDrops _ => 5
  | .readLogDrops => 6
  | .setOutputQueueDepth _ => 7
  | .readOutputSize => 8
  -- from here on the worker still owes the output queue a record
  | .push _ => recordWeight env + 9
  | .recordProcessingLatency _ _ => recordWeight env + 10
  | .readLatencyClock _ => recordWeight env + 11
  | .recordSignalProcessed _ => recordWeight env + 12
  | .storeRunning _ => recordWeight env + 13
  | .storeTimestamp _ _ => recordWeight env + 14
  | .readClock _ => recordWeight env + 15
  | .setInputQueueDepth _ _ => recordWeight env + 16
  | .readInputSize _ => recordWeight env + 17

def LoggerPc.rank (env : Env F) : LoggerPc F → ℕ
  | .notStarted | .finished _ => 0
  | .requestShutdown => 1
  | .recordThreadException => 2
  | .flush k => 3 + (env.sinkCount + 1 - k)
  | .waitAndPop => env.sinkCount + 5
  | .markWaiting => env.sinkCount + 6
  | .configure => env.sinkCount + 7
  | .write _ k => env.sinkCount + 7 + (env.sinkCount - k)
  | .formatLine _ => 2 * env.sinkCount + 8
  | .storeRunning _ => 2 * env.sinkCount + 9
  | .storeTimestamp _ _ => 2 * env.sinkCount + 10
  | .readClock _ => 2 * env.sinkCount + 11
  | .setOutputQueueDepth _ _ => 2 * env.sinkCount + 12
  | .readOutputSize _ => 2 * env.sinkCount + 13

/-- What a scan has left from heartbeat `i` of `size` on: each may cost a report. -/
def scanRank (env : Env F) (size i : ℕ) : ℕ := 5 + (size - i) * (recordWeight env + 4)

def WatchdogPc.rank (env : Env F) (size : ℕ) : WatchdogPc → ℕ
  | .notStarted | .finished _ => 0
  | .requestShutdown => 1
  | .recordThreadException => 2
  | .waitFor => 3
  | .configure | .escalate => 4
  | .loadState sc => scanRank env size sc.index
  | .push sc _ => scanRank env size (sc.index + 1) + recordWeight env + 1
  | .recordWatchdogStall sc _ => scanRank env size (sc.index + 1) + recordWeight env + 2
  | .loadTimestamp sc => scanRank env size (sc.index + 1) + recordWeight env + 3
  | .readClock => scanRank env size 0 + 1

def MainPc.rank (N : ℕ) : MainPc → ℕ
  | .joinProducer => N + 6
  | .joinWorker i => N - i + 5
  | .closeOutput => 4
  | .joinLogger => 3
  | .joinWatchdog => 2
  | _ => 0

theorem scanRank_succ {size i : ℕ} (h : i < size) :
    scanRank env size i = scanRank env size (i + 1) + recordWeight env + 4 := by
  obtain ⟨k, rfl⟩ : ∃ k, size = i + k + 1 := ⟨size - i - 1, by omega⟩
  simp only [scanRank, show i + k + 1 - i = k + 1 by omega,
    show i + k + 1 - (i + 1) = k by omega, Nat.succ_mul]
  omega

/-! ## Every step counts down -/

theorem ProducerMove.rank_lt {pc pc' : ProducerPc} (h : ProducerMove env beat o sh pc sh' pc')
    (ht : sh.token = true) (hc : sh.input.queue.closed = true) :
    pc'.rank < pc.rank ∧ sh'.input.queue = sh.input.queue ∧ sh'.output = sh.output := by
  cases h with
  -- a push to the closed queue can only return `false`, which ends the loop
  | pushed hp | pushThrew _ hp => cases (Ledger.push_of_closed hc hp).1
  | refused hp => exact ⟨by simp [ProducerPc.rank], (Ledger.push_of_closed hc hp).2, rfl⟩
  | sample hf | waitElapsed hf =>
    -- with the token set, the loop is left at its test and after its wait
    rw [ht] at hf
    cases hf
  | _ => exact ⟨by simp [ProducerPc.rank], rfl, rfl⟩

theorem WorkerMove.rank_lt {pc pc' : WorkerPc F} (h : WorkerMove env beat o sh pc sh' pc') :
    pc'.rank env + signalWeight env * sh'.input.queue.queue.length +
        recordWeight env * sh'.output.queue.queue.length <
      pc.rank env + signalWeight env * sh.input.queue.queue.length +
        recordWeight env * sh.output.queue.queue.length := by
  cases h with
  | ended hp =>
    obtain ⟨-, -, rfl⟩ := Ledger.waitAndPop_nullopt hp
    simp [WorkerPc.rank]
  | took hp =>
    -- the weight of the signal pays for the round it starts
    have hfront := (Ledger.waitAndPop_item hp).front
    rw [hfront]
    simp only [WorkerPc.rank, List.length_cons, Nat.mul_succ, signalWeight]
    omega
  | pushed hp | pushThrew _ hp =>
    -- the record that the rank still counted is buffered now, or lost
    have := Nat.mul_le_mul_left (recordWeight env) (Ledger.length_push hp)
    simp only [WorkerPc.rank, Nat.mul_succ] at this ⊢
    omega
  | _ => simp [WorkerPc.rank]

theorem LoggerMove.rank_lt {pc pc' : LoggerPc F} (h : LoggerMove env beat o sh pc sh' pc') :
    pc'.rank env + recordWeight env * sh'.output.queue.queue.length <
      pc.rank env + recordWeight env * sh.output.queue.queue.length := by
  cases h with
  | ended hp =>
    obtain ⟨-, -, rfl⟩ := Ledger.waitAndPop_nullopt hp
    simp only [LoggerPc.rank]
    omega
  | took hp =>
    -- the weight of the record pays for its line on every sink
    have hfront := (Ledger.waitAndPop_item hp).front
    rw [hfront]
    simp only [LoggerPc.rank, List.length_cons, Nat.mul_succ, recordWeight]
    omega
  | _ =>
    simp only [LoggerPc.rank, Shared.toSink_output, Shared.storeState_output,
      Shared.storeTimestamp_output, Shared.requestShutdown_output]
    omega

theorem WatchdogMove.rank_lt {pc pc' : WatchdogPc} (h : WatchdogMove env o sh pc sh' pc')
    (ht : sh.token = true) :
    pc'.rank env sh.registry.size + recordWeight env * sh'.output.queue.queue.length <
      pc.rank env sh.registry.size + recordWeight env * sh.output.queue.queue.length := by
  cases h with
  | waitElapsed hf =>
    -- with the token set, no new scan begins
    rw [ht] at hf
    cases hf
  | skip hi _ | running hi _ =>
    simp only [WatchdogPc.rank, Scan.next, scanRank_succ hi]
    omega
  | escalating | scanned =>
    simp only [WatchdogPc.rank, scanRank]
    omega
  | pushed hp | pushThrew _ hp =>
    have := Nat.mul_le_mul_left (recordWeight env) (Ledger.length_push hp)
    simp only [WatchdogPc.rank, Scan.next, scanRank, Nat.mul_succ] at this ⊢
    omega
  | fresh | stalled | pushFailed | recordWatchdogStall =>
    simp only [WatchdogPc.rank, Scan.next, Scan.report, scanRank]
    omega
  | _ => simp [WatchdogPc.rank]

/-- What is left to do. -/
def State.remaining (env : Env F) (s : State F N) : ℕ :=
  s.main.rank N + s.producer.rank + (∑ i, (s.workers i).rank env) + s.logger.rank env +
    s.watchdog.rank env s.shared.registry.size +
    signalWeight env * s.shared.input.queue.queue.length +
    recordWeight env * s.shared.output.queue.queue.length

/-- The token is set and the input queue is closed. -/
structure Draining (s : State F N) : Prop where
  token : s.shared.token = true
  closed : s.shared.input.queue.closed = true

theorem MainMove.rank_lt {s s' : State F N} (h : MainMove o s s') (hst : 8 ≤ s.main.stage) :
    s'.main.rank N < s.main.rank N ∧ s'.producer = s.producer ∧ s'.workers = s.workers ∧
      s'.logger = s.logger ∧ s'.watchdog = s.watchdog ∧
      s'.shared.registry = s.shared.registry ∧ s'.shared.input = s.shared.input ∧
      s'.shared.output.queue.queue = s.shared.output.queue.queue := by
  cases h with
  | joinProducer hm | joinWorker _ hm | workersJoined _ hm | closeOutput hm | joinLogger hm
  | joinWatchdog hm =>
    refine ⟨?_, rfl, rfl, rfl, rfl, rfl, rfl, rfl⟩
    simp only [hm, MainPc.rank]
    omega
  | rollback hm =>
    have := MainPc.stage_le_three hm
    omega
  | startLogger hm | startWatchdog hm | startWorker _ hm | workersStarted _ hm
  | startProducer hm | seen hm | poll hm | timeout hm | signal hm | waitRequest hm | again hm
  | shutdown hm | requestShutdown hm | closeInput hm =>
    rw [hm] at hst
    simp [MainPc.stage] at hst

theorem draining_move {s s' : State F N} {a : Action F N} (h : Move env s a s')
    (hs : Draining s) : Draining s' := by
  cases h with
  | main hm =>
    cases hm with
    | waitRequest | requestShutdown => exact ⟨rfl, hs.closed⟩
    | closeInput => exact ⟨hs.token, rfl⟩
    | _ => exact ⟨hs.token, hs.closed⟩
  | producer hm => exact ⟨hm.extends.token hs.token, hm.extends.input.closed.trans hs.closed⟩
  | worker hm => exact ⟨hm.extends.token hs.token, hm.extends.input.closed.trans hs.closed⟩
  | logger hm => exact ⟨hm.extends.token hs.token, hm.extends.input.closed.trans hs.closed⟩
  | watchdog hm => exact ⟨hm.extends.token hs.token, hm.extends.input.closed.trans hs.closed⟩

theorem LoggerMove.input_eq {pc pc' : LoggerPc F} (h : LoggerMove env beat o sh pc sh' pc') :
    sh'.input = sh.input := by
  cases h <;> rfl

theorem WatchdogMove.input_eq {pc pc' : WatchdogPc} (h : WatchdogMove env o sh pc sh' pc') :
    sh'.input = sh.input := by
  cases h <;> rfl

theorem remaining_lt {s s' : State F N} {a : Action F N} (h : Move env s a s')
    (ht : Teardown s) (hs : Draining s) : s'.remaining env < s.remaining env := by
  have hsize : ∀ {sh : Shared F}, s.shared.Extends sh → sh.registry.size = s.shared.registry.size :=
    fun hext => congrArg List.length hext.names
  cases h with
  | main hm =>
    obtain ⟨hlt, hp, hw, hl, hd, hr, hi, ho⟩ := hm.rank_lt (ht.inputClosed.mp hs.closed)
    simp only [State.remaining, hp, hw, hl, hd, hr, hi, ho]
    omega
  | producer hm =>
    obtain ⟨hlt, hi, ho⟩ := hm.rank_lt hs.token hs.closed
    simp only [State.remaining, hi, ho, hsize hm.extends]
    omega
  | @worker i o sh pc hm =>
    have hlt := hm.rank_lt
    have hsum := Tally.sum_update_add (WorkerPc.rank env) s.workers i pc
    simp only [State.remaining, hsize hm.extends]
    omega
  | logger hm =>
    have hlt := hm.rank_lt
    simp only [State.remaining, hm.input_eq, hsize hm.extends]
    omega
  | watchdog hm =>
    have hlt := hm.rank_lt hs.token
    simp only [State.remaining, hm.input_eq, hsize hm.extends]
    omega

/-! ## Nobody waits for a signal that was not given -/

/-- The outside world lets calls succeed and the clock advance. -/
structure Outside.Willing (o : Outside F) (sh : Shared F) : Prop where
  failure : o.failure = .none
  now : sh.clock ≤ o.now

theorem Outside.Willing.throws {o : Outside F} (h : o.Willing sh) : o.throws = false := by
  simp [Outside.throws, h.failure]

theorem Outside.Willing.readClock {o : Outside F} (h : o.Willing sh) {pc : Type}
    (next : Time → pc) : (sh.readClock o next).isSome = true := by
  simp [Shared.readClock, h.now]

theorem producerStep_isSome (ho : o.Willing sh) (ht : sh.token = true)
    (hc : sh.input.queue.closed = true) {pc : ProducerPc} (hj : pc.joined = false) :
    (producerStep env beat o sh pc).isSome = true := by
  cases pc with
  | notStarted | finished => cases hj
  | configure | readClock | checkDeadline =>
    simp only [producerStep]
    exact ho.readClock _
  | push d t =>
    simp only [producerStep, ho.failure, reduceCtorEq, if_false, Ledger.push_closed_eq hc]
    split <;> simp_all
  | waitFor d => simp [producerStep, ho.throws, ht]
  | _ => rfl

theorem workerStep_isSome (ho : o.Willing sh) (hc : sh.input.queue.closed = true)
    (hpol : sh.output.queue.policy = .dropOldest) {pc : WorkerPc F} (hj : pc.joined = false) :
    (workerStep env beat o sh pc).isSome = true := by
  cases pc with
  | notStarted | finished => cases hj
  | waitAndPop =>
    simp only [workerStep, ho.throws, Bool.false_eq_true, if_false,
      Ledger.waitAndPop_of_closed hc]
    split <;> simp_all
  | readClock | readLatencyClock =>
    simp only [workerStep]
    exact ho.readClock _
  | push r =>
    simp only [workerStep, ho.failure, reduceCtorEq, if_false, Ledger.push_dropOldest hpol]
    split <;> simp_all
  | _ => rfl

theorem loggerStep_isSome (ho : o.Willing sh) (hc : sh.output.queue.closed = true)
    {pc : LoggerPc F} (hj : pc.joined = false) : (loggerStep env beat o sh pc).isSome = true := by
  cases pc with
  | notStarted | finished => cases hj
  | waitAndPop =>
    simp only [loggerStep, ho.throws, Bool.false_eq_true, if_false,
      Ledger.waitAndPop_of_closed hc]
    split <;> simp_all
  | readClock =>
    simp only [loggerStep]
    exact ho.readClock _
  | write | flush =>
    simp only [loggerStep, ho.throws]
    split <;> rfl
  | _ => rfl

theorem watchdogStep_isSome (ho : o.Willing sh) (ht : sh.token = true)
    (hpol : sh.output.queue.policy = .dropOldest) {pc : WatchdogPc} (hj : pc.joined = false) :
    (watchdogStep env o sh pc).isSome = true := by
  cases pc with
  | notStarted | finished => cases hj
  | waitFor => simp [watchdogStep, ho.throws, ht]
  | readClock =>
    simp only [watchdogStep]
    exact ho.readClock _
  | loadState =>
    simp only [watchdogStep]
    split <;> rfl
  | push sc age =>
    simp only [watchdogStep, ho.failure, reduceCtorEq, if_false, Ledger.push_dropOldest hpol]
    split <;> simp_all
  | _ => rfl

/-- An outside world that is willing exists wherever a step was ever taken. -/
theorem exists_willing {s : State F N} (h : Reachable env s)
    (hc : s.shared.input.queue.closed = true) (sh : Shared F) : ∃ o : Outside F, o.Willing sh := by
  obtain ⟨t₀, as, has⟩ := h
  cases as with
  | nil =>
    cases has
    cases hc
  | cons a as => exact ⟨{ a.2 with failure := .none, now := sh.clock }, rfl, le_rfl⟩

/-- `T` can take a step in which no call throws. -/
def CanStep (env : Env F) (s : State F N) (T : Actor N) : Prop :=
  ∃ o : Outside F, o.failure = .none ∧ (step env s (T, o)).isSome = true

/-- Main is joining `T`. -/
def State.Joins (s : State F N) : Actor N → Prop
  | .main => False
  | .producer => s.main = .joinProducer
  | .worker i => s.main = .joinWorker i
  | .logger => s.main = .joinLogger
  | .watchdog => s.main = .joinWatchdog

/-- `T` has finished, or was never started; main has when `shutdown()` has returned. -/
def State.Ended (s : State F N) : Actor N → Prop
  | .main => s.main = .returned
  | .producer => s.producer.joined = true
  | .worker i => (s.workers i).joined = true
  | .logger => s.logger.joined = true
  | .watchdog => s.watchdog.joined = true

/-- Whoever main joins can move, unless it has finished. -/
theorem canStep_of_joins {s : State F N} (h : Reachable env s) (hs : Draining s) {T : Actor N}
    (hj : s.Joins T) (he : ¬ s.Ended T) : CanStep env s T := by
  obtain ⟨o, ho⟩ := exists_willing h hs.closed s.shared
  refine ⟨o, ho.failure, ?_⟩
  cases T with
  | main => exact hj.elim
  | producer =>
    -- `push` returns on the closed queue, and the wait between samples sees the token
    rw [step, Option.isSome_map]
    exact producerStep_isSome ho hs.token hs.closed (by simpa [State.Ended] using he)
  | worker i =>
    -- `waitAndPop` returns on the closed queue, and a push to the output queue never waits
    rw [step, Option.isSome_map]
    exact workerStep_isSome ho hs.closed h.fixed.output (by simpa [State.Ended] using he)
  | logger =>
    -- main closes the output queue before it joins the logger
    have hc : s.shared.output.queue.closed = true := by
      rw [h.teardown.outputClosed, show s.main = .joinLogger from hj]
      decide
    rw [step, Option.isSome_map]
    exact loggerStep_isSome ho hc (by simpa [State.Ended] using he)
  | watchdog =>
    -- its wait sees the token
    rw [step, Option.isSome_map]
    exact watchdogStep_isSome ho hs.token h.fixed.output (by simpa [State.Ended] using he)

/-- Main itself can move on, or is joining someone who has not finished, or has returned. -/
theorem main_progress {s : State F N} (h : Reachable env s) (hs : Draining s) :
    s.main = .returned ∨ CanStep env s .main ∨ ∃ T, s.Joins T ∧ ¬ s.Ended T := by
  obtain ⟨o, ho⟩ := exists_willing h hs.closed s.shared
  have hstage : 8 ≤ s.main.stage := h.teardown.inputClosed.mp hs.closed
  have hcan : (mainStep o s).isSome = true → CanStep env s .main := fun h => ⟨o, ho.failure, h⟩
  cases hm : s.main with
  | joinProducer =>
    by_cases hj : s.producer.joined = true
    · exact .inr (.inl (hcan (by simp [mainStep, hm, hj])))
    · exact .inr (.inr ⟨.producer, hm, hj⟩)
  | joinWorker i =>
    by_cases hi : i < N
    · by_cases hj : (s.workers ⟨i, hi⟩).joined = true
      · exact .inr (.inl (hcan (by simp [mainStep, hm, hi, hj])))
      · exact .inr (.inr ⟨.worker ⟨i, hi⟩, hm, hj⟩)
    · exact .inr (.inl (hcan (by simp [mainStep, hm, hi])))
  | closeOutput => exact .inr (.inl (hcan (by simp [mainStep, hm])))
  | joinLogger =>
    by_cases hj : s.logger.joined = true
    · exact .inr (.inl (hcan (by simp [mainStep, hm, hj])))
    · exact .inr (.inr ⟨.logger, hm, hj⟩)
  | joinWatchdog =>
    by_cases hj : s.watchdog.joined = true
    · exact .inr (.inl (hcan (by simp [mainStep, hm, hj])))
    · exact .inr (.inr ⟨.watchdog, hm, hj⟩)
  | returned => exact .inl rfl
  | _ =>
    -- at the other points the input queue is still open
    rw [hm] at hstage
    simp [MainPc.stage] at hstage

/-- Once `shutdown()` has returned every thread has ended. -/
theorem ended_of_returned {s : State F N} (h : Teardown s) (hm : s.main = .returned)
    (T : Actor N) : s.Ended T := by
  cases T with
  | main => exact hm
  | producer => exact h.producer (by rw [hm]; decide)
  | worker i => exact h.workers i (by rw [hm]; exact i.isLt)
  | logger => exact h.logger (by rw [hm]; decide)
  | watchdog => exact h.watchdog (by rw [hm]; decide)

/-- From any state in which `shutdown()` has set the token and closed the input queue, whoever
was started and however threads die: no schedule is infinite, the only states in which no thread
can move without an exception are those where `shutdown()` has returned and every thread has
ended, and a thread that is being joined can always move. -/
theorem ordered_drain_completes {s : State F N} (h : Reachable env s)
    (htoken : s.shared.token = true) (hclosed : s.shared.input.queue.closed = true) :
    (¬ ∃ f : ℕ → State F N, f 0 = s ∧ ∀ n, ∃ a, step env (f n) a = some (f (n + 1))) ∧
    ∀ s', Lts.Reaches (step env) s s' →
      ((∀ T, ¬ CanStep env s' T) → ∀ T, s'.Ended T) ∧
      (∀ T, s'.Joins T → ¬ s'.Ended T → CanStep env s' T) := by
  have hs : Draining s := ⟨htoken, hclosed⟩
  refine ⟨?_, ?_⟩
  · refine Lts.no_infinite_run (I := fun s => Teardown s ∧ Draining s)
      (μ := State.remaining env) ?_ ?_
      ⟨h.teardown, hs⟩
    · intro s a s' hstep hI
      exact ⟨teardown_move (step_move hstep) hI.1, draining_move (step_move hstep) hI.2⟩
    · intro s a s' hstep hI
      exact remaining_lt (step_move hstep) hI.1 hI.2
  · intro s' hreach
    have hr : Reachable env s' := by
      obtain ⟨t₀, hinit⟩ := h
      exact ⟨t₀, hinit.trans hreach⟩
    have hs' : Draining s' :=
      hreach.invariant (fun _ _ _ hstep => draining_move (step_move hstep)) hs
    refine ⟨fun hstuck => ?_, fun T => canStep_of_joins hr hs'⟩
    rcases main_progress hr hs' with hm | hcan | ⟨T, hj, he⟩
    · exact ended_of_returned hr.teardown hm
    · exact absurd hcan (hstuck .main)
    · exact absurd (canStep_of_joins hr hs' hj he) (hstuck T)

/-- The first worker cannot be started: the rollback drains a logger and a watchdog. -/
theorem ordered_drain_completes_rollback :
    ∃ s : State ℕ 1, Reachable silentDefaults s ∧ s.main = .joinProducer ∧ s.rethrow = true ∧
      s.logger.joined = false ∧
      ¬ ∃ f : ℕ → State ℕ 1, f 0 = s ∧
        ∀ n, ∃ a, step silentDefaults (f n) a = some (f (n + 1)) := by
  obtain ⟨s, hrun, hm, hr, hl, ht, hc⟩ := Lts.exists_run
    (step silentDefaults) (initial silentDefaults 1 0)
    (plainly 2 0 .main ++ [throwing .main] ++ plainly 3 0 .main)
    (fun s => s.main = .joinProducer ∧ s.rethrow = true ∧ s.logger.joined = false ∧
      s.shared.token = true ∧ s.shared.input.queue.closed = true)
    (by decide +kernel)
  have hreach := reachable_of_run hrun
  exact ⟨s, hreach, hm, hr, hl, (ordered_drain_completes hreach ht hc).1⟩

end RadarRT
