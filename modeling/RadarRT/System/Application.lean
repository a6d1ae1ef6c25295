import RadarRT.Lib.Lts
import RadarRT.System.Threads

/-!
# The application

`Application::run` on the main thread, and the whole system: main, the producer, `N` workers, the
logger and the watchdog over one shared state. An action is a thread and what the outside world
decides for its step; any interleaving of actions is a schedule.

`startThreads` starts the consumers before the producer. A `start()` that throws goes to the
`catch (...)` of `run`, which is the same `shutdown()` with the exception rethrown after it.
Joining is a step of the main thread that is enabled once the joined thread has finished, or was
never started (`ManagedThread::join` is then a no-op).
-/

namespace RadarRT

/-- Program points of the main thread; `i` numbers the workers. -/
inductive MainPc where
  | startLogger
  | startWatchdog
  | startWorker (i : ℕ)
  | startProducer
  /-- The loop test of `waitForShutdown`. -/
  | waitTest
  /-- Inside `ppoll`. -/
  | waitPoll
  /-- `requestShutdown`, after a signal or in the handler of a failed wait. -/
  | waitRequest
  /-- At the guard of `shutdown()`. -/
  | shutdown
  | requestShutdown
  | closeInput
  | joinProducer
  | joinWorker (i : ℕ)
  | closeOutput
  | joinLogger
  | joinWatchdog
  /-- `shutdown()` has returned. -/
  | returned
deriving DecidableEq, Repr

/-- The whole system with `N` workers. -/
structure State (F : Type) (N : ℕ) where
  main : MainPc
  /-- `stopped_`, the guard that makes a second `shutdown()` a no-op. -/
  stopped : Bool
  /-- `run` rethrows after `shutdown()`. -/
  rethrow : Bool
  producer : ProducerPc
  workers : Fin N → WorkerPc F
  logger : LoggerPc F
  watchdog : WatchdogPc
  shared : Shared F

/-- Who takes a step. -/
inductive Actor (N : ℕ) where
  | main
  | producer
  | worker (i : Fin N)
  | logger
  | watchdog
deriving DecidableEq

abbrev Action (F : Type) (N : ℕ) := Actor N × Outside F

variable {F : Type} {N : ℕ}

/-! ## Finished threads -/

/-- `join()` returns at once: the thread has finished or was never started. -/
def ProducerPc.joined : ProducerPc → Bool
  | .notStarted => true
  | .finished _ => true
  | _ => false

def WorkerPc.joined : WorkerPc F → Bool
  | .notStarted => true
  | .finished _ => true
  | _ => false

def LoggerPc.joined : LoggerPc F → Bool
  | .notStarted => true
  | .finished _ => true
  | _ => false

def WatchdogPc.joined : WatchdogPc → Bool
  | .notStarted => true
  | .finished _ => true
  | _ => false

/-! ## The registry -/

/-- Registration numbers, in the order of `Application`'s constructor. -/
def producerBeat : ℕ := 0

def workerBeat (i : Fin N) : ℕ := i.val + 1

def loggerBeat (N : ℕ) : ℕ := N + 1

/-- The registry after construction: the producer, one heartbeat per worker, the logger. -/
def initialRegistry (N : ℕ) : HeartbeatRegistry :=
  (((List.range N).map fun i => "dsp-worker-" ++ toString i).foldl
    HeartbeatRegistry.registerHeartbeat
    (({} : HeartbeatRegistry).registerHeartbeat "producer")).registerHeartbeat "logger"

theorem foldl_registerHeartbeat (names : List String) (r : HeartbeatRegistry) :
    (names.foldl HeartbeatRegistry.registerHeartbeat r).heartbeats = r.heartbeats := by
  induction names generalizing r with
  | nil => rfl
  | cons name names ih => exact ih _

/-- Nobody has beaten yet. -/
theorem initialRegistry_heartbeats (N i : ℕ) : (initialRegistry N).heartbeats i = {} := by
  show (List.foldl _ _ _ : HeartbeatRegistry).heartbeats i = {}
  rw [foldl_registerHeartbeat]
  rfl

/-- `Application` as constructed, before `run()`; `t₀` is the first possible clock reading. -/
def initial (env : Env F) (N : ℕ) (t₀ : Time) : State F N where
  main := .startLogger
  stopped := false
  rethrow := false
  producer := .notStarted
  workers := fun _ => .notStarted
  logger := .notStarted
  watchdog := .notStarted
  shared :=
    { token := false
      input := .opened env.config.inputCapacity .block env.inputCapacity_pos
      output := .opened env.config.outputCapacity .dropOldest env.outputCapacity_pos
      registry := initialRegistry N
      clock := t₀
      metrics := {}
      sinks := fun _ => []
      processed := [] }

/-! ## The main thread -/

/-- A `start()` threw: `catch (...)` runs `shutdown()` and rethrows. -/
def State.rollback (s : State F N) : State F N := { s with main := .shutdown, rethrow := true }

/-- `Application::run`. -/
def mainStep (o : Outside F) (s : State F N) : Option (State F N) :=
  match s.main with
  | .startLogger =>
    some (if o.throws then s.rollback
      else { s with main := .startWatchdog, logger := .configure })
  | .startWatchdog =>
    some (if o.throws then s.rollback
      else { s with main := .startWorker 0, watchdog := .configure })
  | .startWorker i =>
    if o.throws then some s.rollback
    else if h : i < N then some { s with
      main := .startWorker (i + 1)
      workers := Function.update s.workers ⟨i, h⟩ .configure }
    else some { s with main := .startProducer }
  | .startProducer =>
    some (if o.throws then s.rollback
      else { s with main := .waitTest, producer := .configure })
  | .waitTest => some { s with main := if s.shared.token then .shutdown else .waitPoll }
  | .waitPoll =>
    -- a timeout polls again; a signal and a failed wait both request shutdown
    some { s with main := if o.throws then .waitRequest
      else if o.elapsed then .waitTest else .waitRequest }
  | .waitRequest => some { s with main := .shutdown, shared := s.shared.requestShutdown }
  | .shutdown =>
    some (if s.stopped then { s with main := .returned }
      else { s with main := .requestShutdown, stopped := true })
  | .requestShutdown =>
    some { s with main := .closeInput, shared := s.shared.requestShutdown }
  | .closeInput => some { s with
      main := .joinProducer
      shared := { s.shared with input := s.shared.input.close } }
  | .joinProducer => if s.producer.joined then some { s with main := .joinWorker 0 } else none
  | .joinWorker i =>
    if h : i < N then
      if (s.workers ⟨i, h⟩).joined then some { s with main := .joinWorker (i + 1) } else none
    else some { s with main := .closeOutput }
  | .closeOutput => some { s with
      main := .joinLogger
      shared := { s.shared with output := s.shared.output.close } }
  | .joinLogger => if s.logger.joined then some { s with main := .joinWatchdog } else none
  | .joinWatchdog => if s.watchdog.joined then some { s with main := .returned } else none
  | .returned => none

/-! ## The system -/

def step (env : Env F) (s : State F N) : Action F N → Option (State F N)
  | (.main, o) => mainStep o s
  | (.producer, o) => (producerStep env producerBeat o s.shared s.producer).map
      fun r => { s with shared := r.1, producer := r.2 }
  | (.worker i, o) => (workerStep env (workerBeat i) o s.shared (s.workers i)).map
      fun r => { s with shared := r.1, workers := Function.update s.workers i r.2 }
  | (.logger, o) => (loggerStep env (loggerBeat N) o s.shared s.logger).map
      fun r => { s with shared := r.1, logger := r.2 }
  | (.watchdog, o) => (watchdogStep env o s.shared s.watchdog).map
      fun r => { s with shared := r.1, watchdog := r.2 }

/-- The states an application can be in. -/
def Reachable (env : Env F) (s : State F N) : Prop :=
  ∃ t₀, Lts.Reaches (step env) (initial env N t₀) s

end RadarRT
