import RadarRT.System.Shared

/-!
# The threads

One step function per thread body: `RadarProducer::run`, `ThreadPool::workerLoop`, `Logger::run`
and `Watchdog::run`. A program point is named after the call the thread is about to make, and
carries the local variables that are alive there. Every access to an atomic or a queue is a step
of its own; `none` is a thread that waits, has not been started or has finished.

Every call that can throw leads to the `catch (...)` of its thread: count the exception, request
shutdown, finish. How a thread ended is kept in its last program point.
-/

namespace RadarRT

variable {F : Type}

/-! ## `RadarProducer` -/

/-- Program points of the producer; `d` is `nextDeadline`, `t` is `sampleTime`. -/
inductive ProducerPc where
  | notStarted
  | configure
  | loopTest (d : Time)
  | readClock (d : Time)
  | storeTimestamp (d t : Time)
  | storeRunning (d t : Time)
  | push (d t : Time)
  | recordSignalProduced (d : Time)
  | readInputSize (d : Time)
  | setInputQueueDepth (d : Time) (depth : ℕ)
  | readInputDrops (d : Time)
  | setInputDrops (d : Time) (drops : ℕ)
  | checkDeadline (d : Time)
  | recordDeadlineMiss (now : Time)
  | markWaiting (d : Time)
  | waitFor (d : Time)
  | recordThreadException
  | requestShutdown
  | finished (died : Bool)
deriving DecidableEq, Repr

/-- `RadarProducer::run`, with its heartbeat at `beat` in the registry. -/
def producerStep (env : Env F) (beat : ℕ) (o : Outside F) (sh : Shared F) :
    ProducerPc → Option (Shared F × ProducerPc)
  | .notStarted => none
  | .configure => sh.readClock o .loopTest
  | .loopTest d => some (sh, if sh.token then .finished false else .readClock d)
  | .readClock d => sh.readClock o (.storeTimestamp d)
  | .storeTimestamp d t => some (sh.storeTimestamp beat t, .storeRunning d t)
  | .storeRunning d t => some (sh.storeState beat .running, .push d t)
  | .push d t =>
    if o.failure = .atCall then some (sh, .recordThreadException)
    else match sh.input.push ⟨t, o.samples⟩ (decide (o.failure = .inStore)) with
      | none => none
      | some (.error _, q) => some ({ sh with input := q }, .recordThreadException)
      | some (.ok true, q) => some ({ sh with input := q }, .recordSignalProduced d)
      | some (.ok false, q) => some ({ sh with input := q }, .finished false)
  | .recordSignalProduced d =>
    some ({ sh with metrics := sh.metrics.recordSignalProduced }, .readInputSize d)
  | .readInputSize d =>
    some (sh, if o.throws then .recordThreadException
      else .setInputQueueDepth d sh.input.queue.size)
  | .setInputQueueDepth d depth =>
    some ({ sh with metrics := sh.metrics.setInputQueueDepth depth }, .readInputDrops d)
  | .readInputDrops d => some (sh, .setInputDrops d sh.input.queue.droppedCount)
  | .setInputDrops d drops =>
    some ({ sh with metrics := sh.metrics.setInputDrops drops }, .checkDeadline d)
  | .checkDeadline d =>
    sh.readClock o fun now =>
      if d + env.period - now ≤ 0 then .recordDeadlineMiss now else .markWaiting (d + env.period)
  | .recordDeadlineMiss now =>
    some ({ sh with metrics := sh.metrics.recordDeadlineMiss }, .loopTest now)
  | .markWaiting d => some (sh.storeState beat .waitingForInput, .waitFor d)
  | .waitFor d =>
    if o.throws then some (sh, .recordThreadException)
    else if sh.token then some (sh, .finished false)
    else if o.elapsed then some (sh, .loopTest d)
    else none
  | .recordThreadException =>
    some ({ sh with metrics := sh.metrics.recordThreadException }, .requestShutdown)
  | .requestShutdown => some (sh.requestShutdown, .finished true)
  | .finished _ => none

/-! ## `ThreadPool` -/

/-- How a worker ended. -/
inductive WorkerExit (F : Type) where
  /-- It saw the end of the input stream. -/
  | endOfStream
  /-- An exception ended it, while it held the popped signal `held`, if any, that
  `recordSignalProcessed` had not been called for. -/
  | died (held : Option (RadarSignal F))

/-- Program points of a worker; `x` is the popped signal, `r` its result. -/
inductive WorkerPc (F : Type) where
  | notStarted
  | configure
  | markWaiting
  | waitAndPop
  | readInputSize (x : RadarSignal F)
  | setInputQueueDepth (x : RadarSignal F) (depth : ℕ)
  | readClock (x : RadarSignal F)
  | storeTimestamp (x : RadarSignal F) (t : Time)
  | storeRunning (x : RadarSignal F)
  | recordSignalProcessed (x : RadarSignal F)
  | readLatencyClock (r : ProcessedSignal F)
  | recordProcessingLatency (r : ProcessedSignal F) (now : Time)
  | push (r : ProcessedSignal F)
  | readOutputSize
  | setOutputQueueDepth (depth : ℕ)
  | readLogDrops
  | setLogDrops (drops : ℕ)
  | recordThreadException (held : Option (RadarSignal F))
  | requestShutdown (held : Option (RadarSignal F))
  | finished (exit : WorkerExit F)

/-- `ThreadPool::workerLoop`, with its heartbeat at `beat` in the registry. -/
def workerStep (env : Env F) (beat : ℕ) (o : Outside F) (sh : Shared F) :
    WorkerPc F → Option (Shared F × WorkerPc F)
  | .notStarted => none
  | .configure => some (sh, .markWaiting)
  | .markWaiting => some (sh.storeState beat .waitingForInput, .waitAndPop)
  | .waitAndPop =>
    if o.throws then some (sh, .recordThreadException none)
    else match sh.input.waitAndPop with
      | none => none
      | some (none, q) => some ({ sh with input := q }, .finished .endOfStream)
      | some (some x, q) => some ({ sh with input := q }, .readInputSize x)
  | .readInputSize x =>
    some (sh, if o.throws then .recordThreadException (some x)
      else .setInputQueueDepth x sh.input.queue.size)
  | .setInputQueueDepth x depth =>
    some ({ sh with metrics := sh.metrics.setInputQueueDepth depth }, .readClock x)
  | .readClock x => sh.readClock o (.storeTimestamp x)
  | .storeTimestamp x t => some (sh.storeTimestamp beat t, .storeRunning x)
  | .storeRunning x => some (sh.storeState beat .running, .recordSignalProcessed x)
  | .recordSignalProcessed x =>
    some ({ sh with
        metrics := sh.metrics.recordSignalProcessed
        processed := sh.processed ++ [x] }, .readLatencyClock (env.process x))
  | .readLatencyClock r => sh.readClock o (.recordProcessingLatency r)
  | .recordProcessingLatency r now =>
    some ({ sh with metrics := sh.metrics.recordProcessingLatency (now - r.timestamp) }, .push r)
  | .push r =>
    if o.failure = .atCall then some (sh, .recordThreadException none)
    else match sh.output.push (toLogRecord r) (decide (o.failure = .inStore)) with
      | none => none
      | some (.error _, q) => some ({ sh with output := q }, .recordThreadException none)
      | some (.ok _, q) => some ({ sh with output := q }, .readOutputSize)
  | .readOutputSize =>
    some (sh, if o.throws then .recordThreadException none
      else .setOutputQueueDepth sh.output.queue.size)
  | .setOutputQueueDepth depth =>
    some ({ sh with metrics := sh.metrics.setOutputQueueDepth depth }, .readLogDrops)
  | .readLogDrops => some (sh, .setLogDrops sh.output.queue.droppedCount)
  | .setLogDrops drops =>
    some ({ sh with metrics := sh.metrics.setLogDrops drops }, .markWaiting)
  | .recordThreadException held =>
    some ({ sh with metrics := sh.metrics.recordThreadException }, .requestShutdown held)
  | .requestShutdown held => some (sh.requestShutdown, .finished (.died held))
  | .finished _ => none

/-! ## `Logger` -/

/-- Program points of the logger; `x` is the popped record, `k` the next sink. -/
inductive LoggerPc (F : Type) where
  | notStarted
  | configure
  | markWaiting
  | waitAndPop
  | readOutputSize (x : LogRecord F)
  | setOutputQueueDepth (x : LogRecord F) (depth : ℕ)
  | readClock (x : LogRecord F)
  | storeTimestamp (x : LogRecord F) (t : Time)
  | storeRunning (x : LogRecord F)
  | formatLine (x : LogRecord F)
  | write (line : String) (k : ℕ)
  | flush (k : ℕ)
  | recordThreadException
  | requestShutdown
  | finished (died : Bool)

/-- `Logger::run`, with its heartbeat at `beat` in the registry. -/
def loggerStep (env : Env F) (beat : ℕ) (o : Outside F) (sh : Shared F) :
    LoggerPc F → Option (Shared F × LoggerPc F)
  | .notStarted => none
  | .configure => some (sh, .markWaiting)
  | .markWaiting => some (sh.storeState beat .waitingForInput, .waitAndPop)
  | .waitAndPop =>
    if o.throws then some (sh, .recordThreadException)
    else match sh.output.waitAndPop with
      | none => none
      | some (none, q) => some ({ sh with output := q }, .flush 0)
      | some (some x, q) => some ({ sh with output := q }, .readOutputSize x)
  | .readOutputSize x =>
    some (sh, if o.throws then .recordThreadException
      else .setOutputQueueDepth x sh.output.queue.size)
  | .setOutputQueueDepth x depth =>
    some ({ sh with metrics := sh.metrics.setOutputQueueDepth depth }, .readClock x)
  | .readClock x => sh.readClock o (.storeTimestamp x)
  | .storeTimestamp x t => some (sh.storeTimestamp beat t, .storeRunning x)
  | .storeRunning x => some (sh.storeState beat .running, .formatLine x)
  | .formatLine x =>
    some (sh, if o.throws then .recordThreadException
      else .write (RadarRT.formatLine env.showFloat x) 0)
  | .write line k =>
    if k < env.sinkCount then
      if o.throws then some (sh, .recordThreadException)
      else some (sh.toSink k (.write line), .write line (k + 1))
    else some (sh, .markWaiting)
  | .flush k =>
    if k < env.sinkCount then
      if o.throws then some (sh, .recordThreadException)
      else some (sh.toSink k .flush, .flush (k + 1))
    else some (sh, .finished false)
  | .recordThreadException =>
    some ({ sh with metrics := sh.metrics.recordThreadException }, .requestShutdown)
  | .requestShutdown => some (sh.requestShutdown, .finished true)
  | .finished _ => none

/-! ## `Watchdog` -/

/-- A scan under way: its one clock reading, the heartbeat it is at, whether it found a stall,
and the heartbeats it has reported. -/
structure Scan where
  now : Time
  index : ℕ := 0
  stallDetected : Bool := false
  reported : List ℕ := []
deriving DecidableEq, Repr

/-- The next heartbeat of the registry. -/
def Scan.next (sc : Scan) : Scan := { sc with index := sc.index + 1 }

/-- The heartbeat at `index` is found stalled. -/
def Scan.report (sc : Scan) : Scan :=
  { sc with stallDetected := true, reported := sc.reported ++ [sc.index] }

/-- Program points of the watchdog. -/
inductive WatchdogPc where
  | notStarted
  | configure
  | waitFor
  | readClock
  | loadState (sc : Scan)
  | loadTimestamp (sc : Scan)
  | recordWatchdogStall (sc : Scan) (age : Duration)
  | push (sc : Scan) (age : Duration)
  | escalate
  | recordThreadException
  | requestShutdown
  | finished (died : Bool)
deriving DecidableEq, Repr

/-- `Watchdog::run`: `scanOnce` visits the registry in order, loading the state of a heartbeat
before its timestamp. -/
def watchdogStep (env : Env F) (o : Outside F) (sh : Shared F) :
    WatchdogPc → Option (Shared F × WatchdogPc)
  | .notStarted => none
  | .configure => some (sh, .waitFor)
  | .waitFor =>
    if o.throws then some (sh, .recordThreadException)
    else if sh.token then some (sh, .finished false)
    else if o.elapsed then some (sh, .readClock)
    else none
  | .readClock => sh.readClock o fun now => .loadState { now := now }
  | .loadState sc =>
    if sc.index < sh.registry.size then
      some (sh, if (sh.registry.heartbeats sc.index).state = .running then .loadTimestamp sc
        else .loadState sc.next)
    else some (sh, if sc.stallDetected && env.config.escalateToShutdown then .escalate
      else .waitFor)
  | .loadTimestamp sc =>
    some (sh,
      if sc.now - (sh.registry.heartbeats sc.index).timestamp ≤ env.timeout then
        .loadState sc.next
      else .recordWatchdogStall sc.report
        (sc.now - (sh.registry.heartbeats sc.index).timestamp))
  | .recordWatchdogStall sc age =>
    some ({ sh with metrics := sh.metrics.recordWatchdogStall }, .push sc age)
  | .push sc age =>
    if o.failure = .atCall then some (sh, .recordThreadException)
    else match sh.output.push (stallRecord (sh.registry.names.getD sc.index "") age sc.now)
        (decide (o.failure = .inStore)) with
      | none => none
      | some (.error _, q) => some ({ sh with output := q }, .recordThreadException)
      | some (.ok _, q) => some ({ sh with output := q }, .loadState sc.next)
  | .escalate => some (sh.requestShutdown, .waitFor)
  | .recordThreadException =>
    some ({ sh with metrics := sh.metrics.recordThreadException }, .requestShutdown)
  | .requestShutdown => some (sh.requestShutdown, .finished true)
  | .finished _ => none

end RadarRT
