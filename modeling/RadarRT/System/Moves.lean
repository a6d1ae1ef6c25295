import RadarRT.Queue.Outcomes
import RadarRT.System.Application

/-!
# What a step of each thread can do

The transitions of the step functions as relations, one constructor per way through a step:
where it starts, what must hold, what it does to the shared state and where it leads. Every
result about the system is proved over these; the step functions are opened only here.
-/

namespace RadarRT

variable {F : Type} {N : ℕ}

theorem Shared.readClock_eq_some {sh sh' : Shared F} {o : Outside F} {pc : Type}
    {next : Time → pc} {pc' : pc} (h : sh.readClock o next = some (sh', pc')) :
    sh.clock ≤ o.now ∧ sh' = { sh with clock := o.now } ∧ pc' = next o.now := by
  unfold readClock at h
  split at h
  · next hle =>
    cases h
    exact ⟨hle, rfl, rfl⟩
  · cases h

theorem Outside.throws_of_atCall {o : Outside F} (h : o.failure = .atCall) : o.throws = true := by
  simp [throws, h]

theorem Outside.throws_of_error {o : Outside F} {α : Type} {l q : Ledger α} {v : α}
    {e : QueueError} (h : l.push v (decide (o.failure = .inStore)) = some (.error e, q)) :
    o.throws = true := by
  have hf := Ledger.allocFails_of_error h
  simp [throws, of_decide_eq_true hf]

/-! ## The producer -/

inductive ProducerMove (env : Env F) (beat : ℕ) (o : Outside F) (sh : Shared F) :
    ProducerPc → Shared F → ProducerPc → Prop
  | configure : sh.clock ≤ o.now →
    ProducerMove env beat o sh .configure { sh with clock := o.now } (.loopTest o.now)
  | stop {d} : sh.token = true → ProducerMove env beat o sh (.loopTest d) sh (.finished false)
  | sample {d} : sh.token = false → ProducerMove env beat o sh (.loopTest d) sh (.readClock d)
  | readClock {d} : sh.clock ≤ o.now →
    ProducerMove env beat o sh (.readClock d) { sh with clock := o.now } (.storeTimestamp d o.now)
  | storeTimestamp {d t} :
    ProducerMove env beat o sh (.storeTimestamp d t) (sh.storeTimestamp beat t)
      (.storeRunning d t)
  | storeRunning {d t} :
    ProducerMove env beat o sh (.storeRunning d t) (sh.storeState beat .running) (.push d t)
  | pushed {d t q f} : sh.input.push ⟨t, o.samples⟩ f = some (.ok true, q) →
    ProducerMove env beat o sh (.push d t) { sh with input := q } (.recordSignalProduced d)
  | refused {d t q f} : sh.input.push ⟨t, o.samples⟩ f = some (.ok false, q) →
    ProducerMove env beat o sh (.push d t) { sh with input := q } (.finished false)
  | pushThrew {d t q f e} : o.throws = true →
    sh.input.push ⟨t, o.samples⟩ f = some (.error e, q) →
    ProducerMove env beat o sh (.push d t) { sh with input := q } .recordThreadException
  | pushFailed {d t} : o.throws = true →
    ProducerMove env beat o sh (.push d t) sh .recordThreadException
  | recordSignalProduced {d} :
    ProducerMove env beat o sh (.recordSignalProduced d)
      { sh with metrics := sh.metrics.recordSignalProduced } (.readInputSize d)
  | readInputSize {d} :
    ProducerMove env beat o sh (.readInputSize d) sh (.setInputQueueDepth d sh.input.queue.size)
  | readInputSizeFailed {d} : o.throws = true →
    ProducerMove env beat o sh (.readInputSize d) sh .recordThreadException
  | setInputQueueDepth {d depth} :
    ProducerMove env beat o sh (.setInputQueueDepth d depth)
      { sh with metrics := sh.metrics.setInputQueueDepth depth } (.readInputDrops d)
  | readInputDrops {d} :
    ProducerMove env beat o sh (.readInputDrops d) sh
      (.setInputDrops d sh.input.queue.droppedCount)
  | setInputDrops {d drops} :
    ProducerMove env beat o sh (.setInputDrops d drops)
      { sh with metrics := sh.metrics.setInputDrops drops } (.checkDeadline d)
  | missed {d} : sh.clock ≤ o.now →
    ProducerMove env beat o sh (.checkDeadline d) { sh with clock := o.now }
      (.recordDeadlineMiss o.now)
  | onTime {d} : sh.clock ≤ o.now →
    ProducerMove env beat o sh (.checkDeadline d) { sh with clock := o.now }
      (.markWaiting (d + env.period))
  | recordDeadlineMiss {now} :
    ProducerMove env beat o sh (.recordDeadlineMiss now)
      { sh with metrics := sh.metrics.recordDeadlineMiss } (.loopTest now)
  | markWaiting {d} :
    ProducerMove env beat o sh (.markWaiting d) (sh.storeState beat .waitingForInput) (.waitFor d)
  | waitStop {d} : sh.token = true → ProducerMove env beat o sh (.waitFor d) sh (.finished false)
  | waitElapsed {d} : sh.token = false → ProducerMove env beat o sh (.waitFor d) sh (.loopTest d)
  | waitFailed {d} : o.throws = true →
    ProducerMove env beat o sh (.waitFor d) sh .recordThreadException
  | recordThreadException :
    ProducerMove env beat o sh .recordThreadException
      { sh with metrics := sh.metrics.recordThreadException } .requestShutdown
  | requestShutdown :
    ProducerMove env beat o sh .requestShutdown sh.requestShutdown (.finished true)

theorem producerStep_cases {env : Env F} {beat : ℕ} {o : Outside F} {sh sh' : Shared F}
    {pc pc' : ProducerPc} (h : producerStep env beat o sh pc = some (sh', pc')) :
    ProducerMove env beat o sh pc sh' pc' := by
  cases pc with
  | notStarted => cases h
  | configure =>
    obtain ⟨hle, rfl, rfl⟩ := Shared.readClock_eq_some h
    exact .configure hle
  | loopTest d =>
    cases ht : sh.token <;> simp only [producerStep, ht] at h <;> cases h
    · exact .sample ht
    · exact .stop ht
  | readClock d =>
    obtain ⟨hle, rfl, rfl⟩ := Shared.readClock_eq_some h
    exact .readClock hle
  | storeTimestamp d t => cases h; exact .storeTimestamp
  | storeRunning d t => cases h; exact .storeRunning
  | push d t =>
    simp only [producerStep] at h
    split at h
    · next hf => cases h; exact .pushFailed (Outside.throws_of_atCall hf)
    · split at h
      · cases h
      · next hp => cases h; exact .pushThrew (Outside.throws_of_error hp) hp
      · next hp => cases h; exact .pushed hp
      · next hp => cases h; exact .refused hp
  | recordSignalProduced d => cases h; exact .recordSignalProduced
  | readInputSize d =>
    cases ho : o.throws <;> simp only [producerStep, ho] at h <;> cases h
    · exact .readInputSize
    · exact .readInputSizeFailed ho
  | setInputQueueDepth d depth => cases h; exact .setInputQueueDepth
  | readInputDrops d => cases h; exact .readInputDrops
  | setInputDrops d drops => cases h; exact .setInputDrops
  | checkDeadline d =>
    simp only [producerStep] at h
    obtain ⟨hle, rfl, rfl⟩ := Shared.readClock_eq_some h
    split
    · exact .missed hle
    · exact .onTime hle
  | recordDeadlineMiss now => cases h; exact .recordDeadlineMiss
  | markWaiting d => cases h; exact .markWaiting
  | waitFor d =>
    simp only [producerStep] at h
    split at h
    · next ho => cases h; exact .waitFailed ho
    · split at h
      · next ht => cases h; exact .waitStop ht
      · next ht =>
        split at h <;> cases h
        exact .waitElapsed (by simpa using ht)
  | recordThreadException => cases h; exact .recordThreadException
  | requestShutdown => cases h; exact .requestShutdown
  | finished died => cases h

/-! ## A worker -/

inductive WorkerMove (env : Env F) (beat : ℕ) (o : Outside F) (sh : Shared F) :
    WorkerPc F → Shared F → WorkerPc F → Prop
  | configure : WorkerMove env beat o sh .configure sh .markWaiting
  | markWaiting :
    WorkerMove env beat o sh .markWaiting (sh.storeState beat .waitingForInput) .waitAndPop
  | ended {q} : sh.input.waitAndPop = some (none, q) →
    WorkerMove env beat o sh .waitAndPop { sh with input := q } (.finished .endOfStream)
  | took {x q} : sh.input.waitAndPop = some (some x, q) →
    WorkerMove env beat o sh .waitAndPop { sh with input := q } (.readInputSize x)
  | popFailed : o.throws = true →
    WorkerMove env beat o sh .waitAndPop sh (.recordThreadException none)
  | readInputSize {x} :
    WorkerMove env beat o sh (.readInputSize x) sh (.setInputQueueDepth x sh.input.queue.size)
  | readInputSizeFailed {x} : o.throws = true →
    WorkerMove env beat o sh (.readInputSize x) sh (.recordThreadException (some x))
  | setInputQueueDepth {x depth} :
    WorkerMove env beat o sh (.setInputQueueDepth x depth)
      { sh with metrics := sh.metrics.setInputQueueDepth depth } (.readClock x)
  | readClock {x} : sh.clock ≤ o.now →
    WorkerMove env beat o sh (.readClock x) { sh with clock := o.now } (.storeTimestamp x o.now)
  | storeTimestamp {x t} :
    WorkerMove env beat o sh (.storeTimestamp x t) (sh.storeTimestamp beat t) (.storeRunning x)
  | storeRunning {x} :
    WorkerMove env beat o sh (.storeRunning x) (sh.storeState beat .running)
      (.recordSignalProcessed x)
  | recordSignalProcessed {x} :
    WorkerMove env beat o sh (.recordSignalProcessed x)
      { sh with
        metrics := sh.metrics.recordSignalProcessed
        processed := sh.processed ++ [x] } (.readLatencyClock (env.process x))
  | readLatencyClock {r} : sh.clock ≤ o.now →
    WorkerMove env beat o sh (.readLatencyClock r) { sh with clock := o.now }
      (.recordProcessingLatency r o.now)
  | recordProcessingLatency {r now} :
    WorkerMove env beat o sh (.recordProcessingLatency r now)
      { sh with metrics := sh.metrics.recordProcessingLatency (now - r.timestamp) } (.push r)
  | pushed {r b q f} : sh.output.push (toLogRecord r) f = some (.ok b, q) →
    WorkerMove env beat o sh (.push r) { sh with output := q } .readOutputSize
  | pushThrew {r q f e} : o.throws = true →
    sh.output.push (toLogRecord r) f = some (.error e, q) →
    WorkerMove env beat o sh (.push r) { sh with output := q } (.recordThreadException none)
  | pushFailed {r} : o.throws = true →
    WorkerMove env beat o sh (.push r) sh (.recordThreadException none)
  | readOutputSize :
    WorkerMove env beat o sh .readOutputSize sh (.setOutputQueueDepth sh.output.queue.size)
  | readOutputSizeFailed : o.throws = true →
    WorkerMove env beat o sh .readOutputSize sh (.recordThreadException none)
  | setOutputQueueDepth {depth} :
    WorkerMove env beat o sh (.setOutputQueueDepth depth)
      { sh with metrics := sh.metrics.setOutputQueueDepth depth } .readLogDrops
  | readLogDrops :
    WorkerMove env beat o sh .readLogDrops sh (.setLogDrops sh.output.queue.droppedCount)
  | setLogDrops {drops} :
    WorkerMove env beat o sh (.setLogDrops drops)
      { sh with metrics := sh.metrics.setLogDrops drops } .markWaiting
  | recordThreadException {held} :
    WorkerMove env beat o sh (.recordThreadException held)
      { sh with metrics := sh.metrics.recordThreadException } (.requestShutdown held)
  | requestShutdown {held} :
    WorkerMove env beat o sh (.requestShutdown held) sh.requestShutdown (.finished (.died held))

theorem workerStep_cases {env : Env F} {beat : ℕ} {o : Outside F} {sh sh' : Shared F}
    {pc pc' : WorkerPc F} (h : workerStep env beat o sh pc = some (sh', pc')) :
    WorkerMove env beat o sh pc sh' pc' := by
  cases pc with
  | notStarted => cases h
  | configure => cases h; exact .configure
  | markWaiting => cases h; exact .markWaiting
  | waitAndPop =>
    simp only [workerStep] at h
    split at h
    · next ho => cases h; exact .popFailed ho
    · split at h
      · cases h
      · next hp => cases h; exact .ended hp
      · next hp => cases h; exact .took hp
  | readInputSize x =>
    cases ho : o.throws <;> simp only [workerStep, ho] at h <;> cases h
    · exact .readInputSize
    · exact .readInputSizeFailed ho
  | setInputQueueDepth x depth => cases h; exact .setInputQueueDepth
  | readClock x =>
    obtain ⟨hle, rfl, rfl⟩ := Shared.readClock_eq_some h
    exact .readClock hle
  | storeTimestamp x t => cases h; exact .storeTimestamp
  | storeRunning x => cases h; exact .storeRunning
  | recordSignalProcessed x => cases h; exact .recordSignalProcessed
  | readLatencyClock r =>
    obtain ⟨hle, rfl, rfl⟩ := Shared.readClock_eq_some h
    exact .readLatencyClock hle
  | recordProcessingLatency r now => cases h; exact .recordProcessingLatency
  | push r =>
    simp only [workerStep] at h
    split at h
    · next hf => cases h; exact .pushFailed (Outside.throws_of_atCall hf)
    · split at h
      · cases h
      · next hp => cases h; exact .pushThrew (Outside.throws_of_error hp) hp
      · next hp => cases h; exact .pushed hp
  | readOutputSize =>
    cases ho : o.throws <;> simp only [workerStep, ho] at h <;> cases h
    · exact .readOutputSize
    · exact .readOutputSizeFailed ho
  | setOutputQueueDepth depth => cases h; exact .setOutputQueueDepth
  | readLogDrops => cases h; exact .readLogDrops
  | setLogDrops drops => cases h; exact .setLogDrops
  | recordThreadException held => cases h; exact .recordThreadException
  | requestShutdown held => cases h; exact .requestShutdown
  | finished exit => cases h

/-! ## The logger -/

inductive LoggerMove (env : Env F) (beat : ℕ) (o : Outside F) (sh : Shared F) :
    LoggerPc F → Shared F → LoggerPc F → Prop
  | configure : LoggerMove env beat o sh .configure sh .markWaiting
  | markWaiting :
    LoggerMove env beat o sh .markWaiting (sh.storeState beat .waitingForInput) .waitAndPop
  | ended {q} : sh.output.waitAndPop = some (none, q) →
    LoggerMove env beat o sh .waitAndPop { sh with output := q } (.flush 0)
  | took {x q} : sh.output.waitAndPop = some (some x, q) →
    LoggerMove env beat o sh .waitAndPop { sh with output := q } (.readOutputSize x)
  | popFailed : o.throws = true →
    LoggerMove env beat o sh .waitAndPop sh .recordThreadException
  | readOutputSize {x} :
    LoggerMove env beat o sh (.readOutputSize x) sh (.setOutputQueueDepth x sh.output.queue.size)
  | readOutputSizeFailed {x} : o.throws = true →
    LoggerMove env beat o sh (.readOutputSize x) sh .recordThreadException
  | setOutputQueueDepth {x depth} :
    LoggerMove env beat o sh (.setOutputQueueDepth x depth)
      { sh with metrics := sh.metrics.setOutputQueueDepth depth } (.readClock x)
  | readClock {x} : sh.clock ≤ o.now →
    LoggerMove env beat o sh (.readClock x) { sh with clock := o.now } (.storeTimestamp x o.now)
  | storeTimestamp {x t} :
    LoggerMove env beat o sh (.storeTimestamp x t) (sh.storeTimestamp beat t) (.storeRunning x)
  | storeRunning {x} :
    LoggerMove env beat o sh (.storeRunning x) (sh.storeState beat .running) (.formatLine x)
  | formatLine {x} :
    LoggerMove env beat o sh (.formatLine x) sh (.write (RadarRT.formatLine env.showFloat x) 0)
  | formatLineFailed {x} : o.throws = true →
    LoggerMove env beat o sh (.formatLine x) sh .recordThreadException
  | write {line k} : k < env.sinkCount →
    LoggerMove env beat o sh (.write line k) (sh.toSink k (.write line)) (.write line (k + 1))
  | writeFailed {line k} : k < env.sinkCount → o.throws = true →
    LoggerMove env beat o sh (.write line k) sh .recordThreadException
  | written {line k} : env.sinkCount ≤ k →
    LoggerMove env beat o sh (.write line k) sh .markWaiting
  | flush {k} : k < env.sinkCount →
    LoggerMove env beat o sh (.flush k) (sh.toSink k .flush) (.flush (k + 1))
  | flushFailed {k} : k < env.sinkCount → o.throws = true →
    LoggerMove env beat o sh (.flush k) sh .recordThreadException
  | flushed {k} : env.sinkCount ≤ k → LoggerMove env beat o sh (.flush k) sh (.finished false)
  | recordThreadException :
    LoggerMove env beat o sh .recordThreadException
      { sh with metrics := sh.metrics.recordThreadException } .requestShutdown
  | requestShutdown :
    LoggerMove env beat o sh .requestShutdown sh.requestShutdown (.finished true)

theorem loggerStep_cases {env : Env F} {beat : ℕ} {o : Outside F} {sh sh' : Shared F}
    {pc pc' : LoggerPc F} (h : loggerStep env beat o sh pc = some (sh', pc')) :
    LoggerMove env beat o sh pc sh' pc' := by
  cases pc with
  | notStarted => cases h
  | configure => cases h; exact .configure
  | markWaiting => cases h; exact .markWaiting
  | waitAndPop =>
    simp only [loggerStep] at h
    split at h
    · next ho => cases h; exact .popFailed ho
    · split at h
      · cases h
      · next hp => cases h; exact .ended hp
      · next hp => cases h; exact .took hp
  | readOutputSize x =>
    cases ho : o.throws <;> simp only [loggerStep, ho] at h <;> cases h
    · exact .readOutputSize
    · exact .readOutputSizeFailed ho
  | setOutputQueueDepth x depth => cases h; exact .setOutputQueueDepth
  | readClock x =>
    obtain ⟨hle, rfl, rfl⟩ := Shared.readClock_eq_some h
    exact .readClock hle
  | storeTimestamp x t => cases h; exact .storeTimestamp
  | storeRunning x => cases h; exact .storeRunning
  | formatLine x =>
    cases ho : o.throws <;> simp only [loggerStep, ho] at h <;> cases h
    · exact .formatLine
    · exact .formatLineFailed ho
  | write line k =>
    simp only [loggerStep] at h
    split at h
    · next hk =>
      split at h <;> cases h
      · next ho => exact .writeFailed hk ho
      · exact .write hk
    · next hk => cases h; exact .written (by omega)
  | flush k =>
    simp only [loggerStep] at h
    split at h
    · next hk =>
      split at h <;> cases h
      · next ho => exact .flushFailed hk ho
      · exact .flush hk
    · next hk => cases h; exact .flushed (by omega)
  | recordThreadException => cases h; exact .recordThreadException
  | requestShutdown => cases h; exact .requestShutdown
  | finished died => cases h

/-! ## The watchdog -/

inductive WatchdogMove (env : Env F) (o : Outside F) (sh : Shared F) :
    WatchdogPc → Shared F → WatchdogPc → Prop
  | configure : WatchdogMove env o sh .configure sh .waitFor
  | waitStop : sh.token = true → WatchdogMove env o sh .waitFor sh (.finished false)
  | waitElapsed : sh.token = false → WatchdogMove env o sh .waitFor sh .readClock
  | waitFailed : o.throws = true → WatchdogMove env o sh .waitFor sh .recordThreadException
  | readClock : sh.clock ≤ o.now →
    WatchdogMove env o sh .readClock { sh with clock := o.now } (.loadState { now := o.now })
  | skip {sc} : sc.index < sh.registry.size →
    (sh.registry.heartbeats sc.index).state = .waitingForInput →
    WatchdogMove env o sh (.loadState sc) sh (.loadState sc.next)
  | running {sc} : sc.index < sh.registry.size →
    (sh.registry.heartbeats sc.index).state = .running →
    WatchdogMove env o sh (.loadState sc) sh (.loadTimestamp sc)
  | escalating {sc} : sh.registry.size ≤ sc.index → sc.stallDetected = true →
    env.config.escalateToShutdown = true →
    WatchdogMove env o sh (.loadState sc) sh .escalate
  | scanned {sc} : sh.registry.size ≤ sc.index →
    (sc.stallDetected && env.config.escalateToShutdown) = false →
    WatchdogMove env o sh (.loadState sc) sh .waitFor
  | fresh {sc} : sc.now - (sh.registry.heartbeats sc.index).timestamp ≤ env.timeout →
    WatchdogMove env o sh (.loadTimestamp sc) sh (.loadState sc.next)
  | stalled {sc} : env.timeout < sc.now - (sh.registry.heartbeats sc.index).timestamp →
    WatchdogMove env o sh (.loadTimestamp sc) sh
      (.recordWatchdogStall sc.report (sc.now - (sh.registry.heartbeats sc.index).timestamp))
  | recordWatchdogStall {sc age} :
    WatchdogMove env o sh (.recordWatchdogStall sc age)
      { sh with metrics := sh.metrics.recordWatchdogStall } (.push sc age)
  | pushed {sc age b q f} :
    sh.output.push (stallRecord (sh.registry.names.getD sc.index "") age sc.now) f =
      some (.ok b, q) →
    WatchdogMove env o sh (.push sc age) { sh with output := q } (.loadState sc.next)
  | pushThrew {sc age q f e} : o.throws = true →
    sh.output.push (stallRecord (sh.registry.names.getD sc.index "") age sc.now) f =
      some (.error e, q) →
    WatchdogMove env o sh (.push sc age) { sh with output := q } .recordThreadException
  | pushFailed {sc age} : o.throws = true →
    WatchdogMove env o sh (.push sc age) sh .recordThreadException
  | escalate : WatchdogMove env o sh .escalate sh.requestShutdown .waitFor
  | recordThreadException :
    WatchdogMove env o sh .recordThreadException
      { sh with metrics := sh.metrics.recordThreadException } .requestShutdown
  | requestShutdown :
    WatchdogMove env o sh .requestShutdown sh.requestShutdown (.finished true)

theorem watchdogStep_cases {env : Env F} {o : Outside F} {sh sh' : Shared F}
    {pc pc' : WatchdogPc} (h : watchdogStep env o sh pc = some (sh', pc')) :
    WatchdogMove env o sh pc sh' pc' := by
  cases pc with
  | notStarted => cases h
  | configure => cases h; exact .configure
  | waitFor =>
    simp only [watchdogStep] at h
    split at h
    · next ho => cases h; exact .waitFailed ho
    · split at h
      · next ht => cases h; exact .waitStop ht
      · next ht =>
        split at h <;> cases h
        exact .waitElapsed (by simpa using ht)
  | readClock =>
    simp only [watchdogStep] at h
    obtain ⟨hle, rfl, rfl⟩ := Shared.readClock_eq_some h
    exact .readClock hle
  | loadState sc =>
    simp only [watchdogStep] at h
    split at h
    · next hi =>
      cases hst : (sh.registry.heartbeats sc.index).state <;>
        simp only [hst, reduceCtorEq, if_true, if_false] at h <;> cases h
      · exact .running hi hst
      · exact .skip hi hst
    · next hi =>
      cases hesc : sc.stallDetected && env.config.escalateToShutdown <;>
        simp only [hesc] at h <;> cases h
      · exact .scanned (by omega) hesc
      · rw [Bool.and_eq_true] at hesc
        exact .escalating (by omega) hesc.1 hesc.2
  | loadTimestamp sc =>
    simp only [watchdogStep] at h
    split at h <;> cases h
    · next hle => exact .fresh hle
    · next hlt => exact .stalled (lt_of_not_ge hlt)
  | recordWatchdogStall sc age => cases h; exact .recordWatchdogStall
  | push sc age =>
    simp only [watchdogStep] at h
    split at h
    · next hf => cases h; exact .pushFailed (Outside.throws_of_atCall hf)
    · split at h
      · cases h
      · next hp => cases h; exact .pushThrew (Outside.throws_of_error hp) hp
      · next hp => cases h; exact .pushed hp
  | escalate => cases h; exact .escalate
  | recordThreadException => cases h; exact .recordThreadException
  | requestShutdown => cases h; exact .requestShutdown
  | finished died => cases h

/-! ## The main thread -/

/-- Still in `startThreads`. -/
def MainPc.starting : MainPc → Bool
  | .startLogger | .startWatchdog | .startWorker _ | .startProducer => true
  | _ => false

inductive MainMove (o : Outside F) (s : State F N) : State F N → Prop
  | startLogger : s.main = .startLogger →
    MainMove o s { s with main := .startWatchdog, logger := .configure }
  | startWatchdog : s.main = .startWatchdog →
    MainMove o s { s with main := .startWorker 0, watchdog := .configure }
  | startWorker {i} (h : i < N) : s.main = .startWorker i →
    MainMove o s { s with
      main := .startWorker (i + 1)
      workers := Function.update s.workers ⟨i, h⟩ .configure }
  | workersStarted {i} : N ≤ i → s.main = .startWorker i →
    MainMove o s { s with main := .startProducer }
  | startProducer : s.main = .startProducer →
    MainMove o s { s with main := .waitTest, producer := .configure }
  | rollback : s.main.starting = true → o.throws = true → MainMove o s s.rollback
  | seen : s.main = .waitTest → MainMove o s { s with main := .shutdown }
  | poll : s.main = .waitTest → MainMove o s { s with main := .waitPoll }
  | timeout : s.main = .waitPoll → MainMove o s { s with main := .waitTest }
  | signal : s.main = .waitPoll → MainMove o s { s with main := .waitRequest }
  | waitRequest : s.main = .waitRequest →
    MainMove o s { s with main := .shutdown, shared := s.shared.requestShutdown }
  | again : s.main = .shutdown → s.stopped = true → MainMove o s { s with main := .returned }
  | shutdown : s.main = .shutdown → s.stopped = false →
    MainMove o s { s with main := .requestShutdown, stopped := true }
  | requestShutdown : s.main = .requestShutdown →
    MainMove o s { s with main := .closeInput, shared := s.shared.requestShutdown }
  | closeInput : s.main = .closeInput →
    MainMove o s { s with
      main := .joinProducer
      shared := { s.shared with input := s.shared.input.close } }
  | joinProducer : s.main = .joinProducer → s.producer.joined = true →
    MainMove o s { s with main := .joinWorker 0 }
  | joinWorker {i} (h : i < N) : s.main = .joinWorker i → (s.workers ⟨i, h⟩).joined = true →
    MainMove o s { s with main := .joinWorker (i + 1) }
  | workersJoined {i} : N ≤ i → s.main = .joinWorker i →
    MainMove o s { s with main := .closeOutput }
  | closeOutput : s.main = .closeOutput →
    MainMove o s { s with
      main := .joinLogger
      shared := { s.shared with output := s.shared.output.close } }
  | joinLogger : s.main = .joinLogger → s.logger.joined = true →
    MainMove o s { s with main := .joinWatchdog }
  | joinWatchdog : s.main = .joinWatchdog → s.watchdog.joined = true →
    MainMove o s { s with main := .returned }

theorem mainStep_cases {o : Outside F} {s s' : State F N} (h : mainStep o s = some s') :
    MainMove o s s' := by
  unfold mainStep at h
  split at h
  case h_1 hm =>
    split at h <;> cases h
    · next ho => exact .rollback (by rw [hm]; rfl) ho
    · exact .startLogger hm
  case h_2 hm =>
    split at h <;> cases h
    · next ho => exact .rollback (by rw [hm]; rfl) ho
    · exact .startWatchdog hm
  case h_3 i hm =>
    split at h
    · next ho => cases h; exact .rollback (by rw [hm]; rfl) ho
    · split at h <;> cases h
      · next hi => exact .startWorker hi hm
      · next hi => exact .workersStarted (by omega) hm
  case h_4 hm =>
    split at h <;> cases h
    · next ho => exact .rollback (by rw [hm]; rfl) ho
    · exact .startProducer hm
  case h_5 hm =>
    split at h <;> cases h
    · exact .seen hm
    · exact .poll hm
  case h_6 hm =>
    split at h
    · cases h; exact .signal hm
    · split at h <;> cases h
      · exact .timeout hm
      · exact .signal hm
  case h_7 hm => cases h; exact .waitRequest hm
  case h_8 hm =>
    split at h <;> cases h
    · next hs => exact .again hm hs
    · next hs => exact .shutdown hm (by simpa using hs)
  case h_9 hm => cases h; exact .requestShutdown hm
  case h_10 hm => cases h; exact .closeInput hm
  case h_11 hm =>
    split at h <;> cases h
    next hj => exact .joinProducer hm hj
  case h_12 i hm =>
    split at h
    · next hi =>
      split at h <;> cases h
      next hj => exact .joinWorker hi hm hj
    · next hi => cases h; exact .workersJoined (by omega) hm
  case h_13 hm => cases h; exact .closeOutput hm
  case h_14 hm =>
    split at h <;> cases h
    next hj => exact .joinLogger hm hj
  case h_15 hm =>
    split at h <;> cases h
    next hj => exact .joinWatchdog hm hj
  case h_16 hm => cases h

/-! ## The system -/

inductive Move (env : Env F) (s : State F N) : Action F N → State F N → Prop
  | main {o s'} : MainMove o s s' → Move env s (.main, o) s'
  | producer {o sh pc} : ProducerMove env producerBeat o s.shared s.producer sh pc →
    Move env s (.producer, o) { s with shared := sh, producer := pc }
  | worker {i o sh pc} : WorkerMove env (workerBeat i) o s.shared (s.workers i) sh pc →
    Move env s (.worker i, o) { s with shared := sh, workers := Function.update s.workers i pc }
  | logger {o sh pc} : LoggerMove env (loggerBeat N) o s.shared s.logger sh pc →
    Move env s (.logger, o) { s with shared := sh, logger := pc }
  | watchdog {o sh pc} : WatchdogMove env o s.shared s.watchdog sh pc →
    Move env s (.watchdog, o) { s with shared := sh, watchdog := pc }

theorem step_move {env : Env F} {s s' : State F N} {a : Action F N}
    (h : step env s a = some s') : Move env s a s' := by
  obtain ⟨actor, o⟩ := a
  cases actor with
  | main => exact .main (mainStep_cases h)
  | producer =>
    obtain ⟨⟨sh, pc⟩, hr, rfl⟩ := Option.map_eq_some_iff.mp h
    exact .producer (producerStep_cases hr)
  | worker i =>
    obtain ⟨⟨sh, pc⟩, hr, rfl⟩ := Option.map_eq_some_iff.mp h
    exact .worker (workerStep_cases hr)
  | logger =>
    obtain ⟨⟨sh, pc⟩, hr, rfl⟩ := Option.map_eq_some_iff.mp h
    exact .logger (loggerStep_cases hr)
  | watchdog =>
    obtain ⟨⟨sh, pc⟩, hr, rfl⟩ := Option.map_eq_some_iff.mp h
    exact .watchdog (watchdogStep_cases hr)

/-- What every step preserves from the states of an application holds in all its states. -/
theorem Reachable.invariant {env : Env F} {I : State F N → Prop}
    (h₀ : ∀ t₀, I (initial env N t₀))
    (hstep : ∀ s a s', Move env s a s' → I s → I s') {s : State F N} (h : Reachable env s) :
    I s := by
  obtain ⟨t₀, hreach⟩ := h
  exact hreach.invariant (fun s a s' hs => hstep s a s' (step_move hs)) (h₀ t₀)

end RadarRT
