import Mathlib.Tactic.Simps.Basic
import RadarRT.Queue.Ledger

/-!
# What the threads share

The values that travel through the pipeline, the heartbeats, the metrics, and `Shared`: all the
state that more than one thread of the application touches.

Floating point stays abstract: `F` is the type of a sample, and the two places where the program
computes with it or prints it (`SignalProcessor::process` and `operator<<` for `float`) are
parameters in `Env`. Times are nanoseconds since the epoch of the steady clock.
-/

namespace RadarRT

/-- `Clock::TimePoint`, in nanoseconds. -/
abbrev Time := Int

/-- `Clock::Duration`, in nanoseconds. -/
abbrev Duration := Int

/-! ## Values -/

def kRadarSampleCount : ℕ := 256

structure RadarSignal (F : Type) where
  timestamp : Time
  samples : Fin kRadarSampleCount → F

structure ProcessedSignal (F : Type) where
  timestamp : Time
  targetDetected : Bool
  peakMagnitude : F

inductive LogLevel where
  | info
  | warning
  | error
deriving DecidableEq, Repr

inductive LogSource where
  | producer
  | dsp
  | watchdog
deriving DecidableEq, Repr

/-- `LogRecord::Result`, the payload mirrored from a `ProcessedSignal`. -/
structure LogRecord.Result (F : Type) where
  targetDetected : Bool
  peakMagnitude : F
deriving DecidableEq

structure LogRecord (F : Type) where
  timestamp : Time
  result : Option (LogRecord.Result F)
  message : String
  level : LogLevel
  source : LogSource
deriving DecidableEq

/-- A DSP result as a structured record, the message left empty. -/
def toLogRecord {F : Type} (result : ProcessedSignal F) : LogRecord F where
  timestamp := result.timestamp
  result := some ⟨result.targetDetected, result.peakMagnitude⟩
  message := ""
  level := .info
  source := .dsp

def levelName : LogLevel → String
  | .info => "INFO"
  | .warning => "WARN"
  | .error => "ERROR"

def sourceName : LogSource → String
  | .producer => "Producer"
  | .dsp => "Dsp"
  | .watchdog => "Watchdog"

/-- `formatLine`; `duration_cast` truncates towards zero, `showFloat` is `operator<<`. -/
def formatLine {F : Type} (showFloat : F → String) (record : LogRecord F) : String :=
  "[t=" ++ toString (record.timestamp.tdiv 1000) ++ "us] [" ++ levelName record.level ++ "] [" ++
    sourceName record.source ++ "] " ++
    (match record.result with
      | some result =>
        "detected=" ++ (if result.targetDetected then "1" else "0") ++ " peak=" ++
          showFloat result.peakMagnitude
      | none => record.message) ++ "\n"

/-- The record `Watchdog::reportStall` builds for the heartbeat `name`. -/
def stallRecord {F : Type} (name : String) (age : Duration) (now : Time) : LogRecord F where
  timestamp := now
  result := none
  message := "stalled worker '" ++ name ++ "' Running for " ++ toString (age.tdiv 1000000) ++ "ms"
  level := .error
  source := .watchdog

/-! ## Heartbeats -/

inductive HeartbeatState where
  | running
  | waitingForInput
deriving DecidableEq, Repr

/-- Two separate atomics; a thread that has not beaten yet waits for input. -/
structure Heartbeat where
  timestamp : Time := 0
  state : HeartbeatState := .waitingForInput
deriving DecidableEq, Repr

/-- The heartbeats by registration number; the threads borrow theirs by that number. -/
structure HeartbeatRegistry where
  names : List String := []
  heartbeats : ℕ → Heartbeat := fun _ => {}

namespace HeartbeatRegistry

def registerHeartbeat (r : HeartbeatRegistry) (name : String) : HeartbeatRegistry :=
  { r with names := r.names ++ [name] }

def size (r : HeartbeatRegistry) : ℕ := r.names.length

/-- `timestamp_.store`, the first half of `markRunning`. -/
@[simps heartbeats]
def storeTimestamp (r : HeartbeatRegistry) (i : ℕ) (t : Time) : HeartbeatRegistry :=
  { r with heartbeats := Function.update r.heartbeats i { r.heartbeats i with timestamp := t } }

/-- `state_.store`: the second half of `markRunning`, and `markWaiting`. -/
@[simps heartbeats]
def storeState (r : HeartbeatRegistry) (i : ℕ) (st : HeartbeatState) : HeartbeatRegistry :=
  { r with heartbeats := Function.update r.heartbeats i { r.heartbeats i with state := st } }

end HeartbeatRegistry

/-! ## Metrics -/

/-- The counters and gauges, the counters read as natural numbers. -/
structure Metrics where
  signalsProduced : ℕ := 0
  signalsProcessed : ℕ := 0
  inputDrops : ℕ := 0
  logDrops : ℕ := 0
  deadlineMisses : ℕ := 0
  watchdogStalls : ℕ := 0
  threadExceptions : ℕ := 0
  inputQueueDepth : ℕ := 0
  outputQueueDepth : ℕ := 0
  lastProcessingLatency : Duration := 0
deriving DecidableEq, Repr

namespace Metrics

@[simps signalsProduced]
def recordSignalProduced (m : Metrics) : Metrics :=
  { m with signalsProduced := m.signalsProduced + 1 }

@[simps signalsProcessed]
def recordSignalProcessed (m : Metrics) : Metrics :=
  { m with signalsProcessed := m.signalsProcessed + 1 }

def recordDeadlineMiss (m : Metrics) : Metrics :=
  { m with deadlineMisses := m.deadlineMisses + 1 }

@[simps watchdogStalls]
def recordWatchdogStall (m : Metrics) : Metrics :=
  { m with watchdogStalls := m.watchdogStalls + 1 }

def recordThreadException (m : Metrics) : Metrics :=
  { m with threadExceptions := m.threadExceptions + 1 }

def setInputQueueDepth (m : Metrics) (depth : ℕ) : Metrics := { m with inputQueueDepth := depth }

def setOutputQueueDepth (m : Metrics) (depth : ℕ) : Metrics := { m with outputQueueDepth := depth }

def setInputDrops (m : Metrics) (drops : ℕ) : Metrics := { m with inputDrops := drops }

def setLogDrops (m : Metrics) (drops : ℕ) : Metrics := { m with logDrops := drops }

def recordProcessingLatency (m : Metrics) (latency : Duration) : Metrics :=
  { m with lastProcessingLatency := latency }

end Metrics

/-! ## Configuration and the outside world -/

/-- The parameters of `Config` the threads read. The number of workers is a parameter of the
whole system, the priorities only reach the operating system. -/
structure Config where
  /-- `producer().samplePeriod`, in microseconds. -/
  samplePeriod : Int := 1000
  inputCapacity : ℕ := 256
  outputCapacity : ℕ := 1024
  /-- `watchdog().livenessTimeout`, in milliseconds. -/
  livenessTimeout : Int := 500
  escalateToShutdown : Bool := false
deriving DecidableEq, Repr

/-- What an application is built from: its configuration, with the capacities the queue
constructor accepts, the DSP function, the printing of a `float` and the number of sinks. -/
structure Env (F : Type) where
  config : Config
  process : RadarSignal F → ProcessedSignal F
  showFloat : F → String
  sinkCount : ℕ
  inputCapacity_pos : 0 < config.inputCapacity
  outputCapacity_pos : 0 < config.outputCapacity

/-- `samplePeriod` as a `Clock::Duration`. -/
def Env.period {F : Type} (env : Env F) : Duration := env.config.samplePeriod * 1000

/-- `livenessTimeout` as a `Clock::Duration`, for timeouts whose nanoseconds fit in 64 bits: the
code converts in 64 bits and wraps. `scan_alone_eq_scanOnce` relates the two. -/
def Env.timeout {F : Type} (env : Env F) : Duration := env.config.livenessTimeout * 1000000

/-- How a call that may throw ends. -/
inductive Failure where
  /-- It does not throw. -/
  | none
  /-- It throws before it has any effect (a mutex that cannot be locked, a string that cannot
  be built, a stream that fails, a thread that cannot be created). -/
  | atCall
  /-- The allocation inside the queue's store throws. -/
  | inStore
deriving DecidableEq, Repr

/-- What the outside world decides for one step: whether a call throws, what the clock shows,
whether a timed wait ran out, what the random generator drew. -/
structure Outside (F : Type) where
  failure : Failure := .none
  now : Time := 0
  elapsed : Bool := false
  samples : Fin kRadarSampleCount → F

def Outside.throws {F : Type} (o : Outside F) : Bool := !decide (o.failure = .none)

/-! ## The shared state -/

/-- What a sink was asked to do. -/
inductive SinkEvent where
  | write (line : String)
  | flush
deriving DecidableEq, Repr

structure Shared (F : Type) where
  /-- The flag of the `ShutdownToken`. -/
  token : Bool
  input : Ledger (RadarSignal F)
  output : Ledger (LogRecord F)
  registry : HeartbeatRegistry
  /-- The latest reading of the clock; later readings are not smaller. -/
  clock : Time
  metrics : Metrics
  sinks : ℕ → List SinkEvent
  /-- The signals `recordSignalProcessed` was called for, in order. -/
  processed : List (RadarSignal F)

namespace Shared

variable {F : Type} {pc : Type}

@[simps token input output]
def requestShutdown (sh : Shared F) : Shared F := { sh with token := true }

@[simps input output registry]
def storeTimestamp (sh : Shared F) (i : ℕ) (t : Time) : Shared F :=
  { sh with registry := sh.registry.storeTimestamp i t }

@[simps input output registry]
def storeState (sh : Shared F) (i : ℕ) (st : HeartbeatState) : Shared F :=
  { sh with registry := sh.registry.storeState i st }

/-- `clock_.now()`: a reading that is not smaller than the ones before it. -/
def readClock (sh : Shared F) (o : Outside F) (next : Time → pc) : Option (Shared F × pc) :=
  if sh.clock ≤ o.now then some ({ sh with clock := o.now }, next o.now) else none

/-- `sink->write(line)` or `sink->flush()` on sink `k`. -/
@[simps output sinks]
def toSink (sh : Shared F) (k : ℕ) (e : SinkEvent) : Shared F :=
  { sh with sinks := Function.update sh.sinks k (sh.sinks k ++ [e]) }

end Shared

end RadarRT
