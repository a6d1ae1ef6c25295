import RadarRT.Dsp.Pipeline
import RadarRT.System.Refinement

/-!
# Time and order in the stream

A signal carries the clock reading it was sampled at. The producer samples and pushes in the order
of its readings, so the input stream is in time order, in every state and whatever the other
threads do; and a worker reads the clock again after it has the signal, so no latency it records is
negative. With a single worker the order goes all the way through: the records of the pool are the
abstract map of the input stream, signal by signal and in order, and in time order.
-/

namespace RadarRT

variable {F : Type} {N : ℕ} {env : Env F} {beat : ℕ} {o : Outside F} {sh sh' : Shared F}

/-! ## The stream so far -/

/-- The signals are in the order of their timestamps. -/
def InTimeOrder (xs : List (RadarSignal F)) : Prop :=
  xs.Pairwise fun x y => x.timestamp ≤ y.timestamp

/-- The `sampleTime` of a signal that is about to be pushed. -/
def ProducerPc.sampleTime : ProducerPc → Option Time
  | .storeTimestamp _ t | .storeRunning _ t | .push _ t => some t
  | _ => none

/-- The input stream, the clock and what the producer is about to push. -/
structure Stream (accepted : List (RadarSignal F)) (clock : Time) (pc : ProducerPc) : Prop where
  ordered : InTimeOrder accepted
  past : ∀ x ∈ accepted, x.timestamp ≤ clock
  sampled : ∀ t, pc.sampleTime = some t → t ≤ clock ∧ ∀ x ∈ accepted, x.timestamp ≤ t

theorem Stream.tick {accepted : List (RadarSignal F)} {clock clock' : Time} {pc : ProducerPc}
    (h : Stream accepted clock pc) (hle : clock ≤ clock') : Stream accepted clock' pc := by
  refine ⟨h.ordered, ?_, ?_⟩
  · intro x hx
    exact (h.past x hx).trans hle
  · intro t ht
    exact ⟨(h.sampled t ht).1.trans hle, (h.sampled t ht).2⟩

/-- The producer is between two samples. -/
theorem Stream.idle {accepted : List (RadarSignal F)} {clock : Time} {pc pc' : ProducerPc}
    (h : Stream accepted clock pc) (hpc : pc'.sampleTime = none) : Stream accepted clock pc' := by
  refine ⟨h.ordered, h.past, ?_⟩
  intro t ht
  rw [hpc] at ht
  cases ht

/-- A signal that was sampled after all the others is appended. -/
theorem Stream.append {accepted : List (RadarSignal F)} {clock : Time} {d : Time}
    {x : RadarSignal F} (h : Stream accepted clock (.push d x.timestamp)) {pc : ProducerPc}
    (hpc : pc.sampleTime = none) : Stream (accepted ++ [x]) clock pc := by
  obtain ⟨hnow, hlater⟩ := h.sampled x.timestamp rfl
  refine ⟨?_, ?_, ?_⟩
  · refine List.pairwise_append.mpr ⟨h.ordered, List.pairwise_singleton _ _, ?_⟩
    intro y hy z hz
    rw [List.mem_singleton] at hz
    rw [hz]
    exact hlater y hy
  · intro y hy
    obtain hy | hy := List.mem_append.mp hy
    · exact h.past y hy
    · rw [List.mem_singleton] at hy
      rw [hy]
      exact hnow
  · intro t ht
    rw [hpc] at ht
    cases ht

theorem ProducerMove.stream {pc pc' : ProducerPc} (h : ProducerMove env beat o sh pc sh' pc')
    (hpol : sh.input.queue.policy ≠ .dropNewest)
    (hs : Stream sh.input.accepted sh.clock pc) : Stream sh'.input.accepted sh'.clock pc' := by
  cases h with
  | readClock hle =>
    refine ⟨hs.ordered, (hs.tick hle).past, ?_⟩
    intro t ht
    cases ht
    exact ⟨le_rfl, (hs.tick hle).past⟩
  | configure hle | missed hle | onTime hle => exact (hs.tick hle).idle rfl
  | storeTimestamp | storeRunning => exact ⟨hs.ordered, hs.past, hs.sampled⟩
  | @pushed d t q f hp =>
    dsimp only
    rw [(Ledger.push_true hpol hp).accepted]
    exact hs.append (x := ⟨t, o.samples⟩) rfl
  | refused hp =>
    dsimp only
    rw [(Ledger.push_false hpol hp).accepted]
    exact hs.idle rfl
  | pushThrew _ hp =>
    dsimp only
    rw [(Ledger.push_error hpol hp).accepted]
    exact hs.idle rfl
  | _ => exact hs.idle rfl

/-! ## The workers -/

/-- The pipeline passes the timestamp of a signal through. -/
def Env.KeepsTime (env : Env F) : Prop := ∀ x, (env.process x).timestamp = x.timestamp

/-- It does so in any arithmetic. -/
theorem keepsTime_of_process {C : Type} [Zero F] [Add F] [Mul F] [Div F] [NatCast F] [LT F]
    [DecidableLT F] [Add C] [Sub C] [Mul C] [One C] (ops : ComplexOps F C)
    (h : ∀ x, SignalProcessor.process ops x = some (env.process x)) : env.KeepsTime := by
  intro x
  obtain ⟨detection, -, hresult⟩ := Option.map_eq_some_iff.mp (h x)
  rw [← hresult]

/-- What a worker holds was sampled before the clock reading it is compared with. -/
def WorkerPc.Timely (clock : Time) : WorkerPc F → Prop
  | .readInputSize x | .setInputQueueDepth x _ | .readClock x | .storeTimestamp x _
  | .storeRunning x | .recordSignalProcessed x => x.timestamp ≤ clock
  | .readLatencyClock r => r.timestamp ≤ clock
  | .recordProcessingLatency r now => r.timestamp ≤ now
  | _ => True

theorem WorkerPc.Timely.tick {pc : WorkerPc F} {clock clock' : Time} (h : pc.Timely clock)
    (hle : clock ≤ clock') : pc.Timely clock' := by
  cases pc with
  | readInputSize | setInputQueueDepth | readClock | storeTimestamp | storeRunning
  | recordSignalProcessed | readLatencyClock => exact le_trans h hle
  | recordProcessingLatency r now => exact h
  | _ => trivial

theorem WorkerMove.timely {pc pc' : WorkerPc F} (h : WorkerMove env beat o sh pc sh' pc')
    (hkeeps : env.KeepsTime)
    (hpast : ∀ x ∈ sh.input.accepted, x.timestamp ≤ sh.clock) (hpc : pc.Timely sh.clock)
    (hlatency : 0 ≤ sh.metrics.lastProcessingLatency) :
    pc'.Timely sh'.clock ∧ 0 ≤ sh'.metrics.lastProcessingLatency := by
  cases h with
  | @took x q hp =>
    have hx : x ∈ q.popped := by
      rw [(Ledger.waitAndPop_item hp).popped]
      exact List.mem_append_right _ (List.mem_singleton_self x)
    have hacc := q.popped_sublist.subset hx
    rw [(Ledger.waitAndPop_item hp).accepted] at hacc
    exact ⟨hpast x hacc, hlatency⟩
  | readClock hle => exact ⟨le_trans hpc hle, hlatency⟩
  | @recordSignalProcessed x => exact ⟨(hkeeps x).trans_le hpc, hlatency⟩
  | readLatencyClock hle => exact ⟨le_trans hpc hle, hlatency⟩
  | recordProcessingLatency => exact ⟨trivial, sub_nonneg.mpr hpc⟩
  | readInputSize | setInputQueueDepth | storeTimestamp | storeRunning => exact ⟨hpc, hlatency⟩
  | _ => exact ⟨trivial, hlatency⟩

/-! ## Every state -/

structure Timed (env : Env F) (s : State F N) : Prop where
  stream : Stream s.shared.input.accepted s.shared.clock s.producer
  workers : env.KeepsTime → ∀ i, (s.workers i).Timely s.shared.clock
  latency : env.KeepsTime → 0 ≤ s.shared.metrics.lastProcessingLatency

theorem LoggerMove.latency_eq {pc pc' : LoggerPc F} (h : LoggerMove env beat o sh pc sh' pc') :
    sh'.metrics.lastProcessingLatency = sh.metrics.lastProcessingLatency := by
  cases h <;> rfl

theorem WatchdogMove.latency_eq {pc pc' : WatchdogPc} (h : WatchdogMove env o sh pc sh' pc') :
    sh'.metrics.lastProcessingLatency = sh.metrics.lastProcessingLatency := by
  cases h <;> rfl

theorem ProducerMove.latency_eq {pc pc' : ProducerPc} (h : ProducerMove env beat o sh pc sh' pc') :
    sh'.metrics.lastProcessingLatency = sh.metrics.lastProcessingLatency := by
  cases h <;> rfl

theorem timed_main {s s' : State F N} (h : MainMove o s s') (hs : Timed env s) : Timed env s' := by
  obtain ⟨hstream, hworkers, hlatency⟩ := hs
  cases h with
  | startProducer hm => exact ⟨hstream.idle rfl, hworkers, hlatency⟩
  | @startWorker k hk hm =>
    refine ⟨hstream, ?_, hlatency⟩
    intro hkeeps i
    by_cases hi : i = ⟨k, hk⟩
    · subst hi
      simp only [Function.update_self]
      trivial
    · simp only [Function.update_of_ne hi]
      exact hworkers hkeeps i
  | _ => exact ⟨⟨hstream.ordered, hstream.past, hstream.sampled⟩, hworkers, hlatency⟩

/-- A thread that leaves the input queue and the latency alone. -/
theorem Timed.aside {s : State F N} (hs : Timed env s) (hinput : sh'.input = s.shared.input)
    (hclock : s.shared.clock ≤ sh'.clock)
    (hlatency : sh'.metrics.lastProcessingLatency = s.shared.metrics.lastProcessingLatency) :
    Timed env { s with shared := sh' } := by
  refine ⟨?_, fun hkeeps i => (hs.workers hkeeps i).tick hclock, ?_⟩
  · show Stream sh'.input.accepted sh'.clock s.producer
    rw [hinput]
    exact hs.stream.tick hclock
  · intro hkeeps
    rw [hlatency]
    exact hs.latency hkeeps

theorem timed_move {s s' : State F N} {a : Action F N} (h : Move env s a s') (hf : Fixed s)
    (hs : Timed env s) : Timed env s' := by
  cases h with
  | main hm => exact timed_main hm hs
  | producer hm =>
    refine ⟨hm.stream hf.input_ne hs.stream, ?_, ?_⟩
    · exact fun hkeeps i => (hs.workers hkeeps i).tick hm.extends.clock
    · exact fun hkeeps => hm.latency_eq ▸ hs.latency hkeeps
  | @worker i o sh pc hm =>
    have htimely := fun hkeeps =>
      hm.timely hkeeps hs.stream.past (hs.workers hkeeps i) (hs.latency hkeeps)
    refine ⟨?_, ?_, fun hkeeps => (htimely hkeeps).2⟩
    · show Stream sh.input.accepted sh.clock s.producer
      rw [hm.books.accepted]
      exact hs.stream.tick hm.extends.clock
    · intro hkeeps j
      by_cases hji : j = i
      · subst hji
        simp only [Function.update_self]
        exact (htimely hkeeps).1
      · simp only [Function.update_of_ne hji]
        exact (hs.workers hkeeps j).tick hm.extends.clock
  | logger hm =>
    have haside := hs.aside hm.sameSignals.input hm.extends.clock hm.latency_eq
    exact ⟨haside.stream, haside.workers, haside.latency⟩
  | watchdog hm =>
    have haside := hs.aside hm.sameSignals.input hm.extends.clock hm.latency_eq
    exact ⟨haside.stream, haside.workers, haside.latency⟩

theorem timed_initial (env : Env F) (t₀ : Time) : Timed env (initial env N t₀) := by
  refine ⟨⟨List.Pairwise.nil, ?_, ?_⟩, fun _ _ => trivial, fun _ => le_rfl⟩
  · intro x hx
    cases hx
  · intro t ht
    cases ht

theorem Reachable.timed {s : State F N} (h : Reachable env s) : Timed env s := by
  have hboth : Fixed s ∧ Timed env s :=
    h.invariant (I := fun s => Fixed s ∧ Timed env s)
      (fun t₀ => ⟨⟨rfl, rfl, rfl⟩, timed_initial env t₀⟩)
      (fun _ _ _ hm hI => ⟨fixed_move hm hI.1, timed_move hm hI.1 hI.2⟩)
  exact hboth.2

/-- In every state the signals the input queue has accepted, and those the workers have taken, are
in the order of their timestamps, and none is later than the clock; and for a pipeline that passes
the timestamp through, the recorded latency is not negative. -/
theorem stream_in_time_order {s : State F N} (h : Reachable env s) :
    InTimeOrder s.shared.input.accepted ∧ InTimeOrder s.shared.input.popped ∧
      (∀ x ∈ s.shared.input.accepted, x.timestamp ≤ s.shared.clock) ∧
      (env.KeepsTime → 0 ≤ s.shared.metrics.lastProcessingLatency) := by
  have ht := h.timed
  exact ⟨ht.stream.ordered, ht.stream.ordered.sublist s.shared.input.popped_sublist,
    ht.stream.past, ht.latency⟩

/-- Two signals, a period apart. -/
theorem stream_in_time_order_two :
    ∃ s : State ℕ 1, Reachable silentDefaults s ∧
      s.shared.input.accepted.map RadarSignal.timestamp = [0, 1000000] ∧
      InTimeOrder s.shared.input.accepted ∧ 0 ≤ s.shared.metrics.lastProcessingLatency := by
  obtain ⟨s, hrun, hacc⟩ := Lts.exists_run (step silentDefaults) (initial silentDefaults 1 0)
    (plainly 5 0 .main ++ plainly 13 0 .producer ++ [elapsing .producer] ++
      plainly 12 1000000 .producer)
    (fun s => s.shared.input.accepted.map RadarSignal.timestamp = [0, 1000000]) (by decide +kernel)
  obtain ⟨hordered, -, -, hlatency⟩ := stream_in_time_order (reachable_of_run hrun)
  exact ⟨s, reachable_of_run hrun, hacc, hordered, hlatency fun _ => rfl⟩

/-! ## A single worker -/

/-- A queue that evicts nothing gives out what it accepted, in order. -/
theorem Ledger.accepted_eq {α : Type*} (l : Ledger α) (hp : l.queue.policy ≠ .dropOldest) :
    l.accepted = l.popped ++ l.queue.queue := by
  have hperm := departed_perm l.removed
  rw [l.evicted_nil hp, List.append_nil] at hperm
  have heq : l.popped = l.removed.map Prod.fst :=
    (departed_sublist .popped l.removed).eq_of_length hperm.length_eq
  rw [heq]
  exact l.conserved

/-- The signal a worker has popped and not yet called `recordSignalProcessed` for, as a list. -/
def WorkerPc.inHand : WorkerPc F → List (RadarSignal F)
  | .readInputSize x | .setInputQueueDepth x _ | .readClock x | .storeTimestamp x _
  | .storeRunning x | .recordSignalProcessed x => [x]
  | .recordThreadException held | .requestShutdown held | .finished (.died held) => held.toList
  | _ => []

/-- The record of a processed signal it has not pushed yet. -/
def WorkerPc.due : WorkerPc F → List (LogRecord F)
  | .readLatencyClock r | .recordProcessingLatency r _ | .push r => [toLogRecord r]
  | _ => []

/-- How far a single worker has come with the input stream. -/
structure Sequential (env : Env F) (sh : Shared F) (pc : WorkerPc F) : Prop where
  taken : sh.input.popped = sh.processed ++ pc.inHand
  pushed : dspRecords sh.output.accepted <+: sh.processed.map (recordOf env)
  exact : pc.threw = false →
    sh.processed.map (recordOf env) = dspRecords sh.output.accepted ++ pc.due

theorem Sequential.congr {pc : WorkerPc F} (h : Sequential env sh pc)
    (hinput : sh'.input.popped = sh.input.popped) (hprocessed : sh'.processed = sh.processed)
    (houtput : dspRecords sh'.output.accepted = dspRecords sh.output.accepted) :
    Sequential env sh' pc := by
  refine ⟨?_, ?_, ?_⟩
  · rw [hinput, hprocessed]
    exact h.taken
  · rw [houtput, hprocessed]
    exact h.pushed
  · rw [houtput, hprocessed]
    exact h.exact

theorem WorkerMove.sequential {pc pc' : WorkerPc F} (h : WorkerMove env beat o sh pc sh' pc')
    (hpol : sh.output.queue.policy ≠ .dropNewest) (hopen : sh.output.queue.closed = false)
    (hs : Sequential env sh pc) : Sequential env sh' pc' := by
  obtain ⟨htaken, hpushed, hexact⟩ := hs
  cases h with
  | ended hp =>
    obtain ⟨-, -, rfl⟩ := Ledger.waitAndPop_nullopt hp
    exact ⟨htaken, hpushed, hexact⟩
  | took hp =>
    refine ⟨?_, hpushed, hexact⟩
    have htaken : sh.input.popped = sh.processed := htaken.trans (List.append_nil _)
    show Ledger.popped _ = _
    rw [(Ledger.waitAndPop_item hp).popped, htaken]
    rfl
  | @recordSignalProcessed x =>
    -- the signal in hand is the next one of the stream, and its record is due
    have hdone : sh.processed.map (recordOf env) = dspRecords sh.output.accepted := by
      rw [hexact rfl]
      exact List.append_nil _
    refine ⟨?_, ?_, ?_⟩
    · show sh.input.popped = sh.processed ++ [x] ++ []
      rw [List.append_nil]
      exact htaken
    · rw [List.map_append]
      exact hpushed.trans (List.prefix_append _ _)
    · intro _
      rw [List.map_append, hdone]
      rfl
  | @pushed r b q f hp =>
    cases b with
    | false =>
      have := (Ledger.push_false hpol hp).isClosed
      rw [hopen] at this
      cases this
    | true =>
      have hdsp : dspRecords q.accepted = dspRecords sh.output.accepted ++ [toLogRecord r] := by
        rw [(Ledger.push_true hpol hp).accepted, dspRecords_append]
        rfl
      have hall : sh.processed.map (recordOf env) = dspRecords q.accepted := by
        rw [hdsp]
        exact hexact rfl
      refine ⟨htaken, ?_, ?_⟩
      · show dspRecords q.accepted <+: sh.processed.map (recordOf env)
        rw [hall]
      · intro _
        show sh.processed.map (recordOf env) = dspRecords q.accepted ++ []
        rw [hall, List.append_nil]
  | pushThrew _ hp =>
    refine ⟨htaken, ?_, fun hcalm => by cases hcalm⟩
    show dspRecords (Ledger.accepted _) <+: _
    rw [(Ledger.push_error hpol hp).accepted]
    exact hpushed
  | popFailed | readInputSizeFailed | pushFailed | readOutputSizeFailed | recordThreadException
  | requestShutdown => exact ⟨htaken, hpushed, fun hcalm => by cases hcalm⟩
  | _ => exact ⟨htaken, hpushed, hexact⟩

theorem sequential_main {s s' : State F 1} (h : MainMove o s s') (hst : Started s)
    (hs : Sequential env s.shared (s.workers 0)) : Sequential env s'.shared (s'.workers 0) := by
  have hst := hst.starting
  cases h with
  | @startWorker k hk hm =>
    simp only [State.Starting, hm] at hst
    have hk0 : (⟨k, hk⟩ : Fin 1) = 0 := Subsingleton.elim _ _
    have hnot : s.workers 0 = .notStarted := (hst.2.2 0).mpr (by omega)
    rw [hnot] at hs
    simp only [hk0, Function.update_self]
    exact ⟨hs.taken, hs.pushed, hs.exact⟩
  | _ => exact ⟨hs.taken, hs.pushed, hs.exact⟩

theorem sequential_move {s s' : State F 1} {a : Action F 1} (h : Move env s a s')
    (hph : Phases s) (hs : Sequential env s.shared (s.workers 0)) :
    Sequential env s'.shared (s'.workers 0) := by
  obtain ⟨hst, ht, hf⟩ := hph
  cases h with
  | main hm => exact sequential_main hm hst hs
  | producer hm =>
    obtain ⟨hout, hprocessed, -⟩ := hm.output_eq
    exact hs.congr (hm.books hf.input_ne).popped hprocessed (by rw [hout])
  | @worker i o sh pc hm =>
    obtain rfl : i = 0 := Subsingleton.elim _ _
    simp only [Function.update_self]
    exact hm.sequential hf.output_ne (ht.output_open hm.alive.1) hs
  | logger hm =>
    exact hs.congr (by rw [hm.sameSignals.input]) hm.output.processed (by rw [hm.output.accepted])
  | watchdog hm =>
    have hout := hm.output hf.output_ne
    exact hs.congr (by rw [hm.sameSignals.input]) hout.processed hout.records

theorem sequential_of_reachable {s : State F 1} (h : Reachable env s) :
    Sequential env s.shared (s.workers 0) := by
  have hboth : Phases s ∧ Sequential env s.shared (s.workers 0) :=
    h.invariant (I := fun s => Phases s ∧ Sequential env s.shared (s.workers 0))
      (fun t₀ => ⟨phases_initial env t₀, rfl, List.nil_prefix, fun _ => rfl⟩)
      (fun _ _ _ hm hI => ⟨phases_move hm hI.1, sequential_move hm hI.1 hI.2⟩)
  exact hboth.2

theorem WorkerPc.empty_handed {pc : WorkerPc F} (h : pc.joined = true) (hc : pc.threw = false) :
    pc.inHand = [] ∧ pc.due = [] := by
  cases pc with
  | notStarted => exact ⟨rfl, rfl⟩
  | finished exit =>
    cases exit with
    | endOfStream => exact ⟨rfl, rfl⟩
    | died held => cases hc
  | _ => cases h

theorem pairwise_recordOf (hkeeps : env.KeepsTime) {xs : List (RadarSignal F)}
    (h : InTimeOrder xs) :
    (xs.map (recordOf env)).Pairwise fun r r' => r.timestamp ≤ r'.timestamp := by
  refine List.pairwise_map.mpr (h.imp ?_)
  intro x y hxy
  show (env.process x).timestamp ≤ (env.process y).timestamp
  rw [hkeeps, hkeeps]
  exact hxy

/-- With one worker, in every state and whatever throws: the records of the pool are the map of
the accepted signals, signal by signal and in order, as far as the worker has come; for a pipeline
that passes the timestamp through they are in time order. When `shutdown()` has returned and no
thread has thrown, they are all there. -/
theorem single_worker_in_order {s : State F 1} (h : Reachable env s) :
    dspRecords s.shared.output.accepted <+: s.shared.input.accepted.map (recordOf env) ∧
      (env.KeepsTime →
        (dspRecords s.shared.output.accepted).Pairwise fun r r' => r.timestamp ≤ r'.timestamp) ∧
      (s.main = .returned → s.Calm →
        dspRecords s.shared.output.accepted = s.shared.input.accepted.map (recordOf env)) := by
  have hseq := sequential_of_reachable h
  have hacc := s.shared.input.accepted_eq (by rw [h.fixed.input]; nofun)
  have hfirst : dspRecords s.shared.output.accepted <+:
      s.shared.input.accepted.map (recordOf env) := by
    rw [hacc, hseq.taken, List.append_assoc, List.map_append]
    exact hseq.pushed.trans (List.prefix_append _ _)
  refine ⟨hfirst, ?_, ?_⟩
  · intro hkeeps
    exact (pairwise_recordOf hkeeps h.timed.stream.ordered).sublist hfirst.sublist
  · intro hm hc
    have hjoined := h.teardown.workers_joined hm
    obtain ⟨hhand, hdue⟩ := WorkerPc.empty_handed (hjoined 0) (hc.workers 0)
    have hnil := h.conserved.drained h.started Nat.one_pos hjoined fun i =>
      (WorkerPc.idle_of_joined (hjoined i) (hc.workers i)).2.2
    rw [hacc, hseq.taken, hnil, hhand, List.append_nil, List.append_nil,
      hseq.exact (hc.workers 0), hdue, List.append_nil]

/-- Two signals a period apart, two records in the same order. -/
theorem single_worker_in_order_two :
    ∃ s : State ℕ 1, Reachable silentDefaults s ∧ s.main = .returned ∧
      s.shared.input.accepted.length = 2 ∧
      dspRecords s.shared.output.accepted =
        s.shared.input.accepted.map (recordOf silentDefaults) := by
  obtain ⟨s, hrun, hm, hacc, hcp, hcw, hcl, hcd⟩ := Lts.exists_run
    (step silentDefaults) (initial silentDefaults 1 0)
    (plainly 5 0 .main ++ plainly 13 0 .producer ++ [elapsing .producer] ++
      plainly 12 1000000 .producer ++ plainly 31 1000000 (.worker 0) ++
      plainly 6 1000000 .main ++ plainly 1 1000000 .producer ++ plainly 2 1000000 (.worker 0) ++
      plainly 4 1000000 .main ++ plainly 25 1000000 .logger ++ plainly 2 1000000 .watchdog ++
      plainly 2 1000000 .main)
    (fun s => s.main = .returned ∧ s.shared.input.accepted.length = 2 ∧
      s.producer.threw = false ∧ (∀ i, (s.workers i).threw = false) ∧ s.logger.threw = false ∧
      s.watchdog.threw = false)
    (by decide +kernel)
  obtain ⟨-, -, hall⟩ := single_worker_in_order (reachable_of_run hrun)
  exact ⟨s, reachable_of_run hrun, hm, hacc, hall hm ⟨hcp, hcw, hcl, hcd⟩⟩

end RadarRT
