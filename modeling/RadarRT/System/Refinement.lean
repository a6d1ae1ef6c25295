import RadarRT.System.Conservation

/-!
# The pool and the logger refine a sequential map

The abstract program is a map: every signal the input queue accepted becomes the record
`toLogRecord (process signal)`, and every record becomes a line on every sink. The concurrent
program does the same up to the order of the records and the evictions of the output queue, which
are counted. `Refines` says how far each of the two stages has come in a state where no thread
has thrown.
-/

namespace RadarRT

open Finset

variable {F : Type} {N : ℕ} {env : Env F} {beat : ℕ} {o : Outside F} {sh sh' : Shared F}

/-! ## The abstract map -/

/-- What the pool makes of a signal. -/
def recordOf (env : Env F) (x : RadarSignal F) : LogRecord F := toLogRecord (env.process x)

/-- The records of a list that came from the pool. -/
def dspRecords (records : List (LogRecord F)) : List (LogRecord F) :=
  records.filter fun r => r.source = .dsp

/-- What the logger makes of a list of records. -/
def linesOf (env : Env F) (records : List (LogRecord F)) : List String :=
  records.map (formatLine env.showFloat)

theorem dspRecords_append (l l' : List (LogRecord F)) :
    dspRecords (l ++ l') = dspRecords l ++ dspRecords l' :=
  List.filter_append ..

/-! ## How far a thread has come -/

/-- The record of a processed signal a worker has not pushed yet. -/
def WorkerPc.owed : WorkerPc F → Multiset (LogRecord F)
  | .readLatencyClock r | .recordProcessingLatency r _ | .push r => {toLogRecord r}
  | _ => 0

/-- The line of a popped record the logger has not written to every sink yet. -/
def LoggerPc.line (env : Env F) : LoggerPc F → List String
  | .readOutputSize x | .setOutputQueueDepth x _ | .readClock x | .storeTimestamp x _
  | .storeRunning x | .formatLine x => [RadarRT.formatLine env.showFloat x]
  | .write line _ => [line]
  | _ => []

/-- The sinks that line has been written to are those below this. -/
def LoggerPc.written : LoggerPc F → ℕ
  | .write _ k => k
  | _ => 0

/-- The sinks that have been flushed are those below this. -/
def LoggerPc.flushed (env : Env F) : LoggerPc F → ℕ
  | .flush k => k
  | .finished _ => env.sinkCount
  | _ => 0

/-- The logger has seen the end of the output stream. -/
def LoggerPc.drained : LoggerPc F → Bool
  | .flush _ | .finished false => true
  | _ => false

/-- What sink `k` has been given when the lines `done` are on every sink. -/
def LoggerPc.sinkTrace (env : Env F) (pc : LoggerPc F) (done : List String) (k : ℕ) :
    List SinkEvent :=
  (done ++ if k < pc.written then pc.line env else []).map SinkEvent.write ++
    if k < pc.flushed env then [.flush] else []

theorem LoggerPc.sinkTrace_write (env : Env F) (line : String) (j : ℕ) (done : List String)
    (k : ℕ) : (LoggerPc.write line j).sinkTrace env done k =
      (done ++ if k < j then [line] else []).map SinkEvent.write := by
  show (done ++ if k < j then [line] else []).map SinkEvent.write ++ (if k < 0 then _ else _) = _
  rw [if_neg (Nat.not_lt_zero k), List.append_nil]

theorem LoggerPc.sinkTrace_flush (env : Env F) (j : ℕ) (done : List String) (k : ℕ) :
    (LoggerPc.flush j).sinkTrace env done k =
      done.map SinkEvent.write ++ if k < j then [.flush] else [] := by
  show (done ++ if k < 0 then _ else _).map SinkEvent.write ++ (if k < j then _ else _) = _
  rw [if_neg (Nat.not_lt_zero k), List.append_nil]

/-! ## What a step does to the output side -/

theorem ProducerMove.output_eq {pc pc' : ProducerPc} (h : ProducerMove env beat o sh pc sh' pc') :
    sh'.output = sh.output ∧ sh'.processed = sh.processed ∧ sh'.sinks = sh.sinks := by
  cases h <;> exact ⟨rfl, rfl, rfl⟩

/-- A step of a worker that does not throw, while the output queue is open. -/
structure WorkerMove.Output (env : Env F) (sh sh' : Shared F) (pc pc' : WorkerPc F) : Prop where
  records : ((sh'.processed.map (recordOf env) : List (LogRecord F)) : Multiset (LogRecord F)) +
      (dspRecords sh.output.accepted + pc.owed) =
    (sh.processed.map (recordOf env) : List (LogRecord F)) +
      (dspRecords sh'.output.accepted + pc'.owed)
  popped : sh'.output.popped = sh.output.popped
  refusedFull : sh'.output.refusedFull = sh.output.refusedFull
  refusedClosed : sh'.output.refusedClosed = sh.output.refusedClosed
  sinks : sh'.sinks = sh.sinks

theorem WorkerMove.output {pc pc' : WorkerPc F} (h : WorkerMove env beat o sh pc sh' pc')
    (hpol : sh.output.queue.policy ≠ .dropNewest) (hopen : sh.output.queue.closed = false)
    (hcalm : pc'.threw = false) : WorkerMove.Output env sh sh' pc pc' := by
  cases h with
  | @pushed r b q f hp =>
    cases b with
    | false =>
      have := (Ledger.push_false hpol hp).isClosed
      rw [hopen] at this
      cases this
    | true =>
      have hq := Ledger.push_true hpol hp
      refine ⟨?_, hq.popped, hq.refusedFull, hq.refusedClosed, rfl⟩
      have hdsp : dspRecords [toLogRecord r] = [toLogRecord r] := by
        simp [dspRecords, toLogRecord]
      simp only [hq.accepted, dspRecords_append, hdsp, WorkerPc.owed, ← Multiset.coe_add,
        Multiset.coe_singleton]
      abel
  | @recordSignalProcessed x =>
    refine ⟨?_, rfl, rfl, rfl, rfl⟩
    simp only [WorkerPc.owed, recordOf, List.map_append, List.map_singleton, ← Multiset.coe_add,
      Multiset.coe_singleton]
    abel
  | popFailed | readInputSizeFailed | pushThrew | pushFailed | readOutputSizeFailed
  | recordThreadException | requestShutdown => cases hcalm
  | _ => exact ⟨rfl, rfl, rfl, rfl, rfl⟩

/-- A step of the watchdog adds at most a record of its own. -/
structure WatchdogMove.Output (sh sh' : Shared F) : Prop where
  records : dspRecords sh'.output.accepted = dspRecords sh.output.accepted
  popped : sh'.output.popped = sh.output.popped
  refusedFull : sh'.output.refusedFull = sh.output.refusedFull
  refusedClosed : ∀ r ∈ sh'.output.refusedClosed,
    r ∈ sh.output.refusedClosed ∨ r.source = .watchdog
  drained : sh.output.queue.closed = true → sh'.output.queue.queue = sh.output.queue.queue
  processed : sh'.processed = sh.processed
  sinks : sh'.sinks = sh.sinks

theorem WatchdogMove.output {pc pc' : WatchdogPc} (h : WatchdogMove env o sh pc sh' pc')
    (hpol : sh.output.queue.policy ≠ .dropNewest) : WatchdogMove.Output sh sh' := by
  cases h with
  | @pushed sc age b q f hp =>
    cases b with
    | false =>
      have hq := Ledger.push_false hpol hp
      refine ⟨by simp [hq.accepted], hq.popped, hq.refusedFull, ?_, ?_, rfl, rfl⟩
      · intro r hr
        simp only [hq.refusedClosed, List.mem_append, List.mem_singleton] at hr
        rcases hr with hr | rfl
        · exact .inl hr
        · exact .inr rfl
      · exact fun _ => by rw [hq.queue]
    | true =>
      have hq := Ledger.push_true hpol hp
      refine ⟨?_, hq.popped, hq.refusedFull, ?_, ?_, rfl, rfl⟩
      · simp [hq.accepted, dspRecords, stallRecord]
      · exact fun r hr => .inl (hq.refusedClosed ▸ hr)
      · intro hc
        rw [hq.isOpen] at hc
        cases hc
  | pushThrew _ hp =>
    have hq := Ledger.push_error hpol hp
    refine ⟨by simp [hq.accepted], hq.popped, hq.refusedFull, ?_, ?_, rfl, rfl⟩
    · exact fun r hr => .inl (hq.refusedClosed ▸ hr)
    · intro hc
      cases (Ledger.push_of_closed hc hp).1
  | _ => exact ⟨rfl, rfl, rfl, fun _ => .inl, fun _ => rfl, rfl, rfl⟩

/-- A step of the logger changes nothing on the accepting side of the output queue. -/
structure LoggerMove.Output (sh sh' : Shared F) (pc pc' : LoggerPc F) : Prop where
  accepted : sh'.output.accepted = sh.output.accepted
  refusedFull : sh'.output.refusedFull = sh.output.refusedFull
  refusedClosed : sh'.output.refusedClosed = sh.output.refusedClosed
  processed : sh'.processed = sh.processed
  drained : pc'.drained = true → pc.drained = true ∧ sh'.output = sh.output ∨
    sh'.output.queue.closed = true ∧ sh'.output.queue.queue = []

theorem LoggerMove.output {pc pc' : LoggerPc F} (h : LoggerMove env beat o sh pc sh' pc') :
    LoggerMove.Output sh sh' pc pc' := by
  cases h with
  | ended hp =>
    obtain ⟨hc, hnil, rfl⟩ := Ledger.waitAndPop_nullopt hp
    exact ⟨rfl, rfl, rfl, rfl, fun _ => .inr ⟨hc, hnil⟩⟩
  | took hp =>
    have hq := Ledger.waitAndPop_item hp
    exact ⟨hq.accepted, hq.refusedFull, hq.refusedClosed, rfl, fun hd => by cases hd⟩
  | flush | flushed => exact ⟨rfl, rfl, rfl, rfl, fun _ => .inl ⟨rfl, rfl⟩⟩
  | _ => exact ⟨rfl, rfl, rfl, rfl, by nofun⟩

/-- The logger's loop: whole lines on every sink, and at most one on its way. -/
theorem LoggerMove.trace {pc pc' : LoggerPc F} (h : LoggerMove env beat o sh pc sh' pc')
    (hcalm : pc'.threw = false) {done : List String}
    (hlines : linesOf env sh.output.popped = done ++ pc.line env)
    (hsinks : ∀ k < env.sinkCount, sh.sinks k = pc.sinkTrace env done k) :
    ∃ done', linesOf env sh'.output.popped = done' ++ pc'.line env ∧
      ∀ k < env.sinkCount, sh'.sinks k = pc'.sinkTrace env done' k := by
  cases h with
  | ended hp =>
    obtain ⟨-, -, rfl⟩ := Ledger.waitAndPop_nullopt hp
    exact ⟨done, hlines, hsinks⟩
  | took hp =>
    -- the line of the popped record is on its way from here on
    refine ⟨done, ?_, hsinks⟩
    simp only [LoggerPc.line, List.append_nil] at hlines ⊢
    simp only [linesOf] at hlines ⊢
    rw [(Ledger.waitAndPop_item hp).popped, List.map_append, hlines]
    rfl
  | @write line k hk =>
    -- sink `k` gets the line, the sinks below it have it already
    refine ⟨done, hlines, ?_⟩
    intro j hj
    have hsj := hsinks j hj
    rw [LoggerPc.sinkTrace_write] at hsj ⊢
    by_cases hjk : j = k
    · subst hjk
      simp [hsj]
    · have hiff : j < k + 1 ↔ j < k := by omega
      rw [Shared.toSink_sinks, Function.update_of_ne hjk, hsj, if_congr hiff rfl rfl]
  | @written line k hk =>
    -- the line is on every sink, so it is one of the whole lines now
    refine ⟨done ++ [line], by simpa [LoggerPc.line] using hlines, ?_⟩
    intro j hj
    have hjk : j < k := by omega
    simpa [LoggerPc.sinkTrace, LoggerPc.written, LoggerPc.flushed, LoggerPc.line, hjk] using
      hsinks j hj
  | @flush k hk =>
    refine ⟨done, hlines, ?_⟩
    intro j hj
    have hsj := hsinks j hj
    rw [LoggerPc.sinkTrace_flush] at hsj ⊢
    by_cases hjk : j = k
    · subst hjk
      simp [hsj]
    · have hiff : j < k + 1 ↔ j < k := by omega
      rw [Shared.toSink_sinks, Function.update_of_ne hjk, hsj, if_congr hiff rfl rfl]
  | @flushed k hk =>
    refine ⟨done, hlines, ?_⟩
    intro j hj
    have hjk : j < k := by omega
    simpa [LoggerPc.sinkTrace, LoggerPc.written, LoggerPc.flushed, LoggerPc.line, hjk, hj] using
      hsinks j hj
  | popFailed | readOutputSizeFailed | formatLineFailed | writeFailed | flushFailed
  | recordThreadException | requestShutdown => cases hcalm
  | _ => exact ⟨done, hlines, hsinks⟩

/-! ## The invariant -/

structure Refines (env : Env F) (s : State F N) : Prop where
  records : ((s.shared.processed.map (recordOf env) : List (LogRecord F)) :
      Multiset (LogRecord F)) =
    dspRecords s.shared.output.accepted + ∑ i, (s.workers i).owed
  refusedFull : s.shared.output.refusedFull = []
  refusedClosed : ∀ r ∈ s.shared.output.refusedClosed, r.source = .watchdog
  unstarted : s.logger = .notStarted → s.shared.output.accepted = []
  drained : s.logger.drained = true →
    s.shared.output.queue.closed = true ∧ s.shared.output.queue.queue = []
  sinks : ∃ done, linesOf env s.shared.output.popped = done ++ s.logger.line env ∧
    ∀ k < env.sinkCount, s.shared.sinks k = s.logger.sinkTrace env done k

theorem refines_initial (env : Env F) (t₀ : Time) : Refines env (initial env N t₀) := by
  refine ⟨?_, rfl, by nofun, fun _ => rfl, by nofun, [], rfl, fun _ _ => rfl⟩
  simp [initial, Ledger.opened, dspRecords, WorkerPc.owed]

/-- The output queue is open while a worker runs. -/
theorem Teardown.output_open {s : State F N} (h : Teardown s) {i : Fin N}
    (hi : (s.workers i).joined = false) : s.shared.output.queue.closed = false := by
  by_contra hc
  have hstage := h.outputClosed.mp (by simpa using hc)
  have := h.workers i (by rw [MainPc.workersJoined_eq (by omega)]; exact i.isLt)
  rw [hi] at this
  cases this

theorem refines_main {s s' : State F N} (h : MainMove o s s') (hst : Started s)
    (hs : Refines env s) : Refines env s' := by
  have hst := hst.starting
  obtain ⟨hrec, hfull, hclosed, huns, hdr, hsink⟩ := hs
  cases h with
  | startLogger hm =>
    simp only [State.Starting, hm] at hst
    rw [hst] at hsink
    refine ⟨hrec, hfull, hclosed, ?_, ?_, hsink⟩
    · intro hl
      cases hl
    · intro hd
      cases hd
  | @startWorker k hk hm =>
    simp only [State.Starting, hm] at hst
    refine ⟨?_, hfull, hclosed, huns, hdr, hsink⟩
    have hns : s.workers ⟨k, hk⟩ = .notStarted := (hst.2.2 ⟨k, hk⟩).mpr le_rfl
    have hsum := Tally.sum_update_eq (g := WorkerPc.owed) (f := s.workers) (i := ⟨k, hk⟩)
      (v := .configure) (by rw [hns]; rfl)
    simpa only [hsum] using hrec
  | closeOutput hm => exact ⟨hrec, hfull, hclosed, huns, fun h => ⟨rfl, (hdr h).2⟩, hsink⟩
  | _ => exact ⟨hrec, hfull, hclosed, huns, hdr, hsink⟩

theorem refines_move {s s' : State F N} {a : Action F N} (h : Move env s a s') (hph : Phases s)
    (hcalm : s'.Calm) (hs : Refines env s) : Refines env s' := by
  obtain ⟨hst, ht, hf⟩ := hph
  have hs₀ := hs
  obtain ⟨hrec, hfull, hclosed, huns, hdr, done, hlines, hsinks⟩ := hs
  cases h with
  | main hm => exact refines_main hm hst hs₀
  | producer hm =>
    obtain ⟨ho, hp, hk⟩ := hm.output_eq
    refine ⟨?_, ?_, ?_, ?_, ?_, done, ?_, ?_⟩ <;> simp only [ho, hp, hk] <;> assumption
  | @worker i o sh pc hm =>
    have hout := hm.output hf.output_ne (ht.output_open hm.alive.1)
      (by simpa using hcalm.workers i)
    refine ⟨?_, hout.refusedFull.trans hfull, ?_, ?_, ?_, done, ?_, ?_⟩
    · -- what the worker came to owe was processed, what it no longer owes was accepted
      exact Tally.balance_update hrec hout.records
    · simpa only [hout.refusedClosed] using hclosed
    · -- the logger is started before any worker
      intro h
      have hns := (hst.watchdog (hst.logger h)).2 i
      have hal := hm.alive.1
      rw [hns] at hal
      cases hal
    · -- the logger cannot have drained a queue that is still open
      intro h
      have hc := (hdr h).1
      rw [ht.output_open hm.alive.1] at hc
      cases hc
    · simpa only [hout.popped] using hlines
    · simpa only [hout.sinks] using hsinks
  | logger hm =>
    have hout := hm.output
    refine ⟨?_, hout.refusedFull.trans hfull, ?_, ?_, ?_, ?_⟩
    · simpa only [hout.accepted, hout.processed] using hrec
    · simpa only [hout.refusedClosed] using hclosed
    · intro h
      exact absurd h hm.alive.2
    · intro h
      rcases hout.drained h with ⟨hd, heq⟩ | hd
      · simpa only [heq] using hdr hd
      · exact hd
    · exact hm.trace hcalm.logger hlines hsinks
  | watchdog hm =>
    have hout := hm.output hf.output_ne
    refine ⟨?_, hout.refusedFull.trans hfull, ?_, ?_, ?_, done, ?_, ?_⟩
    · simpa only [hout.records, hout.processed] using hrec
    · exact fun r hr => (hout.refusedClosed r hr).elim (hclosed r) id
    · -- the logger is started before the watchdog too
      intro h
      have hns := hst.logger h
      have hal := hm.alive.1
      rw [hns] at hal
      cases hal
    · -- a late record of the watchdog is refused, so the queue stays empty
      intro h
      obtain ⟨hc, hnil⟩ := hdr h
      exact ⟨hm.extends.output.closed.trans hc, (hout.drained hc).trans hnil⟩
    · simpa only [hout.popped] using hlines
    · simpa only [hout.sinks] using hsinks

theorem Reachable.refines {s : State F N} (h : Reachable env s) (hc : s.Calm) :
    Refines env s :=
  h.calm_invariant (refines_initial env) (fun _ _ _ => refines_move) hc

/-! ## When `shutdown()` has returned -/

/-- A worker that ended without an exception holds no signal and owes no record. -/
theorem WorkerPc.idle_of_joined {pc : WorkerPc F} (h : pc.joined = true)
    (hc : pc.threw = false) : pc.held = 0 ∧ pc.owed = 0 ∧ pc.died = false := by
  cases pc with
  | notStarted => exact ⟨rfl, rfl, rfl⟩
  | finished exit =>
    cases exit with
    | endOfStream => exact ⟨rfl, rfl, rfl⟩
    | died held => cases hc
  | _ => cases h

/-- The logger was never started, or it saw the end of the stream and flushed. -/
theorem LoggerPc.ended_of_joined {pc : LoggerPc F} (h : pc.joined = true)
    (hc : pc.threw = false) : pc = .notStarted ∨ pc = .finished false := by
  cases pc with
  | notStarted => exact .inl rfl
  | finished died =>
    cases died with
    | true => cases hc
    | false => exact .inr rfl
  | _ => cases h

/-- The output queue, which is `DropOldest`, counts its evictions and nothing else. -/
theorem Refines.dropped_eq {s : State F N} (h : Refines env s) :
    s.shared.output.queue.dropped = s.shared.output.evicted.length := by
  have hcount := s.shared.output.counted
  rw [h.refusedFull, List.length_nil, Nat.add_zero] at hcount
  exact hcount

theorem Refines.length_eq {s : State F N} (h : Refines env s)
    (hnil : s.shared.output.queue.queue = []) :
    s.shared.output.popped.length + s.shared.output.queue.dropped =
      s.shared.output.accepted.length := by
  have hperm := s.shared.output.accepted_perm.length_eq
  rw [hnil, List.append_nil, List.length_append] at hperm
  rw [h.dropped_eq]
  exact hperm

theorem Refines.buffer_nil {s : State F N} (h : Refines env s)
    (hl : s.logger = .notStarted ∨ s.logger = .finished false) :
    s.shared.output.queue.queue = [] := by
  rcases hl with hl | hl
  · have hcons := s.shared.output.conserved
    rw [h.unstarted hl, eq_comm, List.append_eq_nil_iff] at hcons
    exact hcons.2
  · exact (h.drained (by rw [hl]; rfl)).2

/-- A logger that has finished has put the line of every record it popped on every sink. -/
theorem Refines.rendered {s : State F N} (h : Refines env s) (hl : s.logger = .finished false)
    {k : ℕ} (hk : k < env.sinkCount) :
    s.shared.sinks k = (linesOf env s.shared.output.popped).map SinkEvent.write ++ [.flush] := by
  obtain ⟨done, hlines, hsinks⟩ := h.sinks
  rw [hl] at hlines hsinks
  rw [hsinks k hk, hlines]
  simp [LoggerPc.sinkTrace, LoggerPc.line, LoggerPc.written, LoggerPc.flushed, hk]

/-- A logger that was never started has left nothing behind. -/
theorem Refines.popped_nil {s : State F N} (h : Refines env s) (hl : s.logger = .notStarted) :
    s.shared.output.popped = [] := by
  have := s.shared.output.popped_sublist
  rw [h.unstarted hl] at this
  exact List.sublist_nil.mp this

/-- Without a thread exception, and with at least one worker, the run has computed the map once
`shutdown()` has returned: the records of the pool are those of the accepted signals, each once
and in some order, and none was refused; every sink holds the lines of the records the logger
popped, in queue order, and was flushed after them; what is not on the sinks was evicted and
counted. When even the logger could not be started there is nothing to log. -/
theorem pipeline_refines_map (hN : 0 < N) {s : State F N} (h : Reachable env s)
    (hm : s.main = .returned) (hc : s.Calm) :
    (dspRecords s.shared.output.accepted).Perm (s.shared.input.accepted.map (recordOf env)) ∧
    (∀ r, r ∈ s.shared.output.refusedClosed ∨ r ∈ s.shared.output.refusedFull →
      r.source ≠ .dsp) ∧
    (s.logger ≠ .notStarted → ∀ k < env.sinkCount, s.shared.sinks k =
      (linesOf env s.shared.output.popped).map SinkEvent.write ++ [.flush]) ∧
    (s.logger = .notStarted → s.shared.output.accepted = [] ∧
      ∀ k < env.sinkCount, s.shared.sinks k = []) ∧
    s.shared.output.popped.length + s.shared.output.queue.dropped =
      s.shared.output.accepted.length ∧
    (s.shared.output.accepted.length < 2 ^ 64 →
      s.shared.output.popped.length + s.shared.output.queue.droppedCount =
        s.shared.output.accepted.length) := by
  have hr := h.refines hc
  have hcons := h.conserved
  have ht := h.teardown
  have hidle := fun i => WorkerPc.idle_of_joined (ht.workers_joined hm i) (hc.workers i)
  have hlog := LoggerPc.ended_of_joined (ht.logger (by rw [hm]; decide)) hc.logger
  have hlen := hr.length_eq (hr.buffer_nil hlog)
  refine ⟨?_, ?_, fun hl k hk => hr.rendered (hlog.resolve_left hl) hk, ?_, hlen,
    ?_⟩
  · have hproc : s.shared.processed.Perm s.shared.input.accepted := by
      have hnil := hcons.drained h.started hN (ht.workers_joined hm) fun i => (hidle i).2.2
      rw [← Multiset.coe_eq_coe, hcons.accepted h.fixed, hnil]
      simp [(hidle _).1]
    have hrec := hr.records
    simp only [(hidle _).2.1, sum_const_zero, add_zero, Multiset.coe_eq_coe] at hrec
    exact hrec.symm.trans (hproc.map _)
  · rintro r (hr' | hr')
    · rw [hr.refusedClosed r hr']
      nofun
    · rw [hr.refusedFull] at hr'
      cases hr'
  · intro hl
    obtain ⟨done, hlines, hsinks⟩ := hr.sinks
    rw [hl] at hlines hsinks
    have hdone : done = [] := by
      simpa [hr.popped_nil hl, linesOf, LoggerPc.line] using hlines.symm
    refine ⟨hr.unstarted hl, ?_⟩
    intro k hk
    rw [hsinks k hk, hdone]
    simp [LoggerPc.sinkTrace, LoggerPc.written, LoggerPc.flushed]
  · intro hlt
    have hdrop : s.shared.output.queue.dropped < 2 ^ 64 := by omega
    rw [ThreadSafeQueue.droppedCount, Nat.mod_eq_of_lt hdrop]
    exact hlen

/-- One worker, one signal: one line, then a flush. -/
theorem pipeline_refines_map_one_signal :
    ∃ s : State ℕ 1, Reachable silentDefaults s ∧ s.main = .returned ∧
      s.shared.input.accepted.length = 1 ∧ s.logger ≠ .notStarted ∧
      s.shared.sinks 0 =
        (linesOf silentDefaults s.shared.output.popped).map SinkEvent.write ++ [.flush] ∧
      s.shared.output.popped.length = 1 := by
  obtain ⟨s, hrun, hm, hacc, hout, hdrop, hlog, hcp, hcw, hcl, hcd⟩ := Lts.exists_run
    (step silentDefaults) (initial silentDefaults 1 0)
    (plainly 5 0 .main ++ plainly 13 0 .producer ++ plainly 16 0 (.worker 0) ++
      plainly 6 0 .main ++ plainly 1 0 .producer ++ plainly 2 0 (.worker 0) ++
      plainly 4 0 .main ++ plainly 15 0 .logger ++ plainly 2 0 .watchdog ++ plainly 2 0 .main)
    (fun s => s.main = .returned ∧ s.shared.input.accepted.length = 1 ∧
      s.shared.output.accepted.length = 1 ∧ s.shared.output.queue.dropped = 0 ∧
      s.logger.drained = true ∧ s.producer.threw = false ∧
      (∀ i, (s.workers i).threw = false) ∧ s.logger.threw = false ∧ s.watchdog.threw = false)
    (by decide +kernel)
  have hreach := reachable_of_run hrun
  have hstarted : s.logger ≠ .notStarted := by
    intro hl
    rw [hl] at hlog
    cases hlog
  obtain ⟨-, -, hsinks, -, hlen, -⟩ :=
    pipeline_refines_map Nat.one_pos hreach hm ⟨hcp, hcw, hcl, hcd⟩
  exact ⟨s, hreach, hm, hacc, hstarted, hsinks hstarted 0 Nat.one_pos, by omega⟩

end RadarRT
