import Mathlib.Algebra.Order.Group.Multiset
import RadarRT.Dsp.Robustness
import RadarRT.System.LogFormat

/-!
# What the log says about the signals

From one end of the application to the other: the samples the producer draws, the two queues, the
pool, the logger and the text on a sink. Whatever is lost on the way, nothing is made up and nothing
is told twice: the results in the log belong to different signals that the input queue has accepted.
And for the pipeline in exact arithmetic, the result of a signal is the verdict on its spectrum.
-/

namespace RadarRT

open Finset

variable {F : Type} {N : ℕ} {env : Env F} {beat : ℕ} {o : Outside F} {sh sh' : Shared F}

/-! ## Every result has a signal of its own -/

theorem Ledger.dspRecords_push {l q : Ledger (LogRecord F)} {v : LogRecord F} {f : Bool}
    {r : Except QueueError Bool} (h : l.push v f = some (r, q)) (hv : v.source = .dsp) :
    (dspRecords q.accepted : Multiset (LogRecord F)) ≤ dspRecords l.accepted + {v} := by
  obtain ⟨-, rfl⟩ := push_result h
  rcases l.enqueue_accepted v f with hacc | hacc
  · rw [hacc, dspRecords_append, ← Multiset.coe_add]
    simp [dspRecords, hv]
  · rw [hacc]
    exact Multiset.le_add_right _ _

/-- What a worker pushes or still owes it has processed before. -/
theorem WorkerMove.owes {pc pc' : WorkerPc F} (h : WorkerMove env beat o sh pc sh' pc') :
    ((sh.processed.map (recordOf env) : List (LogRecord F)) : Multiset (LogRecord F)) +
        (dspRecords sh'.output.accepted + pc'.owed) ≤
      (sh'.processed.map (recordOf env) : List (LogRecord F)) +
        (dspRecords sh.output.accepted + pc.owed) := by
  cases h with
  | @pushed r _ _ _ hp | @pushThrew r _ _ _ _ hp =>
    refine add_le_add_right ?_ _
    exact (add_zero _).trans_le (Ledger.dspRecords_push hp rfl)
  | pushFailed => exact add_le_add_right (add_le_add_right (Multiset.zero_le _) _) _
  | @recordSignalProcessed x =>
    simp only [WorkerPc.owed, recordOf, List.map_append, List.map_singleton, ← Multiset.coe_add,
      Multiset.coe_singleton]
    refine le_of_eq ?_
    abel
  | _ => exact le_rfl

/-- The records of the pool are records of processed signals, each of them at most once. -/
def Answered (env : Env F) (s : State F N) : Prop :=
  (dspRecords s.shared.output.accepted : Multiset (LogRecord F)) + ∑ i, (s.workers i).owed ≤
    (s.shared.processed.map (recordOf env) : List (LogRecord F))

theorem answered_move {s s' : State F N} {a : Action F N} (h : Move env s a s') (hst : Started s)
    (hf : Fixed s) (hs : Answered env s) : Answered env s' := by
  unfold Answered at hs ⊢
  cases h with
  | main hm =>
    have hstarting := hst.starting
    cases hm with
    | @startWorker k hk hm =>
      -- a worker that starts owes nothing, as before
      simp only [State.Starting, hm] at hstarting
      have hns : s.workers ⟨k, hk⟩ = .notStarted := (hstarting.2.2 ⟨k, hk⟩).mpr le_rfl
      rw [Tally.sum_update_eq (by rw [hns]; rfl)]
      exact hs
    | _ => exact hs
  | producer hm =>
    obtain ⟨ho, hp, -⟩ := hm.output_eq
    simpa only [ho, hp] using hs
  | worker hm => exact Tally.bound_update hs hm.owes
  | logger hm => simpa only [hm.output.accepted, hm.output.processed] using hs
  | watchdog hm =>
    have hout := hm.output hf.output_ne
    simpa only [hout.records, hout.processed] using hs

theorem Reachable.answered {s : State F N} (h : Reachable env s) : Answered env s := by
  have hall : Started s ∧ Fixed s ∧ Answered env s :=
    h.invariant (I := fun s => Started s ∧ Fixed s ∧ Answered env s)
      (fun t₀ => ⟨started_initial env t₀, ⟨rfl, rfl, rfl⟩, by
        simp [Answered, initial, Ledger.opened, dspRecords, WorkerPc.owed]⟩)
      fun s a s' hm hs => ⟨started_move hm hs.1, fixed_move hm hs.2.1,
        answered_move hm hs.1 hs.2.1 hs.2.2⟩
  exact hall.2.2

/-! ## The results in the log -/

def LogEntry.isResult : LogEntry → Bool
  | .result .. => true
  | .stall .. => false

/-- The entry of a record, if it is a result. -/
def entryOf (env : Env F) (r : LogRecord F) : Option LogEntry :=
  r.result.map fun result =>
    .result (r.timestamp.tdiv 1000) result.targetDetected (env.showFloat result.peakMagnitude)

/-- What the log says about a signal. -/
def resultEntry (env : Env F) (x : RadarSignal F) : LogEntry :=
  .result ((env.process x).timestamp.tdiv 1000) (env.process x).targetDetected
    (env.showFloat (env.process x).peakMagnitude)

theorem filterMap_recordOf (env : Env F) (xs : List (RadarSignal F)) :
    (xs.map (recordOf env)).filterMap (entryOf env) = xs.map (resultEntry env) := by
  rw [List.filterMap_map, ← List.filterMap_eq_map]
  rfl

theorem filter_isResult {entries : List LogEntry} {records : List (LogRecord F)}
    (h : List.Forall₂ (Describes env N) entries records) :
    entries.filter LogEntry.isResult = records.filterMap (entryOf env) := by
  induction h with
  | nil => rfl
  | cons hd _ ih =>
    cases hd with
    | result r => exact congrArg _ ih
    | stall now _ _ => exact ih

/-- Only the pool writes results. -/
theorem filterMap_dspRecords {records : List (LogRecord F)}
    (h : ∀ r ∈ records, ∃ e, Describes env N e r) :
    records.filterMap (entryOf env) = (dspRecords records).filterMap (entryOf env) := by
  unfold dspRecords
  rw [List.filterMap_filter]
  refine List.filterMap_congr ?_
  intro r hr
  obtain ⟨e, he⟩ := h r hr
  cases he with
  | result p => rfl
  | stall now _ _ => rfl

/-- The results on a sink are those of different accepted signals, in every state. -/
theorem Reachable.results_le {s : State F N} (h : Reachable env s) {entries : List LogEntry}
    {n : ℕ} (hdesc : List.Forall₂ (Describes env N) entries (s.shared.output.popped.take n)) :
    (entries.filter LogEntry.isResult : Multiset LogEntry) ≤
      (s.shared.input.accepted.map (resultEntry env) : List LogEntry) := by
  -- the logger has written some of the records that were accepted,
  have hpopped : (s.shared.output.popped.take n).Sublist s.shared.output.accepted :=
    (List.take_sublist _ _).trans s.shared.output.popped_sublist
  -- those of the pool are records of processed signals,
  have hpool : (dspRecords s.shared.output.accepted : Multiset (LogRecord F)) ≤
      (s.shared.processed.map (recordOf env) : List (LogRecord F)) :=
    (Multiset.le_add_right _ _).trans h.answered
  -- and these the input queue has accepted
  have hprocessed : (s.shared.processed : Multiset (RadarSignal F)) ≤ s.shared.input.accepted :=
    Multiset.coe_le.mpr (h.conserved.processed_subperm h.fixed)
  calc (entries.filter LogEntry.isResult : Multiset LogEntry)
      = ((s.shared.output.popped.take n).filterMap (entryOf env) : List LogEntry) := by
        rw [filter_isResult hdesc]
    _ ≤ (s.shared.output.accepted.filterMap (entryOf env) : List LogEntry) :=
        Multiset.coe_le.mpr (hpopped.filterMap _).subperm
    _ = Multiset.filterMap (entryOf env) (dspRecords s.shared.output.accepted) := by
        rw [filterMap_dspRecords h.describable.accepted, Multiset.filterMap_coe]
    _ ≤ Multiset.filterMap (entryOf env) (s.shared.processed.map (recordOf env)) :=
        Multiset.filterMap_le_filterMap _ hpool
    _ = Multiset.map (resultEntry env) s.shared.processed := by
        rw [Multiset.filterMap_coe, filterMap_recordOf, Multiset.map_coe]
    _ ≤ Multiset.map (resultEntry env) s.shared.input.accepted := Multiset.map_le_map hprocessed
    _ = (s.shared.input.accepted.map (resultEntry env) : List LogEntry) := Multiset.map_coe ..

/-! ## Where the samples come from -/

/-- The input queue accepts only what the producer has drawn. -/
theorem ProducerMove.drawn {P : (Fin kRadarSampleCount → F) → Prop} {pc pc' : ProducerPc}
    (h : ProducerMove env beat o sh pc sh' pc') (ho : P o.samples)
    (hs : ∀ x ∈ sh.input.accepted, P x.samples) : ∀ x ∈ sh'.input.accepted, P x.samples := by
  cases h with
  | pushed hp | refused hp | pushThrew _ hp =>
    intro x hx
    obtain hx | rfl := Ledger.mem_accepted_of_push hp hx
    · exact hs x hx
    · exact ho
  | _ => exact hs

theorem accepted_drawn_move {P : (Fin kRadarSampleCount → F) → Prop} {s s' : State F N}
    {a : Action F N} (h : Move env s a s') (ha : P a.2.samples)
    (hs : ∀ x ∈ s.shared.input.accepted, P x.samples) :
    ∀ x ∈ s'.shared.input.accepted, P x.samples := by
  cases h with
  | main hm => cases hm <;> exact hs
  | producer hm => exact hm.drawn ha hs
  | worker hm =>
    rw [hm.books.accepted]
    exact hs
  | logger hm =>
    rw [hm.sameSignals.input]
    exact hs
  | watchdog hm =>
    rw [hm.sameSignals.input]
    exact hs

theorem accepted_drawn {P : (Fin kRadarSampleCount → F) → Prop} {t₀ : Time}
    {as : List (Action F N)} {s : State F N}
    (hrun : Lts.run (step env) (initial env N t₀) as = some s) (h : ∀ a ∈ as, P a.2.samples) :
    ∀ x ∈ s.shared.input.accepted, P x.samples :=
  Lts.run_invariant_along (I := fun s => ∀ x ∈ s.shared.input.accepted, P x.samples)
    (fun _ _ _ hs ha hI => accepted_drawn_move (step_move hs) ha hI) hrun
    (Lts.along_of_forall h _) (by simp [initial, Ledger.opened])

/-! ## The log and the spectra -/

/-- The verdict of the pipeline on a signal, in exact arithmetic. -/
theorem resultEntry_eq {env : Env ℝ}
    (hpipeline : ∀ x, SignalProcessor.process ideal x = some (env.process x)) (x : RadarSignal ℝ) :
    resultEntry env x = .result (x.timestamp.tdiv 1000)
      (decide (4 * ((∑ i, filteredSpectrum x.samples i) / (kRadarSampleCount / 2 : ℕ)) <
        (exactDetection x.samples).peakMagnitude))
      (env.showFloat (exactDetection x.samples).peakMagnitude) := by
  have hprocess := (process_ideal x).symm.trans (hpipeline x)
  rw [resultEntry, ← Option.some.inj hprocess, exactDetection_eq,
    TargetDetection.apply_targetDetected]

/-- From the samples to the log, in every state of every run whose samples come from the interval
the producer asks for: the log on every sink can be read back, and its results are those of
different signals that the input queue has accepted. The result of a signal has its timestamp, the
largest magnitude in the lower half of the spectrum of its smoothed samples, between zero and one,
and the decision whether this exceeds four times the mean. -/
theorem log_reports_spectra {env : Env ℝ} (hplain : env.PrintsPlain)
    (hpipeline : ∀ x, SignalProcessor.process ideal x = some (env.process x)) {t₀ : Time}
    {as : List (Action ℝ N)} {s : State ℝ N}
    (hrun : Lts.run (step env) (initial env N t₀) as = some s)
    (hdrawn : ∀ a ∈ as, ∀ j, |a.2.samples j| ≤ 1) {k : ℕ} (hk : k < env.sinkCount) :
    ∃ entries, readLog (sinkText (s.shared.sinks k)) = some entries ∧
      (entries.filter LogEntry.isResult : Multiset LogEntry) ≤
        (s.shared.input.accepted.map (resultEntry env) : List LogEntry) ∧
      ∀ x ∈ s.shared.input.accepted, ∃ peak,
        IsGreatest (Set.range (filteredSpectrum x.samples)) peak ∧ 0 ≤ peak ∧ peak ≤ 1 ∧
          resultEntry env x = .result (x.timestamp.tdiv 1000)
            (decide (4 * ((∑ i, filteredSpectrum x.samples i) / (kRadarSampleCount / 2 : ℕ)) <
              peak)) (env.showFloat peak) := by
  have hreach := reachable_of_run hrun
  obtain ⟨n, -, hlines, -⟩ := hreach.given_all hk
  have hmem : ∀ r ∈ s.shared.output.popped.take n, ∃ e, Describes env N e r := by
    intro r hr
    exact hreach.describable.accepted r
      (s.shared.output.popped_sublist.subset (List.mem_of_mem_take hr))
  obtain ⟨entries, hread, hdesc⟩ := readLog_linesOf hplain hmem
  refine ⟨entries, ?_, hreach.results_le hdesc, ?_⟩
  · rw [sinkText, hlines]
    exact hread
  · intro x hx
    have hsamples := accepted_drawn (P := fun samples => ∀ j, |samples j| ≤ 1) hrun hdrawn x hx
    obtain ⟨hpos, hle⟩ := exactDetection_peak_le (by decide) hsamples
    exact ⟨_, isGreatest_exactDetection (by decide) x.samples, hpos, hle,
      resultEntry_eq hpipeline x⟩

/-- The default configuration and the pipeline in exact arithmetic, all magnitudes printed alike. -/
noncomputable def exactDefaults : Env ℝ where
  config := silentDefaults.config
  process := fun x => ⟨x.timestamp, (exactDetection x.samples).targetDetected,
    (exactDetection x.samples).peakMagnitude⟩
  showFloat := fun _ => "1"
  sinkCount := 1
  inputCapacity_pos := silentDefaults.inputCapacity_pos
  outputCapacity_pos := silentDefaults.outputCapacity_pos

/-- So many steps of each thread in turn, the generator always at the upper end of its interval. -/
def loudly (turns : List (ℕ × Actor N)) : List (Action ℝ N) :=
  turns.flatMap fun turn => List.replicate turn.1 (turn.2, { samples := fun _ => 1 })

theorem abs_samples_loudly (turns : List (ℕ × Actor N)) :
    ∀ a ∈ loudly turns, ∀ j, |a.2.samples j| ≤ 1 := by
  intro a ha j
  obtain ⟨turn, -, hturn⟩ := List.mem_flatMap.mp ha
  rw [List.eq_of_mem_replicate hturn, abs_one]

/-- One worker, one constant signal. -/
theorem log_reports_spectra_constant :
    ∃ s : State ℝ 1, Reachable exactDefaults s ∧ s.main = .returned ∧
      s.shared.input.accepted.length = 1 ∧
      ∃ entries, readLog (sinkText (s.shared.sinks 0)) = some entries ∧
        ∀ x ∈ s.shared.input.accepted, ∃ peak,
          IsGreatest (Set.range (filteredSpectrum x.samples)) peak ∧ 0 ≤ peak ∧ peak ≤ 1 := by
  have hplain : exactDefaults.PrintsPlain := by
    intro x
    exact (by decide : '\n' ∉ "1".toList)
  obtain ⟨s, hrun, hm, hacc⟩ := Lts.exists_run (step exactDefaults) (initial exactDefaults 1 0)
    (loudly [(5, .main), (13, .producer), (16, .worker 0), (6, .main), (1, .producer),
      (2, .worker 0), (4, .main), (15, .logger), (2, .watchdog), (2, .main)])
    (fun s => s.main = .returned ∧ s.shared.input.accepted.length = 1) (by decide +kernel)
  obtain ⟨entries, hread, -, hpeak⟩ :=
    log_reports_spectra hplain process_ideal hrun (abs_samples_loudly _) (k := 0) Nat.one_pos
  refine ⟨s, reachable_of_run hrun, hm, hacc, entries, hread, ?_⟩
  intro x hx
  obtain ⟨peak, hgreatest, hpos, hle, -⟩ := hpeak x hx
  exact ⟨peak, hgreatest, hpos, hle⟩

end RadarRT
