import RadarRT.System.Refinement

/-!
# The watchdog's diagnostics in the drain

`reportStall` counts the stall and then pushes a record. The watchdog is told to stop before the
output queue is closed, but it is joined only after: a scan that is under way goes on. So a stall
can be counted whose record meets a closed queue. This happens exactly when the queue is closed
while the watchdog is inside `reportStall`, or the watchdog finds a stall after that.
-/

namespace RadarRT

variable {F : Type} {N : ℕ} {env : Env F} {beat : ℕ} {o : Outside F} {sh sh' : Shared F}

/-- The records of a list that came from the watchdog. -/
def watchdogRecords (records : List (LogRecord F)) : List (LogRecord F) :=
  records.filter fun r => r.source = .watchdog

/-- The watchdog is inside `reportStall`. -/
def WatchdogPc.reporting : WatchdogPc → Bool
  | .recordWatchdogStall _ _ | .push _ _ => true
  | _ => false

/-- A stall the watchdog has counted and not yet pushed a record for. -/
def WatchdogPc.unpushed : WatchdogPc → ℕ
  | .push _ _ => 1
  | _ => 0

/-- What the drain promises of the watchdog's records: one was accepted for every counted stall,
each of them was popped and put on every sink or evicted and counted, and none was pushed to the
closed queue. -/
structure DiagnosticsKept (env : Env F) (s : State F N) : Prop where
  accepted : (watchdogRecords s.shared.output.accepted).length = s.shared.metrics.watchdogStalls
  settled : (watchdogRecords s.shared.output.popped).length +
    (watchdogRecords s.shared.output.evicted).length = s.shared.metrics.watchdogStalls
  rendered : ∀ r ∈ watchdogRecords s.shared.output.popped, ∀ k < env.sinkCount,
    SinkEvent.write (formatLine env.showFloat r) ∈ s.shared.sinks k
  counted : s.shared.output.queue.droppedCount = s.shared.output.evicted.length % 2 ^ 64
  unrefused : ∀ r ∈ s.shared.output.refusedClosed, r.source ≠ .watchdog

/-- The output queue is not closed while the watchdog is inside `reportStall`, and the watchdog
finds no heartbeat stalled once the queue is closed. -/
def quietClose (env : Env F) (s : State F N) (a : Action F N) : Bool :=
  match a.1 with
  | .main => !(s.main == .closeOutput && s.watchdog.reporting)
  | .watchdog =>
    match s.watchdog with
    | .loadTimestamp sc => !s.shared.output.queue.closed ||
        decide (sc.now - (s.shared.registry.heartbeats sc.index).timestamp ≤ env.timeout)
    | _ => true
  | _ => true

/-! ## Counting -/

theorem watchdogRecords_append (l l' : List (LogRecord F)) :
    watchdogRecords (l ++ l') = watchdogRecords l ++ watchdogRecords l' :=
  List.filter_append ..

theorem watchdogRecords_dsp (r : ProcessedSignal F) :
    watchdogRecords [toLogRecord r] = [] := by
  simp [watchdogRecords, toLogRecord]

theorem watchdogRecords_stall (name : String) (age : Duration) (now : Time) :
    watchdogRecords [(stallRecord name age now : LogRecord F)] = [stallRecord name age now] := by
  simp [watchdogRecords, stallRecord]

theorem watchdogRecords_eq_nil {l : List (LogRecord F)} (h : ∀ r ∈ l, r.source ≠ .watchdog) :
    watchdogRecords l = [] := by
  simpa [watchdogRecords, List.filter_eq_nil_iff] using h

/-- Every counted stall led to a push, which was accepted or met the closed queue. -/
def Counted (s : State F N) : Prop :=
  (watchdogRecords s.shared.output.accepted).length +
      (watchdogRecords s.shared.output.refusedClosed).length + s.watchdog.unpushed =
    s.shared.metrics.watchdogStalls

/-- What a step does to the two sides of that equation. -/
structure Shared.SameStalls (sh sh' : Shared F) : Prop where
  accepted : watchdogRecords sh'.output.accepted = watchdogRecords sh.output.accepted
  refusedClosed :
    watchdogRecords sh'.output.refusedClosed = watchdogRecords sh.output.refusedClosed
  watchdogStalls : sh'.metrics.watchdogStalls = sh.metrics.watchdogStalls

theorem ProducerMove.sameStalls {pc pc' : ProducerPc}
    (h : ProducerMove env beat o sh pc sh' pc') : sh.SameStalls sh' := by
  cases h <;> exact ⟨rfl, rfl, rfl⟩

theorem WorkerMove.sameStalls {pc pc' : WorkerPc F} (h : WorkerMove env beat o sh pc sh' pc')
    (hpol : sh.output.queue.policy ≠ .dropNewest) : sh.SameStalls sh' := by
  cases h with
  | @pushed r b q f hp =>
    cases b with
    | true =>
      have hq := Ledger.push_true hpol hp
      refine ⟨?_, by simp only [hq.refusedClosed], rfl⟩
      simp only [hq.accepted, watchdogRecords_append, watchdogRecords_dsp, List.append_nil]
    | false =>
      have hq := Ledger.push_false hpol hp
      refine ⟨by simp only [hq.accepted], ?_, rfl⟩
      simp only [hq.refusedClosed, watchdogRecords_append, watchdogRecords_dsp, List.append_nil]
  | pushThrew _ hp =>
    have hq := Ledger.push_error hpol hp
    exact ⟨by simp only [hq.accepted], by simp only [hq.refusedClosed], rfl⟩
  | _ => exact ⟨rfl, rfl, rfl⟩

theorem LoggerMove.sameStalls {pc pc' : LoggerPc F} (h : LoggerMove env beat o sh pc sh' pc') :
    sh.SameStalls sh' := by
  have hout := h.output
  refine ⟨by rw [hout.accepted], by rw [hout.refusedClosed], ?_⟩
  cases h <;> rfl

theorem MainMove.sameStalls {s s' : State F N} (h : MainMove o s s') :
    s.shared.SameStalls s'.shared := by
  cases h <;> exact ⟨rfl, rfl, rfl⟩

/-- A step of the watchdog that does not throw keeps the count of stalls and records balanced. -/
theorem WatchdogMove.balance {pc pc' : WatchdogPc} (h : WatchdogMove env o sh pc sh' pc')
    (hpol : sh.output.queue.policy ≠ .dropNewest) (hcalm : pc'.threw = false) :
    (watchdogRecords sh'.output.accepted).length +
        (watchdogRecords sh'.output.refusedClosed).length + pc'.unpushed +
        sh.metrics.watchdogStalls =
      (watchdogRecords sh.output.accepted).length +
        (watchdogRecords sh.output.refusedClosed).length + pc.unpushed +
        sh'.metrics.watchdogStalls := by
  cases h with
  | @pushed sc age b q f hp =>
    cases b with
    | true =>
      have hq := Ledger.push_true hpol hp
      simp only [hq.accepted, hq.refusedClosed, watchdogRecords_append, watchdogRecords_stall,
        List.length_append, List.length_singleton, WatchdogPc.unpushed]
      omega
    | false =>
      have hq := Ledger.push_false hpol hp
      simp only [hq.accepted, hq.refusedClosed, watchdogRecords_append, watchdogRecords_stall,
        List.length_append, List.length_singleton, WatchdogPc.unpushed]
      omega
  | recordWatchdogStall =>
    simp only [WatchdogPc.unpushed, Metrics.recordWatchdogStall_watchdogStalls]
    omega
  | waitFailed | pushThrew | pushFailed | recordThreadException | requestShutdown => cases hcalm
  | _ => rfl

theorem Counted.same {s s' : State F N} (h : Counted s) (hsh : s.shared.SameStalls s'.shared)
    (hd : s'.watchdog.unpushed = s.watchdog.unpushed) : Counted s' := by
  unfold Counted
  rw [hsh.accepted, hsh.refusedClosed, hsh.watchdogStalls, hd]
  exact h

theorem counted_move {s s' : State F N} {a : Action F N} (h : Move env s a s') (hph : Phases s)
    (hcalm : s'.Calm) (hs : Counted s) : Counted s' := by
  have hst := hph.started.starting
  cases h with
  | main hm =>
    refine hs.same hm.sameStalls ?_
    cases hm with
    | startWatchdog hm =>
      simp only [State.Starting, hm] at hst
      rw [hst.2]
      rfl
    | _ => rfl
  | producer hm => exact hs.same hm.sameStalls rfl
  | worker hm => exact hs.same (hm.sameStalls hph.fixed.output_ne) rfl
  | logger hm => exact hs.same hm.sameStalls rfl
  | watchdog hm =>
    have hbal := hm.balance hph.fixed.output_ne hcalm.watchdog
    unfold Counted at hs ⊢
    dsimp only
    omega

/-! ## Quiet closes keep every record -/

/-- The watchdog is not about to push to the closed queue, and never has. -/
structure Unrefused (s : State F N) : Prop where
  reporting : s.shared.output.queue.closed = true → s.watchdog.reporting = false
  refusedClosed : watchdogRecords s.shared.output.refusedClosed = []

theorem Unrefused.same {s s' : State F N} (h : Unrefused s)
    (hsh : s.shared.SameStalls s'.shared)
    (hc : s'.shared.output.queue.closed = s.shared.output.queue.closed)
    (hd : s'.watchdog.reporting = s.watchdog.reporting) : Unrefused s' :=
  ⟨by rw [hc, hd]; exact h.reporting, hsh.refusedClosed.trans h.refusedClosed⟩

theorem WatchdogMove.unrefused {pc pc' : WatchdogPc} (h : WatchdogMove env o sh pc sh' pc')
    (hpol : sh.output.queue.policy ≠ .dropNewest)
    (hrep : sh.output.queue.closed = true → pc.reporting = false)
    (hquiet : ∀ sc, pc = .loadTimestamp sc → sh.output.queue.closed = true →
      sc.now - (sh.registry.heartbeats sc.index).timestamp ≤ env.timeout) :
    (sh'.output.queue.closed = true → pc'.reporting = false) ∧
      sh'.output.refusedClosed = sh.output.refusedClosed := by
  cases h with
  | @pushed sc age b q f hp =>
    cases b with
    | true => exact ⟨fun _ => rfl, (Ledger.push_true hpol hp).refusedClosed⟩
    -- `false` would mean that the queue was closed during `reportStall`
    | false => cases hrep (Ledger.push_false hpol hp).isClosed
  | pushThrew _ hp => exact ⟨fun _ => rfl, (Ledger.push_error hpol hp).refusedClosed⟩
  | stalled hlt =>
    refine ⟨fun hc => ?_, rfl⟩
    exact absurd (hquiet _ rfl hc) (not_le_of_gt hlt)
  | recordWatchdogStall =>
    refine ⟨fun hc => ?_, rfl⟩
    cases hrep hc
  | _ => exact ⟨fun _ => rfl, rfl⟩

theorem unrefused_move {s s' : State F N} {a : Action F N} (h : Move env s a s')
    (hph : Phases s) (hP : quietClose env s a = true) (hs : Unrefused s) : Unrefused s' := by
  have hst := hph.started.starting
  cases h with
  | main hm =>
    have hsame := hm.sameStalls
    cases hm with
    | startWatchdog hm => exact ⟨fun _ => rfl, hs.refusedClosed⟩
    | closeOutput hm =>
      refine ⟨fun _ => ?_, hs.refusedClosed⟩
      simpa [quietClose, hm] using hP
    | _ => exact hs.same hsame rfl rfl
  | producer hm => exact hs.same hm.sameStalls hm.extends.output.closed rfl
  | worker hm =>
    exact hs.same (hm.sameStalls hph.fixed.output_ne) hm.extends.output.closed rfl
  | logger hm => exact hs.same hm.sameStalls hm.extends.output.closed rfl
  | watchdog hm =>
    obtain ⟨hrep, hrefused⟩ := hm.unrefused hph.fixed.output_ne hs.reporting (by
      intro sc hpc hc
      simpa [quietClose, hpc, hc] using hP)
    exact ⟨hrep, by rw [hrefused]; exact hs.refusedClosed⟩

/-! ## A close that is not quiet loses one -/

/-- The queue is closed, and the watchdog pushes to it or already has. -/
structure Lost (s : State F N) : Prop where
  closed : s.shared.output.queue.closed = true
  push : s.watchdog.reporting = true ∨ watchdogRecords s.shared.output.refusedClosed ≠ []

theorem Lost.same {s s' : State F N} (h : Lost s) (hsh : s.shared.SameStalls s'.shared)
    (hc : s'.shared.output.queue.closed = s.shared.output.queue.closed)
    (hd : s'.watchdog = s.watchdog) : Lost s' :=
  ⟨hc.trans h.closed, by rw [hd, hsh.refusedClosed]; exact h.push⟩

theorem WatchdogMove.lost {pc pc' : WatchdogPc} (h : WatchdogMove env o sh pc sh' pc')
    (hpol : sh.output.queue.policy ≠ .dropNewest) (hcalm : pc'.threw = false)
    (hc : sh.output.queue.closed = true)
    (hlost : pc.reporting = true ∨ watchdogRecords sh.output.refusedClosed ≠ []) :
    pc'.reporting = true ∨ watchdogRecords sh'.output.refusedClosed ≠ [] := by
  cases h with
  | @pushed sc age b q f hp =>
    cases (Ledger.push_of_closed hc hp).1
    have hq := Ledger.push_false hpol hp
    right
    simp [hq.refusedClosed, watchdogRecords_append, watchdogRecords_stall]
  | recordWatchdogStall => exact .inl rfl
  | waitFailed | pushThrew | pushFailed | recordThreadException | requestShutdown => cases hcalm
  | _ => exact .inr (hlost.resolve_left (by nofun))

theorem lost_move {s s' : State F N} {a : Action F N} (h : Move env s a s') (hph : Phases s)
    (hcalm : s'.Calm) (hs : Lost s) : Lost s' := by
  cases h with
  | main hm =>
    have hsame := hm.sameStalls
    cases hm with
    | startWatchdog hm =>
      -- nothing is closed during start-up
      have := hph.teardown.outputClosed.mp hs.closed
      rw [hm] at this
      simp [MainPc.stage] at this
    | closeOutput hm => exact ⟨rfl, hs.push⟩
    | _ => exact hs.same hsame rfl rfl
  | producer hm => exact hs.same hm.sameStalls hm.extends.output.closed rfl
  | worker hm =>
    exact hs.same (hm.sameStalls hph.fixed.output_ne) hm.extends.output.closed rfl
  | logger hm => exact hs.same hm.sameStalls hm.extends.output.closed rfl
  | watchdog hm =>
    exact ⟨hm.extends.output.closed.trans hs.closed,
      hm.lost hph.fixed.output_ne hcalm.watchdog hs.closed hs.push⟩

theorem lost_of_not_quietClose {s s' : State F N} {a : Action F N} (h : Move env s a s')
    (hP : ¬ quietClose env s a = true) : Lost s' := by
  cases h with
  | main hm =>
    obtain ⟨hmain, hrep⟩ : s.main = .closeOutput ∧ s.watchdog.reporting = true := by
      simpa [quietClose] using hP
    cases hm with
    | closeOutput => exact ⟨rfl, .inl hrep⟩
    | rollback hstart =>
      rw [hmain] at hstart
      cases hstart
    | _ => simp_all
  | watchdog hm =>
    cases hpc : s.watchdog with
    | loadTimestamp sc =>
      simp only [quietClose, hpc, Bool.or_eq_true, Bool.not_eq_true', decide_eq_true_eq,
        not_or, Bool.not_eq_false] at hP
      rw [hpc] at hm
      cases hm with
      | fresh hle => exact absurd hle hP.2
      | stalled => exact ⟨hP.1, .inl rfl⟩
    | _ => simp [quietClose, hpc] at hP
  | _ => exact absurd rfl hP

/-! ## The verdict -/

theorem WatchdogPc.quiet_of_joined {pc : WatchdogPc} (h : pc.joined = true) :
    pc.reporting = false ∧ pc.unpushed = 0 := by
  cases pc <;> first | exact ⟨rfl, rfl⟩ | cases h

/-- Once the logger has drained the queue, what was accepted from the watchdog is on the sinks or
was evicted. -/
theorem Refines.diagnosticsKept {s : State F N} (h : Refines env s)
    (hl : s.logger = .notStarted ∨ s.logger = .finished false)
    (hacc : (watchdogRecords s.shared.output.accepted).length = s.shared.metrics.watchdogStalls)
    (href : watchdogRecords s.shared.output.refusedClosed = []) : DiagnosticsKept env s where
  accepted := hacc
  settled := by
    have hperm := s.shared.output.accepted_perm
    rw [h.buffer_nil hl, List.append_nil] at hperm
    have hlen := (hperm.filter fun r => r.source = .watchdog).length_eq
    rw [List.filter_append, List.length_append] at hlen
    exact hlen.trans hacc
  rendered := by
    intro r hr k hk
    have hpop : r ∈ s.shared.output.popped := List.mem_of_mem_filter hr
    rcases hl with hl | hl
    · rw [h.popped_nil hl] at hpop
      cases hpop
    · rw [h.rendered hl hk]
      exact List.mem_append_left _ (List.mem_map_of_mem (List.mem_map_of_mem hpop))
  counted := by rw [ThreadSafeQueue.droppedCount, h.dropped_eq]
  unrefused := by
    intro r hr hsrc
    have hmem : r ∈ watchdogRecords s.shared.output.refusedClosed := by
      simp [watchdogRecords, hr, hsrc]
    rw [href] at hmem
    cases hmem

/-- A run without a thread exception, up to the return of `shutdown()`, keeps every diagnostic of
the watchdog if and only if each of its steps is a quiet one. -/
theorem diagnostics_kept_iff {t₀ : Time} {as : List (Action F N)} {s : State F N}
    (hrun : Lts.run (step env) (initial env N t₀) as = some s) (hm : s.main = .returned)
    (hc : s.Calm) :
    DiagnosticsKept env s ↔
      Lts.Along (step env) (fun s a => quietClose env s a = true) (initial env N t₀) as := by
  have hreach := reachable_of_run hrun
  obtain ⟨hrep, hpushed⟩ :=
    WatchdogPc.quiet_of_joined (hreach.teardown.watchdog (by rw [hm]; decide))
  constructor
  · intro hkept
    rcases Lts.along_or_violation (P := fun s a => quietClose env s a = true) hrun with
      halong | ⟨bs, a, cs, u, v, rfl, hu, hviol, hstep, hrest⟩
    · exact halong
    · -- from the first step that is not quiet on, a record is or will be refused
      have hlost : Lost s :=
        calm_run_invariant (P := fun _ _ => True) (fun _ _ _ hmv hph _ => lost_move hmv hph)
          (phases_move (step_move hstep) (phases_of_run hu))
          (lost_of_not_quietClose (step_move hstep) hviol) hrest
          (Lts.along_of_forall (fun _ _ => trivial) _) hc
      rcases hlost.push with h | h
      · rw [hrep] at h
        cases h
      · exact absurd (watchdogRecords_eq_nil hkept.unrefused) h
  · intro halong
    have hkept : Unrefused s :=
      calm_run_invariant (fun _ _ _ hmv hph hP _ => unrefused_move hmv hph hP)
        (phases_initial env t₀) ⟨fun _ => rfl, rfl⟩ hrun halong hc
    have hcount : Counted s :=
      hreach.calm_invariant (fun _ => rfl) (fun _ _ _ => counted_move) hc
    unfold Counted at hcount
    rw [hkept.refusedClosed, hpushed] at hcount
    exact (hreach.refines hc).diagnosticsKept
      (LoggerPc.ended_of_joined (hreach.teardown.logger (by rw [hm]; decide)) hc.logger) hcount
      hkept.refusedClosed

/-- The watchdog reports the producer, which is slow to push, before the shutdown begins. -/
theorem diagnostics_kept_iff_early_stall :
    ∃ s : State ℕ 1, Reachable silentDefaults s ∧ s.main = .returned ∧
      s.shared.metrics.watchdogStalls = 1 ∧ DiagnosticsKept silentDefaults s := by
  obtain ⟨s, hrun, hm, hstalls, hcp, hcw, hcl, hcd⟩ := Lts.exists_run
    (step silentDefaults) (initial silentDefaults 1 0)
    (plainly 5 0 .main ++ plainly 5 0 .producer ++ plainly 1 0 .watchdog ++
      [elapsing .watchdog] ++ plainly 8 1000000000 .watchdog ++ plainly 6 0 .main ++
      plainly 1 0 .producer ++ plainly 3 0 (.worker 0) ++ plainly 1 0 .watchdog ++
      plainly 4 0 .main ++ plainly 15 1000000000 .logger ++ plainly 2 0 .main)
    (fun s => s.main = .returned ∧ s.shared.metrics.watchdogStalls = 1 ∧
      s.producer.threw = false ∧ (∀ i, (s.workers i).threw = false) ∧ s.logger.threw = false ∧
      s.watchdog.threw = false)
    (by decide +kernel)
  exact ⟨s, reachable_of_run hrun, hm, hstalls,
    (diagnostics_kept_iff hrun hm ⟨hcp, hcw, hcl, hcd⟩).mpr (by decide +kernel)⟩

/-- The watchdog finds the producer stalled; then the shutdown begins and runs up to the join of
the watchdog, which only now counts the stall and pushes its record. -/
def lateStall : List (Action ℕ 1) :=
  plainly 5 0 .main ++ plainly 5 0 .producer ++ plainly 1 0 .watchdog ++ [elapsing .watchdog] ++
    plainly 3 1000000000 .watchdog ++ plainly 6 0 .main ++ plainly 1 0 .producer ++
    plainly 3 0 (.worker 0) ++ plainly 4 0 .main ++ plainly 5 0 .logger ++ plainly 1 0 .main ++
    plainly 6 0 .watchdog ++ plainly 1 0 .main

/-- A counted stall whose record is refused by the closed output queue. -/
theorem diagnostics_lost_late_stall :
    ∃ s : State ℕ 1, Lts.run (step silentDefaults) (initial silentDefaults 1 0) lateStall =
        some s ∧
      s.main = .returned ∧ s.Calm ∧ s.shared.metrics.watchdogStalls = 1 ∧
      (watchdogRecords s.shared.output.accepted).length = 0 ∧
      (watchdogRecords s.shared.output.refusedClosed).length = 1 ∧
      ¬ DiagnosticsKept silentDefaults s := by
  obtain ⟨s, hrun, hm, hstalls, hacc, href, hcp, hcw, hcl, hcd⟩ := Lts.exists_run
    (step silentDefaults) (initial silentDefaults 1 0) lateStall
    (fun s => s.main = .returned ∧ s.shared.metrics.watchdogStalls = 1 ∧
      (watchdogRecords s.shared.output.accepted).length = 0 ∧
      (watchdogRecords s.shared.output.refusedClosed).length = 1 ∧
      s.producer.threw = false ∧ (∀ i, (s.workers i).threw = false) ∧ s.logger.threw = false ∧
      s.watchdog.threw = false)
    (by decide +kernel)
  refine ⟨s, hrun, hm, ⟨hcp, hcw, hcl, hcd⟩, hstalls, hacc, href, ?_⟩
  intro hkept
  have := hkept.accepted
  omega

end RadarRT
