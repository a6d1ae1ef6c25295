import RadarRT.System.Pacing

/-!
# The producer keeps its period

`producer_schedule` says what the producer does with the readings of the clock it gets. Here is
the guarantee a user of it wants: on a platform where the first sample follows the start within
`latency`, where a wait that runs out is followed by the next sample within `latency` of the end it
should have had, and where an iteration takes at most `work` from the sample to the check of the
deadline (the push included, however long it blocks), the producer misses no deadline and the
samples stay on the grid of periods, within `latency` and without drift, as soon as latency and
work together are less than a period.
-/

namespace RadarRT

open Periodic

variable {F : Type} {N : ℕ} {env : Env F} {beat : ℕ} {o : Outside F} {sh sh' : Shared F}
variable {latency work : Duration}

/-! ## What is asked of the platform -/

/-- The first sample is taken within `latency` of the start. Every other one is taken within
`latency` of the nominal end of the wait before it: the clock reading the remaining time was
computed from, plus that time. -/
def samplesWithin (latency : Duration) (s : Paced F N) (a : Action F N) : Bool :=
  match a.1, s.state.producer, s.log.waited with
  | .producer, .readClock _, some (now, remaining) => decide (a.2.now ≤ now + remaining + latency)
  | .producer, .readClock d, none => decide (a.2.now ≤ d + latency)
  | _, _, _ => true

/-- The deadline is checked within `work` of the sample. -/
def worksWithin (work : Duration) (s : Paced F N) (a : Action F N) : Bool :=
  match a.1, s.state.producer, s.log.current with
  | .producer, .checkDeadline _, some t => decide (a.2.now ≤ t + work)
  | _, _, _ => true

/-! ## The log of a prompt run -/

/-- The wait on record is the one that ended at `nextDeadline`. -/
def PacingLog.WaitedAt (log : PacingLog) : ProducerPc → Prop
  | .loopTest d | .readClock d => ∀ now remaining,
      log.waited = some (now, remaining) → now + remaining = d
  | .recordThreadException | .requestShutdown | .finished _ => True
  | _ => log.waited = none

structure PromptOk (latency work : Duration) (pc : ProducerPc) (log : PacingLog) : Prop where
  prompt : Prompt latency work log.current log.start log.rounds
  waited : log.WaitedAt pc

theorem PromptOk.begin {d : Time} {log : PacingLog} (h : PromptOk latency work (.readClock d) log)
    (hok : PacingOk env sh (.readClock d) log)
    (hsample : match log.waited with
      | some (now, remaining) => o.now ≤ now + remaining + latency
      | none => o.now ≤ d + latency) :
    PromptOk latency work (.storeTimestamp d o.now)
      (log.record o.now (.readClock d) (.storeTimestamp d o.now)) := by
  obtain ⟨hprompt, hwaited⟩ := h
  obtain ⟨hlast, hcurrent, -⟩ := hok.point
  have hsoon : o.now ≤ lastDeadline log.start log.rounds + latency := by
    rw [hlast]
    cases hw : log.waited with
    | none =>
      rw [hw] at hsample
      exact hsample
    | some p =>
      rw [hw] at hsample
      rw [← hwaited p.1 p.2 hw]
      exact hsample
  rw [hcurrent] at hprompt
  exact ⟨hprompt.begin hsoon, rfl⟩

theorem PromptOk.finish {d d' : Time} {missed : Bool} {pc' : ProducerPc} {log : PacingLog}
    (h : PromptOk latency work (.checkDeadline d) log)
    (hok : PacingOk env sh (.checkDeadline d) log)
    (hwork : ∀ t, log.current = some t → o.now ≤ t + work)
    (hpc' : ∀ log : PacingLog, log.waited = none → log.WaitedAt pc') :
    PromptOk latency work pc' (log.finish o.now d' missed) := by
  obtain ⟨-, t, ht, -⟩ := hok.point
  have hprompt := h.prompt
  rw [ht] at hprompt
  refine ⟨?_, hpc' _ h.waited⟩
  rw [PacingLog.finish_rounds ht]
  exact hprompt.finish rfl (hwork t ht)

theorem PromptOk.producerStep {pc pc' : ProducerPc} {log : PacingLog}
    (h : PromptOk latency work pc log) (hok : PacingOk env sh pc log)
    (hstep : producerStep env beat o sh pc = some (sh', pc'))
    (hsample : ∀ d, pc = .readClock d → match log.waited with
      | some (now, remaining) => o.now ≤ now + remaining + latency
      | none => o.now ≤ d + latency)
    (hwork : ∀ d, pc = .checkDeadline d → ∀ t, log.current = some t → o.now ≤ t + work) :
    PromptOk latency work pc' (log.record o.now pc pc') := by
  cases producerStep_cases hstep with
  | configure hle =>
    obtain ⟨hrounds, hcurrent⟩ := hok.point
    refine ⟨?_, ?_⟩
    · show Prompt latency work log.current o.now log.rounds
      rw [hrounds, hcurrent]
      intro t ht
      cases ht
    · intro now remaining hw
      have hnone : log.waited = none := h.waited
      rw [show log.waited = some (now, remaining) from hw] at hnone
      cases hnone
  | readClock hle => exact h.begin hok (hsample _ rfl)
  | missed hle => exact h.finish hok (hwork _ rfl) fun _ hw => hw
  | onTime hle => exact h.finish hok (hwork _ rfl) fun _ hw => hw
  | recordDeadlineMiss =>
    refine ⟨h.prompt, ?_⟩
    intro now remaining hw
    have hnone : log.waited = none := h.waited
    rw [show log.waited = some (now, remaining) from hw] at hnone
    cases hnone
  | waitElapsed =>
    refine ⟨h.prompt, ?_⟩
    intro now remaining hw
    cases hw
    exact add_sub_cancel _ _
  | sample | storeTimestamp | storeRunning | pushed | recordSignalProduced | readInputSize
  | setInputQueueDepth | readInputDrops | setInputDrops | markWaiting =>
    exact ⟨h.prompt, h.waited⟩
  | _ => exact ⟨h.prompt, trivial⟩

theorem promptOk_main {s s' : State F N} (h : MainMove o s s') (hs : Started s) {log : PacingLog}
    (hok : PromptOk latency work s.producer log) : PromptOk latency work s'.producer log := by
  cases h with
  | startProducer hm =>
    have hstarting := hs.starting
    simp only [State.Starting, hm] at hstarting
    rw [hstarting.2.1] at hok
    exact ⟨hok.prompt, hok.waited⟩
  | _ => exact ⟨hok.prompt, hok.waited⟩

theorem promptOk_step {s s' : Paced F N} {a : Action F N} (h : pacedStep env s a = some s')
    (hsamples : samplesWithin latency s a = true) (hworks : worksWithin work s a = true)
    (hs : Started s.state) (hok : PacingOk env s.state.shared s.state.producer s.log)
    (hprompt : PromptOk latency work s.state.producer s.log) :
    PromptOk latency work s'.state.producer s'.log := by
  obtain ⟨u, hu, rfl⟩ := Option.map_eq_some_iff.mp h
  obtain ⟨actor, o⟩ := a
  cases actor with
  | main => exact promptOk_main (mainStep_cases hu) hs hprompt
  | producer =>
    obtain ⟨⟨sh, pc⟩, hr, rfl⟩ := Option.map_eq_some_iff.mp hu
    refine hprompt.producerStep hok hr ?_ ?_
    · intro d hpc
      cases hw : s.log.waited with
      | none => simpa [samplesWithin, hpc, hw] using hsamples
      | some p => simpa [samplesWithin, hpc, hw] using hsamples
    · intro d hpc t ht
      simpa [worksWithin, hpc, ht] using hworks
  -- the other threads leave the producer and its log alone
  | worker i =>
    obtain ⟨⟨sh, pc⟩, -, rfl⟩ := Option.map_eq_some_iff.mp hu
    exact hprompt
  | logger =>
    obtain ⟨⟨sh, pc⟩, -, rfl⟩ := Option.map_eq_some_iff.mp hu
    exact hprompt
  | watchdog =>
    obtain ⟨⟨sh, pc⟩, -, rfl⟩ := Option.map_eq_some_iff.mp hu
    exact hprompt

/-- A platform on which a wait lasts at least as long as it should and the producer is prompt. -/
def onPlatform (latency work : Duration) (s : Paced F N) (a : Action F N) : Bool :=
  waitsOut s a && samplesWithin latency s a && worksWithin work s a

theorem promptOk_initial (env : Env F) (N : ℕ) (t₀ : Time) :
    PromptOk latency work (Paced.initial env N t₀).state.producer (Paced.initial env N t₀).log := by
  refine ⟨?_, rfl⟩
  intro t ht
  cases ht

theorem promptOk_run {t₀ : Time} {as : List (Action F N)} {s : Paced F N}
    (hrun : Lts.run (pacedStep env) (Paced.initial env N t₀) as = some s)
    (hplatform : Lts.Along (pacedStep env) (fun s a => onPlatform latency work s a = true)
      (Paced.initial env N t₀) as) :
    PacingOk env s.state.shared s.state.producer s.log ∧
      PromptOk latency work s.state.producer s.log := by
  have hI : Started s.state ∧ PacingOk env s.state.shared s.state.producer s.log ∧
      PromptOk latency work s.state.producer s.log := by
    refine Lts.run_invariant_along
      (I := fun s => Started s.state ∧ PacingOk env s.state.shared s.state.producer s.log ∧
        PromptOk latency work s.state.producer s.log)
      ?_ hrun hplatform
      ⟨started_initial env t₀, pacingOk_initial env N t₀, promptOk_initial env N t₀⟩
    rintro s a s' hstep hall ⟨hs, hok, hprompt⟩
    simp only [onPlatform, Bool.and_eq_true] at hall
    exact ⟨started_pacedStep hstep hs, pacingOk_step hstep hall.1.1 hs hok,
      promptOk_step hstep hall.1.2 hall.2 hs hok hprompt⟩
  exact hI.2

/-! ## The guarantee -/

/-- On a platform whose latency, from the start to the first sample and from the nominal end of a
wait to the next one, and work together are less than a period, whatever the other threads do: no
deadline is missed, and sample `k` is taken no earlier than `k` periods after the start and at most
`latency` later. -/
theorem producer_meets_deadlines (latency work : Duration) (hfits : latency + work < env.period)
    {t₀ : Time} {as : List (Action F N)} {s : Paced F N}
    (hrun : Lts.run (pacedStep env) (Paced.initial env N t₀) as = some s)
    (hplatform : Lts.Along (pacedStep env) (fun s a => onPlatform latency work s a = true)
      (Paced.initial env N t₀) as) :
    s.state.shared.metrics.deadlineMisses = 0 ∧
      ∀ (k : ℕ) (t : Time), s.log.sampleTimes[k]? = some t →
        s.log.start + k * env.period ≤ t ∧ t ≤ s.log.start + k * env.period + latency := by
  obtain ⟨hok, hprompt⟩ := promptOk_run hrun hplatform
  obtain ⟨honTime, hgrid⟩ := hok.keeps.onTime hprompt.prompt hfits
  refine ⟨?_, ?_⟩
  · have hmisses := hok.misses
    have hzero : s.log.rounds.countP (·.missed) = 0 := by
      rw [List.countP_eq_zero]
      intro r hr
      simp [honTime r hr]
    omega
  · intro k t ht
    have hle := hok.keeps.le_sample ht
    have hge := hgrid k t ht
    rw [nsmul_eq_mul] at hle hge
    exact ⟨hle, hge⟩

/-- Two samples, the second 100 microseconds after its deadline. -/
theorem producer_meets_deadlines_two :
    ∃ s : Paced ℕ 1, Lts.run (pacedStep silentDefaults) (Paced.initial silentDefaults 1 0)
        (plainly 5 0 .main ++ plainly 13 0 .producer ++ [elapsing .producer] ++
          plainly 12 1100000 .producer) = some s ∧
      s.log.sampleTimes = [0, 1100000] ∧ s.state.shared.metrics.deadlineMisses = 0 ∧
      (1100000 : Time) ≤ s.log.start + (1 : ℕ) * silentDefaults.period + 200000 := by
  obtain ⟨s, hrun, hsamples⟩ := Lts.exists_run
    (pacedStep silentDefaults) (Paced.initial silentDefaults 1 0)
    (plainly 5 0 .main ++ plainly 13 0 .producer ++ [elapsing .producer] ++
      plainly 12 1100000 .producer)
    (fun s => s.log.sampleTimes = [0, 1100000]) (by decide +kernel)
  obtain ⟨hmisses, hgrid⟩ := producer_meets_deadlines 200000 500000 (by decide) hrun
    (by decide +kernel)
  exact ⟨s, hrun, hsamples, hmisses, (hgrid 1 1100000 (by rw [hsamples]; rfl)).2⟩

end RadarRT
