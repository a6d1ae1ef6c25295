import Mathlib.Algebra.Order.Ring.Int
import RadarRT.Lib.Periodic
import RadarRT.System.Phases
import RadarRT.System.Schedules

/-!
# The producer's schedule

`produceLoop` samples once per period: it advances `nextDeadline` by the period after each push
and waits for what remains, or, when nothing remains, records a miss and realigns to the clock.
Here the application runs with a log of the clock readings the producer takes and of
`nextDeadline`, and the log is shown to be a schedule in the sense of `Lib.Periodic`, whatever the
other threads do to the queue in between. All that is asked of the outside is that a wait which
runs out lasts as long as it should.
-/

namespace RadarRT

open Periodic

variable {F : Type} {N : ℕ} {env : Env F} {beat : ℕ} {o : Outside F} {sh sh' : Shared F}

/-! ## The log -/

/-- What the producer has done so far, for observers only. -/
structure PacingLog where
  /-- `nextDeadline` before the loop. -/
  start : Time := 0
  /-- The iterations that have advanced `nextDeadline`. -/
  rounds : List (Round Time) := []
  /-- `sampleTime` of an iteration that has not. -/
  current : Option Time := none
  /-- The last clock reading after a push. -/
  reading : Time := 0
  /-- The clock before the wait that has just returned `false`, and what it waited for. -/
  waited : Option (Time × Duration) := none
deriving DecidableEq

namespace PacingLog

/-- The iteration under way has read the clock and set `nextDeadline`. -/
def finish (log : PacingLog) (now nextDeadline : Time) (missed : Bool) : PacingLog :=
  { log with
    rounds := log.rounds ++ log.current.toList.map fun t => ⟨t, now, nextDeadline, missed⟩
    current := none
    reading := now }

/-- The log after a step of the producer, whose clock reading, if it took one, was `now`. -/
def record (log : PacingLog) (now : Time) : ProducerPc → ProducerPc → PacingLog
  | .configure, .loopTest d => { log with start := d }
  | .readClock _, .storeTimestamp _ t => { log with current := some t, waited := none }
  | .checkDeadline _, .recordDeadlineMiss d => log.finish now d true
  | .checkDeadline _, .markWaiting d => log.finish now d false
  | .waitFor d, .loopTest _ => { log with waited := some (log.reading, d - log.reading) }
  | _, _ => log

/-- `s_0, s_1, …` -/
def sampleTimes (log : PacingLog) : List Time := samples log.rounds log.current

/-- `D_0, D_1, …` -/
def deadlines (log : PacingLog) : List Time := log.rounds.map (·.deadline)

end PacingLog

/-- The application with the log of its producer. -/
structure Paced (F : Type) (N : ℕ) where
  state : State F N
  log : PacingLog

def pacedStep (env : Env F) (s : Paced F N) (a : Action F N) : Option (Paced F N) :=
  (step env s.state a).map fun s' =>
    { state := s'
      log := match a.1 with
        | .producer => s.log.record a.2.now s.state.producer s'.producer
        | _ => s.log }

def Paced.initial (env : Env F) (N : ℕ) (t₀ : Time) : Paced F N where
  state := RadarRT.initial env N t₀
  log := {}

/-- When `waitFor(remaining)` has returned `false`, the clock has advanced by at least `remaining`:
the next reading shows it. -/
def waitsOut (s : Paced F N) (a : Action F N) : Bool :=
  match a.1, s.state.producer, s.log.waited with
  | .producer, .readClock _, some (now, remaining) => decide (now + remaining ≤ a.2.now)
  | _, _, _ => true

/-- The log watches the application and keeps it from nothing. -/
theorem run_paced {s s' : State F N} {as : List (Action F N)} (log : PacingLog)
    (h : Lts.run (step env) s as = some s') :
    ∃ log', Lts.run (pacedStep env) ⟨s, log⟩ as = some ⟨s', log'⟩ := by
  induction as generalizing s log with
  | nil =>
    cases h
    exact ⟨log, rfl⟩
  | cons a as ih =>
    obtain ⟨u, hu, hrest⟩ := Lts.run_cons.mp h
    obtain ⟨log', hlog'⟩ := ih _ hrest
    refine ⟨log', Lts.run_cons.mpr ⟨_, ?_, hlog'⟩⟩
    rw [pacedStep, hu]
    rfl

/-! ## The invariant -/

/-- A miss that the producer has found but not recorded yet. -/
def ProducerPc.missPending : ProducerPc → ℕ
  | .recordDeadlineMiss _ => 1
  | _ => 0

/-- What the log says at each program point: the local `nextDeadline` is the last deadline, the
local `sampleTime` the sample of the iteration under way. -/
def PacingLog.At (log : PacingLog) (clock : Time) : ProducerPc → Prop
  | .notStarted | .configure => log.rounds = [] ∧ log.current = none
  | .loopTest d | .readClock d =>
    lastDeadline log.start log.rounds = d ∧ log.current = none ∧
      (d ≤ clock ∨ ∃ now, log.waited = some (now, d - now))
  | .storeTimestamp d _ | .storeRunning d _ | .push d _ | .recordSignalProduced d
  | .readInputSize d | .setInputQueueDepth d _ | .readInputDrops d | .setInputDrops d _
  | .checkDeadline d =>
    lastDeadline log.start log.rounds = d ∧ ∃ t, log.current = some t ∧ t ≤ clock
  | .recordDeadlineMiss now =>
    lastDeadline log.start log.rounds = now ∧ log.current = none ∧ now ≤ clock
  | .markWaiting d | .waitFor d => lastDeadline log.start log.rounds = d ∧ log.current = none
  | .recordThreadException | .requestShutdown | .finished _ => True

/-- The log is a schedule, and the counter knows its misses. -/
structure PacingOk (env : Env F) (sh : Shared F) (pc : ProducerPc) (log : PacingLog) : Prop where
  keeps : Keeps env.period log.current log.start log.rounds
  point : log.At sh.clock pc
  misses : sh.metrics.deadlineMisses + pc.missPending = log.rounds.countP (·.missed)

theorem PacingLog.At.mono {log : PacingLog} {c c' : Time} {pc : ProducerPc} (h : log.At c pc)
    (hc : c ≤ c') : log.At c' pc := by
  cases pc with
  | notStarted | configure | markWaiting | waitFor | recordThreadException | requestShutdown
  | finished => exact h
  | loopTest | readClock =>
    obtain ⟨hlast, hcurrent, hd⟩ := h
    exact ⟨hlast, hcurrent, hd.imp_left fun hd => hd.trans hc⟩
  | recordDeadlineMiss => exact ⟨h.1, h.2.1, h.2.2.trans hc⟩
  | _ =>
    obtain ⟨hlast, t, ht, hle⟩ := h
    exact ⟨hlast, t, ht, hle.trans hc⟩

/-- The other threads cannot break it. -/
theorem PacingOk.mono {pc : ProducerPc} {log : PacingLog} (h : PacingOk env sh pc log)
    (hc : sh.clock ≤ sh'.clock)
    (hm : sh'.metrics.deadlineMisses = sh.metrics.deadlineMisses) : PacingOk env sh' pc log :=
  ⟨h.keeps, h.point.mono hc, by rw [hm]; exact h.misses⟩

/-! ## The steps of the producer -/

theorem PacingLog.finish_rounds {log : PacingLog} {t : Time} (ht : log.current = some t)
    (now d : Time) (missed : Bool) :
    (log.finish now d missed).rounds = log.rounds ++ [⟨t, now, d, missed⟩] := by
  simp [PacingLog.finish, ht]

/-- A round that respects its deadline may be added to the log. -/
theorem PacingOk.finish {d now d' t : Time} {missed : Bool} {log : PacingLog}
    (h : PacingOk env sh (.checkDeadline d) log) (ht : log.current = some t)
    (hafter : Round.After env.period (lastDeadline log.start log.rounds) ⟨t, now, d', missed⟩) :
    Keeps env.period none log.start (log.finish now d' missed).rounds ∧
      lastDeadline log.start (log.finish now d' missed).rounds = d' ∧
      (log.finish now d' missed).rounds.countP (·.missed) =
        sh.metrics.deadlineMisses + missed.toNat := by
  have hkeeps := h.keeps
  have hmisses : sh.metrics.deadlineMisses = log.rounds.countP (·.missed) := h.misses
  rw [ht] at hkeeps
  rw [PacingLog.finish_rounds ht]
  refine ⟨hkeeps.finish hafter, lastDeadline_concat _ _ _, ?_⟩
  rw [hmisses, List.countP_append]
  cases missed <;> rfl

/-- The check after the push ends the round: a miss leaves the reading as the deadline, anything
else one period more than before. -/
theorem PacingOk.checkDeadline {d : Time} {pc' : ProducerPc} {log : PacingLog}
    (h : PacingOk env sh (.checkDeadline d) log)
    (hstep : producerStep env beat o sh (.checkDeadline d) = some (sh', pc')) :
    PacingOk env sh' pc' (log.record o.now (.checkDeadline d) pc') := by
  obtain ⟨hlast, t, ht, hclock⟩ := h.point
  simp only [RadarRT.producerStep] at hstep
  obtain ⟨hle, rfl, rfl⟩ := Shared.readClock_eq_some hstep
  have hdue : d ≤ t := by
    have hkeeps := h.keeps
    rw [ht] at hkeeps
    exact hlast ▸ hkeeps.due
  by_cases hmiss : d + env.period - o.now ≤ 0
  · have hafter : Round.After env.period (lastDeadline log.start log.rounds)
        ⟨t, o.now, o.now, true⟩ := by
      rw [hlast]
      exact ⟨hdue, hclock.trans hle, iff_of_true rfl (sub_nonpos.mp hmiss), rfl⟩
    obtain ⟨hkeeps, hlast', hmisses⟩ := h.finish ht hafter
    rw [if_pos hmiss]
    exact ⟨hkeeps, ⟨hlast', rfl, le_rfl⟩, hmisses.symm⟩
  · have hafter : Round.After env.period (lastDeadline log.start log.rounds)
        ⟨t, o.now, d + env.period, false⟩ := by
      rw [sub_nonpos] at hmiss
      rw [hlast]
      exact ⟨hdue, hclock.trans hle, iff_of_false Bool.false_ne_true hmiss, rfl⟩
    obtain ⟨hkeeps, hlast', hmisses⟩ := h.finish ht hafter
    rw [if_neg hmiss]
    exact ⟨hkeeps, ⟨hlast', rfl⟩, hmisses.symm⟩

/-- A sample is taken no earlier than `nextDeadline`: after a wait because it ran out, otherwise
because `nextDeadline` is itself a reading of the clock. -/
theorem PacingOk.readClock {d : Time} {log : PacingLog} (h : PacingOk env sh (.readClock d) log)
    (hle : sh.clock ≤ o.now)
    (hwaited : ∀ now remaining, log.waited = some (now, remaining) → now + remaining ≤ o.now) :
    PacingOk env { sh with clock := o.now } (.storeTimestamp d o.now)
      (log.record o.now (.readClock d) (.storeTimestamp d o.now)) := by
  obtain ⟨hkeeps, ⟨hlast, hcurrent, hd⟩, hmisses⟩ := h
  have hdue : d ≤ o.now := by
    rcases hd with hd | ⟨now, hnow⟩
    · exact hd.trans hle
    · have hlong := hwaited _ _ hnow
      rwa [add_sub_cancel] at hlong
  rw [hcurrent] at hkeeps
  exact ⟨hkeeps.begin (hlast.trans_le hdue), ⟨hlast, o.now, rfl, le_rfl⟩, hmisses⟩

theorem PacingOk.producerStep {pc pc' : ProducerPc} {log : PacingLog} (h : PacingOk env sh pc log)
    (hstep : producerStep env beat o sh pc = some (sh', pc'))
    (hwaited : ∀ d, pc = .readClock d → ∀ now remaining,
      log.waited = some (now, remaining) → now + remaining ≤ o.now) :
    PacingOk env sh' pc' (log.record o.now pc pc') := by
  have hmove := producerStep_cases hstep
  cases hmove with
  | configure hle =>
    obtain ⟨hkeeps, ⟨hrounds, hcurrent⟩, hmisses⟩ := h
    refine ⟨?_, ⟨?_, hcurrent, .inl le_rfl⟩, hmisses⟩
    · show Keeps env.period log.current o.now log.rounds
      rw [hrounds, hcurrent]
      intro t ht
      cases ht
    · show lastDeadline o.now log.rounds = o.now
      rw [hrounds, lastDeadline_nil]
  | readClock hle => exact h.readClock hle (hwaited _ rfl)
  | missed | onTime => exact h.checkDeadline hstep
  | recordDeadlineMiss =>
    obtain ⟨hkeeps, ⟨hlast, hcurrent, hclock⟩, hmisses⟩ := h
    exact ⟨hkeeps, ⟨hlast, hcurrent, .inl hclock⟩, hmisses⟩
  | waitElapsed =>
    obtain ⟨hkeeps, ⟨hlast, hcurrent⟩, hmisses⟩ := h
    exact ⟨hkeeps, ⟨hlast, hcurrent, .inr ⟨log.reading, rfl⟩⟩, hmisses⟩
  | sample | storeTimestamp | storeRunning | pushed | recordSignalProduced | readInputSize
  | setInputQueueDepth | readInputDrops | setInputDrops | markWaiting =>
    exact ⟨h.keeps, h.point, h.misses⟩
  | _ => exact ⟨h.keeps, trivial, h.misses⟩

/-! ## The steps of the others -/

theorem WorkerMove.deadlineMisses_eq {pc pc' : WorkerPc F}
    (h : WorkerMove env beat o sh pc sh' pc') :
    sh'.metrics.deadlineMisses = sh.metrics.deadlineMisses := by
  cases h <;> rfl

theorem LoggerMove.deadlineMisses_eq {pc pc' : LoggerPc F}
    (h : LoggerMove env beat o sh pc sh' pc') :
    sh'.metrics.deadlineMisses = sh.metrics.deadlineMisses := by
  cases h <;> rfl

theorem WatchdogMove.deadlineMisses_eq {pc pc' : WatchdogPc}
    (h : WatchdogMove env o sh pc sh' pc') :
    sh'.metrics.deadlineMisses = sh.metrics.deadlineMisses := by
  cases h <;> rfl

theorem pacingOk_main {s s' : State F N} (h : MainMove o s s') (hs : Started s) {log : PacingLog}
    (hok : PacingOk env s.shared s.producer log) : PacingOk env s'.shared s'.producer log := by
  cases h with
  | startProducer hm =>
    -- the producer has not run before it is started
    have hstarting := hs.starting
    simp only [State.Starting, hm] at hstarting
    rw [hstarting.2.1] at hok
    exact ⟨hok.keeps, hok.point, hok.misses⟩
  | _ => exact ⟨hok.keeps, hok.point, hok.misses⟩

theorem pacingOk_step {s s' : Paced F N} {a : Action F N} (h : pacedStep env s a = some s')
    (hwait : waitsOut s a = true) (hs : Started s.state)
    (hok : PacingOk env s.state.shared s.state.producer s.log) :
    PacingOk env s'.state.shared s'.state.producer s'.log := by
  obtain ⟨u, hu, rfl⟩ := Option.map_eq_some_iff.mp h
  obtain ⟨actor, o⟩ := a
  cases actor with
  | main => exact pacingOk_main (mainStep_cases hu) hs hok
  | producer =>
    obtain ⟨⟨sh, pc⟩, hr, rfl⟩ := Option.map_eq_some_iff.mp hu
    refine hok.producerStep hr ?_
    intro d hpc now remaining hwaited
    simpa [waitsOut, hpc, hwaited] using hwait
  | worker i =>
    obtain ⟨⟨sh, pc⟩, hr, rfl⟩ := Option.map_eq_some_iff.mp hu
    have hm := workerStep_cases hr
    exact hok.mono hm.extends.clock hm.deadlineMisses_eq
  | logger =>
    obtain ⟨⟨sh, pc⟩, hr, rfl⟩ := Option.map_eq_some_iff.mp hu
    have hm := loggerStep_cases hr
    exact hok.mono hm.extends.clock hm.deadlineMisses_eq
  | watchdog =>
    obtain ⟨⟨sh, pc⟩, hr, rfl⟩ := Option.map_eq_some_iff.mp hu
    have hm := watchdogStep_cases hr
    exact hok.mono hm.extends.clock hm.deadlineMisses_eq

theorem started_pacedStep {s s' : Paced F N} {a : Action F N} (h : pacedStep env s a = some s')
    (hs : Started s.state) : Started s'.state := by
  obtain ⟨u, hu, rfl⟩ := Option.map_eq_some_iff.mp h
  exact started_move (step_move hu) hs

theorem pacingOk_initial (env : Env F) (N : ℕ) (t₀ : Time) :
    PacingOk env (Paced.initial env N t₀).state.shared (Paced.initial env N t₀).state.producer
      (Paced.initial env N t₀).log := by
  refine ⟨?_, ⟨rfl, rfl⟩, rfl⟩
  intro t ht
  cases ht

/-- Along every run of the application in which the waits run out, the log is a schedule. -/
theorem pacingOk_run {t₀ : Time} {as : List (Action F N)} {s : Paced F N}
    (hrun : Lts.run (pacedStep env) (Paced.initial env N t₀) as = some s)
    (hwait : Lts.Along (pacedStep env) (fun s a => waitsOut s a = true)
      (Paced.initial env N t₀) as) :
    PacingOk env s.state.shared s.state.producer s.log := by
  have hI : Started s.state ∧ PacingOk env s.state.shared s.state.producer s.log := by
    refine Lts.run_invariant_along
      (I := fun s => Started s.state ∧ PacingOk env s.state.shared s.state.producer s.log)
      ?_ hrun hwait ⟨started_initial env t₀, pacingOk_initial env N t₀⟩
    rintro s a s' hstep hwaits ⟨hs, hok⟩
    exact ⟨started_pacedStep hstep hs, pacingOk_step hstep hwaits hs hok⟩
  exact hI.2

/-! ## The schedule -/

/-- Whatever the period, the other threads and the pattern of misses: sample `k` is taken at least
`k` periods after the start; samples `i` and `j` are at least `j - i - 1` periods apart;
`nextDeadline` advances by exactly one period per iteration as long as no miss is recorded; and
the misses counted are the iterations that read the clock, after the push, at or after the previous
deadline plus the period. -/
theorem producer_schedule {t₀ : Time} {as : List (Action F N)} {s : Paced F N}
    (hrun : Lts.run (pacedStep env) (Paced.initial env N t₀) as = some s)
    (hwait : Lts.Along (pacedStep env) (fun s a => waitsOut s a = true)
      (Paced.initial env N t₀) as) :
    (∀ (k : ℕ) (t : Time), s.log.sampleTimes[k]? = some t → s.log.start + k * env.period ≤ t) ∧
    (∀ (i j : ℕ) (t u : Time), i < j → s.log.sampleTimes[i]? = some t →
      s.log.sampleTimes[j]? = some u → ((j : Int) - i - 1) * env.period ≤ u - t) ∧
    (∀ (i j : ℕ) (d d' : Time), i ≤ j → s.log.deadlines[i]? = some d →
      s.log.deadlines[j]? = some d' →
      (∀ k r, i < k → k ≤ j → s.log.rounds[k]? = some r → r.missed = false) →
      d' = d + ((j : Int) - i) * env.period) ∧
    s.state.shared.metrics.deadlineMisses + s.state.producer.missPending =
      lateRounds env.period s.log.start s.log.rounds := by
  have hok := pacingOk_run hrun hwait
  refine ⟨?_, ?_, ?_, ?_⟩
  · intro k t ht
    have hle := hok.keeps.le_sample ht
    rwa [nsmul_eq_mul] at hle
  · intro i j t u hij ht hu
    have hle := hok.keeps.le_sample_sub hij ht hu
    rw [nsmul_eq_mul, Nat.sub_sub, Nat.cast_sub hij, Nat.cast_add_one] at hle
    have hsub : (j : Int) - i - 1 = j - (i + 1) := by omega
    rw [hsub]
    exact Int.le_sub_left_of_add_le hle
  · intro i j d d' hij hd hd' hmissed
    have heq := hok.keeps.deadline_sub hij hd hd' hmissed
    rwa [nsmul_eq_mul, Nat.cast_sub hij] at heq
  · rw [hok.misses, hok.keeps.countP_missed]

/-- The first sample is followed by a wait of the full period, the second by a push that lasts
until long after the next deadline, and the third comes at once. -/
def oneMiss : List (Action ℕ 1) :=
  plainly 5 0 .main ++ plainly 13 0 .producer ++ [elapsing .producer] ++
    plainly 10 1000000 .producer ++ plainly 4 5000000 .producer

/-- Three samples, of which the second leads to a miss that realigns the deadline; the first and
the last are no less than one period apart. -/
theorem producer_schedule_one_miss :
    ∃ s : Paced ℕ 1, Lts.run (pacedStep silentDefaults) (Paced.initial silentDefaults 1 0) oneMiss =
        some s ∧
      s.log.sampleTimes = [0, 1000000, 5000000] ∧ s.log.deadlines = [1000000, 5000000] ∧
      s.state.shared.metrics.deadlineMisses = 1 ∧
      (((2 : ℕ) : Int) - (0 : ℕ) - 1) * silentDefaults.period ≤ 5000000 - 0 ∧
      s.state.shared.metrics.deadlineMisses + s.state.producer.missPending =
        lateRounds silentDefaults.period s.log.start s.log.rounds := by
  obtain ⟨s, hrun, hsamples, hdeadlines, hmisses⟩ := Lts.exists_run
    (pacedStep silentDefaults) (Paced.initial silentDefaults 1 0) oneMiss
    (fun s => s.log.sampleTimes = [0, 1000000, 5000000] ∧ s.log.deadlines = [1000000, 5000000] ∧
      s.state.shared.metrics.deadlineMisses = 1) (by decide +kernel)
  obtain ⟨-, hgap, -, hlate⟩ := producer_schedule hrun (by decide +kernel)
  exact ⟨s, hrun, hsamples, hdeadlines, hmisses,
    hgap 0 2 0 5000000 (by decide) (by rw [hsamples]; rfl) (by rw [hsamples]; rfl), hlate⟩

end RadarRT
