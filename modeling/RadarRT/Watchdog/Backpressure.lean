import RadarRT.System.Phases
import RadarRT.System.Schedules
import RadarRT.Watchdog.Beats

/-!
# A producer held by backpressure

The producer marks itself `Running` with the time of its sample and then pushes. Unlike the other
waits of the program, a wait inside `push` for room in the full input queue is not announced with
`markWaiting`. So its heartbeat shows `Running` and the sample time for as long as the wait
lasts, and a scan takes the wait for a stall as soon as that time is older than the timeout.
-/

namespace RadarRT

variable {F : Type} {N : ℕ} {env : Env F} {beat : ℕ} {o : Outside F} {sh sh' : Shared F}

/-- The producer is inside `push`, and the input queue is full and open. -/
def State.blockedInPush (s : State F N) : Bool :=
  match s.producer with
  | .push _ _ => !s.shared.input.queue.hasRoom
  | _ => false

/-- The step from `s` to `s'` is a verdict of a scan: the producer's heartbeat is stalled. -/
def reportsProducer (s s' : State F N) : Bool :=
  match s.watchdog, s'.watchdog with
  | .loadTimestamp _, .recordWatchdogStall sc _ => sc.index == producerBeat
  | _, _ => false

/-- The step reports the producer's heartbeat while the producer is blocked in `push`. -/
def mistakesBackpressure (env : Env F) (s : State F N) (a : Action F N) : Bool :=
  s.blockedInPush && (step env s a).any (reportsProducer s)

/-- A scan that examines the heartbeat of a producer blocked in `push` has read the clock at most
`livenessTimeout` after the producer took its sample. -/
def withinTimeout (env : Env F) (s : State F N) (a : Action F N) : Bool :=
  match a.1, s.watchdog, s.producer with
  | .watchdog, .loadTimestamp sc, .push _ t =>
    !(sc.index == producerBeat && !s.shared.input.queue.hasRoom) ||
      decide (sc.now - t ≤ env.timeout)
  | _, _, _ => true

/-- A producer that is blocked waits: it has no step in which no call throws. -/
theorem step_of_blockedInPush {s : State F N} (hf : Fixed s) (h : s.blockedInPush = true)
    (ho : o.failure = .none) : step env s (.producer, o) = none := by
  unfold State.blockedInPush at h
  cases hpc : s.producer with
  | push d t =>
    rw [hpc] at h
    have hpush : ∀ v f, s.shared.input.push v f = none := by
      intro v f
      simp only [Ledger.push, hf.input]
      simpa using h
    simp [step, producerStep, hpc, ho, hpush]
  | _ =>
    rw [hpc] at h
    cases h

/-! ## The heartbeat of the producer -/

/-- Once the producer is past `markRunning`, its heartbeat shows the time of its sample. -/
structure ProducerBeat (s : State F N) : Prop where
  stamped : ∀ d t, s.producer = .storeRunning d t →
    (s.shared.registry.heartbeats producerBeat).timestamp = t
  running : ∀ d t, s.producer = .push d t →
    s.shared.registry.heartbeats producerBeat = ⟨t, .running⟩

theorem ProducerMove.sampleTime {pc pc' : ProducerPc} (h : ProducerMove env beat o sh pc sh' pc')
    (hs : ∀ d t, pc = .storeRunning d t → (sh.registry.heartbeats beat).timestamp = t) :
    (∀ d t, pc' = .storeRunning d t → (sh'.registry.heartbeats beat).timestamp = t) ∧
      ∀ d t, pc' = .push d t → sh'.registry.heartbeats beat = ⟨t, .running⟩ := by
  cases h with
  | storeTimestamp =>
    refine ⟨fun d t ht => ?_, by nofun⟩
    cases ht
    simp
  | storeRunning =>
    refine ⟨by nofun, ?_⟩
    intro d t ht
    cases ht
    simp [hs _ _ rfl]
  | _ => exact ⟨by nofun, by nofun⟩

/-- Nobody else touches it. -/
theorem ProducerBeat.same {s s' : State F N} (h : ProducerBeat s)
    (hp : s'.producer = s.producer ∨ s'.producer = .configure)
    (hb : s'.shared.registry.heartbeats producerBeat =
      s.shared.registry.heartbeats producerBeat) : ProducerBeat s' := by
  rcases hp with hp | hp
  · exact ⟨by rw [hp, hb]; exact h.stamped, by rw [hp, hb]; exact h.running⟩
  · exact ⟨by rw [hp]; nofun, by rw [hp]; nofun⟩

theorem producerBeat_move {s s' : State F N} {a : Action F N} (h : Move env s a s')
    (hs : ProducerBeat s) : ProducerBeat s' := by
  cases h with
  | main hm =>
    cases hm with
    | startProducer => exact hs.same (.inr rfl) rfl
    | _ => exact hs.same (.inl rfl) rfl
  | producer hm =>
    obtain ⟨hstamped, hrunning⟩ := hm.sampleTime hs.stamped
    exact ⟨hstamped, hrunning⟩
  | worker hm =>
    exact hs.same (.inl rfl) (hm.beatStep.heartbeat_ne (by simp [producerBeat, workerBeat]))
  | logger hm =>
    exact hs.same (.inl rfl) (hm.beatStep.heartbeat_ne (by simp [producerBeat, loggerBeat]))
  | watchdog hm => exact hs.same (.inl rfl) (by rw [hm.registry_eq.1])

/-! ## When a scan mistakes it for a stall -/

theorem reportsProducer_iff {s s' : State F N} :
    reportsProducer s s' = true ↔ ∃ sc sc' age, s.watchdog = .loadTimestamp sc ∧
      s'.watchdog = .recordWatchdogStall sc' age ∧ sc'.index = producerBeat := by
  unfold reportsProducer
  split
  · next hs hs' => simp [hs, hs']
  · next hne => simpa using fun sc hs sc' age hs' => (hne sc sc' age hs hs').elim

/-- A step reports the producer when the watchdog, at the producer's heartbeat, finds its
timestamp too old. -/
theorem any_reportsProducer_iff {s : State F N} {a : Action F N} :
    (step env s a).any (reportsProducer s) = true ↔
      a.1 = .watchdog ∧ ∃ sc, s.watchdog = .loadTimestamp sc ∧ sc.index = producerBeat ∧
        env.timeout < sc.now - (s.shared.registry.heartbeats producerBeat).timestamp := by
  rw [Option.any_eq_true]
  constructor
  · rintro ⟨s', hstep, hr⟩
    obtain ⟨sc, sc', age, hw, hw', hi⟩ := reportsProducer_iff.mp hr
    cases step_move hstep with
    | main hm =>
      -- main only ever starts the watchdog
      have : s'.watchdog = s.watchdog ∨ s'.watchdog = .configure := by
        cases hm <;> first | exact .inl rfl | exact .inr rfl
      rw [hw, hw'] at this
      simp at this
    | watchdog hm =>
      rw [hw] at hm
      cases hm with
      | fresh => cases hw'
      | stalled hlt =>
        cases hw'
        exact ⟨rfl, sc, hw, hi, by rw [← show sc.index = producerBeat from hi]; exact hlt⟩
    | _ =>
      rw [show s.watchdog = _ from hw'] at hw
      cases hw
  · obtain ⟨actor, o⟩ := a
    rintro ⟨rfl, sc, hw, hi, hlt⟩
    rw [← hi] at hlt
    have hstep : step env s (.watchdog, o) = some { s with
        watchdog := .recordWatchdogStall sc.report
          (sc.now - (s.shared.registry.heartbeats sc.index).timestamp) } := by
      simp [step, watchdogStep, hw, not_le_of_gt hlt]
    exact ⟨_, hstep, reportsProducer_iff.mpr ⟨sc, sc.report, _, hw, rfl, hi⟩⟩

theorem mistakesBackpressure_iff {s : State F N} (hs : ProducerBeat s) (a : Action F N) :
    mistakesBackpressure env s a = false ↔ withinTimeout env s a = true := by
  rw [← Bool.not_eq_true, mistakesBackpressure, Bool.and_eq_true, any_reportsProducer_iff]
  unfold withinTimeout
  split
  · next sc d t ha hw hp =>
    have hblocked : s.blockedInPush = !s.shared.input.queue.hasRoom := by
      simp [State.blockedInPush, hp]
    rw [hblocked, hs.running d t hp, ha, hw]
    cases s.shared.input.queue.hasRoom with
    | true => simp
    | false => simp [imp_iff_not_or]
  · next hne =>
    refine iff_of_true (fun hmis => ?_) rfl
    obtain ⟨hblocked, ha, sc, hw, -⟩ := hmis
    unfold State.blockedInPush at hblocked
    split at hblocked
    · next d t hp => exact hne sc d t ha hw hp
    · cases hblocked

/-- In every run, no scan reports the producer while it is blocked in `push` if and only if every
scan that examines it then has read the clock at most `livenessTimeout` after its sample. -/
theorem backpressure_mistaken_iff (env : Env F) (t₀ : Time) (as : List (Action F N)) :
    Lts.Along (step env) (fun s a => mistakesBackpressure env s a = false) (initial env N t₀) as ↔
      Lts.Along (step env) (fun s a => withinTimeout env s a = true) (initial env N t₀) as :=
  Lts.along_congr (fun _ _ _ hstep => producerBeat_move (step_move hstep))
    (fun _ a hs => mistakesBackpressure_iff hs a) ⟨by nofun, by nofun⟩ as

/-- An input queue for one signal. -/
def smallInput : Env ℕ := silentEnv { inputCapacity := 1 } (by decide) (by decide)

/-- The producer pushes one signal, which no worker takes, and blocks in its second `push`; a
second later the watchdog scans. -/
def longWait : List (Action ℕ 1) :=
  plainly 5 0 .main ++ plainly 13 0 .producer ++ [elapsing .producer] ++ plainly 4 0 .producer ++
    plainly 1 0 .watchdog ++ [elapsing .watchdog] ++ plainly 2 1000000000 .watchdog

/-- The producer waits for room, and the next step of the scan reports it. -/
theorem backpressure_mistaken_long_wait :
    ∃ s : State ℕ 1, Lts.run (step smallInput) (initial smallInput 1 0) longWait = some s ∧
      s.blockedInPush = true ∧ (step smallInput s (plain 0 .producer)).isNone ∧
      mistakesBackpressure smallInput s (plain 0 .watchdog) = true :=
  Lts.exists_run (step smallInput) (initial smallInput 1 0) longWait
    (fun s => s.blockedInPush = true ∧ (step smallInput s (plain 0 .producer)).isNone ∧
      mistakesBackpressure smallInput s (plain 0 .watchdog) = true)
    (by decide +kernel)

end RadarRT
