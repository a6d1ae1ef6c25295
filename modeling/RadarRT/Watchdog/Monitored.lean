import RadarRT.System.Phases
import RadarRT.Watchdog.Beats

/-!
# The watchdog and the threads it monitors

Any registry of heartbeats, each borrowed by one thread that runs one of the three loops of the
program, with the watchdog scanning it. Whatever else happens in the process (threads being
started, the token being set, the queues being closed) may happen at any moment. Every store and
every load of a heartbeat is a step of its own.

The application is one such system (`ofApp_reaches`).
-/

namespace RadarRT.Watch

variable {F : Type} {env : Env F}

/-! ## Monitored threads -/

/-- A monitored thread runs `produceLoop`, `workerLoop` or `drainLoop`. -/
inductive Body (F : Type) where
  | producer (pc : ProducerPc)
  | worker (pc : WorkerPc F)
  | logger (pc : LoggerPc F)

namespace Body

def step (env : Env F) (beat : ℕ) (o : Outside F) (sh : Shared F) :
    Body F → Option (Shared F × Body F)
  | .producer pc => (producerStep env beat o sh pc).map fun r => (r.1, .producer r.2)
  | .worker pc => (workerStep env beat o sh pc).map fun r => (r.1, .worker r.2)
  | .logger pc => (loggerStep env beat o sh pc).map fun r => (r.1, .logger r.2)

/-- The thread is created, if it has not been. -/
def start : Body F → Option (Body F)
  | .producer .notStarted => some (.producer .configure)
  | .worker .notStarted => some (.worker .configure)
  | .logger .notStarted => some (.logger .configure)
  | _ => none

def view : Body F → BeatView
  | .producer pc => pc.view
  | .worker pc => pc.view
  | .logger pc => pc.view

/-- The thread has not been created. -/
def unstarted : Body F → Bool
  | .producer .notStarted | .worker .notStarted | .logger .notStarted => true
  | _ => false

theorem view_of_unstarted {b : Body F} (h : b.unstarted = true) : b.view = {} := by
  cases b with
  | producer pc | worker pc | logger pc => cases pc <;> first | rfl | cases h

theorem view_start {b b' : Body F} (h : b.start = some b') : b'.view = b.view := by
  cases b with
  | producer pc | worker pc | logger pc =>
    cases pc <;> cases h
    rfl

/-- A step of a monitored thread is a `BeatStep` on its own heartbeat, and leaves the names of the
registry and the count of stalls alone. -/
theorem step_effect {beat : ℕ} {o : Outside F} {sh sh' : Shared F} {b b' : Body F}
    (h : step env beat o sh b = some (sh', b')) :
    BeatStep beat sh b.view sh' b'.view ∧ sh'.registry.names = sh.registry.names ∧
      sh'.metrics.watchdogStalls = sh.metrics.watchdogStalls := by
  cases b with
  | producer pc =>
    obtain ⟨⟨_, pc'⟩, hr, heq⟩ := Option.map_eq_some_iff.mp h
    cases heq
    have hm := producerStep_cases hr
    refine ⟨hm.beatStep, ?_⟩
    cases hm <;> exact ⟨rfl, rfl⟩
  | worker pc =>
    obtain ⟨⟨_, pc'⟩, hr, heq⟩ := Option.map_eq_some_iff.mp h
    cases heq
    have hm := workerStep_cases hr
    refine ⟨hm.beatStep, ?_⟩
    cases hm <;> exact ⟨rfl, rfl⟩
  | logger pc =>
    obtain ⟨⟨_, pc'⟩, hr, heq⟩ := Option.map_eq_some_iff.mp h
    cases heq
    have hm := loggerStep_cases hr
    refine ⟨hm.beatStep, ?_⟩
    cases hm <;> exact ⟨rfl, rfl⟩

end Body

/-! ## The system -/

/-- `threads i` is the thread that beats on heartbeat `i`. -/
structure State (F : Type) where
  threads : ℕ → Body F
  watchdog : WatchdogPc
  shared : Shared F

inductive Actor where
  | thread (i : ℕ)
  | start (i : ℕ)
  | watchdog
  | startWatchdog
  | requestShutdown
  | closeInput
  | closeOutput
deriving DecidableEq

abbrev Action (F : Type) := Actor × Outside F

def step (env : Env F) (s : State F) : Action F → Option (State F)
  | (.thread i, o) => ((s.threads i).step env i o s.shared).map fun r =>
      { s with shared := r.1, threads := Function.update s.threads i r.2 }
  | (.start i, _) => (s.threads i).start.map fun b =>
      { s with threads := Function.update s.threads i b }
  | (.watchdog, o) => (watchdogStep env o s.shared s.watchdog).map fun r =>
      { s with shared := r.1, watchdog := r.2 }
  | (.startWatchdog, _) =>
      if s.watchdog = .notStarted then some { s with watchdog := .configure } else none
  | (.requestShutdown, _) => some { s with shared := s.shared.requestShutdown }
  | (.closeInput, _) => some { s with shared := { s.shared with input := s.shared.input.close } }
  | (.closeOutput, _) =>
      some { s with shared := { s.shared with output := s.shared.output.close } }

/-- Before anything runs: any registry in which nobody has beaten yet, any threads that have not
been created, any queues, any clock. -/
structure Initial (s : State F) : Prop where
  heartbeats : ∀ i, s.shared.registry.heartbeats i = {}
  threads : ∀ i, (s.threads i).unstarted = true
  watchdog : s.watchdog = .notStarted

/-! ## What a step does -/

/-- A step that is not the watchdog's. -/
structure Elsewhere (s s' : State F) : Prop where
  watchdog : s'.watchdog = s.watchdog ∨ s.watchdog = .notStarted ∧ s'.watchdog = .configure
  clock : s.shared.clock ≤ s'.shared.clock
  names : s'.shared.registry.names = s.shared.registry.names
  stalls : s'.shared.metrics.watchdogStalls = s.shared.metrics.watchdogStalls
  beats : ∀ i, BeatOk s.shared i (s.threads i).view → BeatOk s'.shared i (s'.threads i).view
  floors : ∀ i c, Floor c s.shared i (s.threads i).view → Floor c s'.shared i (s'.threads i).view

theorem Elsewhere.of_shared {s : State F} {sh : Shared F} {pc : WatchdogPc}
    (hpc : pc = s.watchdog ∨ s.watchdog = .notStarted ∧ pc = .configure)
    (hc : s.shared.clock ≤ sh.clock) (hr : sh.registry = s.shared.registry)
    (hm : sh.metrics.watchdogStalls = s.shared.metrics.watchdogStalls) :
    Elsewhere s { s with shared := sh, watchdog := pc } :=
  ⟨hpc, hc, by rw [hr], hm, fun _ h => h.mono hc (by rw [hr]),
    fun _ _ h => h.mono hc (by rw [hr])⟩

theorem step_cases {s s' : State F} {a : Action F} (h : step env s a = some s') :
    (∃ o sh pc, a = (.watchdog, o) ∧ WatchdogMove env o s.shared s.watchdog sh pc ∧
      s' = { s with shared := sh, watchdog := pc }) ∨
    (a.1 ≠ .watchdog ∧ Elsewhere s s') := by
  obtain ⟨actor, o⟩ := a
  cases actor with
  | watchdog =>
    obtain ⟨⟨sh, pc⟩, hr, rfl⟩ := Option.map_eq_some_iff.mp h
    exact .inl ⟨o, sh, pc, rfl, watchdogStep_cases hr, rfl⟩
  | thread i =>
    obtain ⟨⟨sh, b⟩, hr, rfl⟩ := Option.map_eq_some_iff.mp h
    obtain ⟨hbeat, hnames, hstalls⟩ := Body.step_effect hr
    refine .inr ⟨by nofun, .inl rfl, hbeat.clock_le, hnames, hstalls, ?_,
      ?_⟩
    · -- the thread keeps its own heartbeat in order and leaves the others alone
      intro j hj
      by_cases hji : j = i
      · subst hji
        simpa using hbeat.ok hj
      · simpa only [Function.update_of_ne hji] using hj.mono hbeat.clock_le (hbeat.heartbeat_ne hji)
    · intro j c hj
      by_cases hji : j = i
      · subst hji
        simpa using hbeat.floor hj
      · simpa only [Function.update_of_ne hji] using hj.mono hbeat.clock_le (hbeat.heartbeat_ne hji)
  | start i =>
    obtain ⟨b, hb, rfl⟩ := Option.map_eq_some_iff.mp h
    have hview : ∀ j, (Function.update s.threads i b j).view = (s.threads j).view := by
      intro j
      by_cases hji : j = i
      · subst hji
        simpa using Body.view_start hb
      · rw [Function.update_of_ne hji]
    refine .inr ⟨by nofun, .inl rfl, le_rfl, rfl, rfl, ?_, ?_⟩
    · intro j hj
      simpa only [hview j] using hj
    · intro j c hj
      simpa only [hview j] using hj
  | startWatchdog =>
    simp only [step] at h
    split at h
    · next hns =>
      cases h
      exact .inr ⟨by nofun, Elsewhere.of_shared (.inr ⟨hns, rfl⟩) le_rfl rfl rfl⟩
    · cases h
  | requestShutdown | closeInput | closeOutput =>
    cases h
    exact .inr ⟨by nofun, Elsewhere.of_shared (.inl rfl) le_rfl rfl rfl⟩

/-! ## Every thread beats in order -/

/-- Every heartbeat is as the program point of its thread says. -/
def Beating (s : State F) : Prop := ∀ i, BeatOk s.shared i (s.threads i).view

theorem Initial.beating {s : State F} (h : Initial s) : Beating s := by
  intro i
  rw [Body.view_of_unstarted (h.threads i)]
  refine ⟨by nofun, fun hrun => ?_, by nofun⟩
  rw [h.heartbeats i] at hrun
  simp at hrun

theorem beating_step {s s' : State F} {a : Action F} (h : step env s a = some s')
    (hs : Beating s) : Beating s' := by
  rcases step_cases h with ⟨o, sh, pc, -, hm, rfl⟩ | ⟨-, he⟩
  · obtain ⟨hr, hc⟩ := hm.registry_eq
    exact fun i => (hs i).mono hc (by rw [hr])
  · exact fun i => he.beats i (hs i)

/-! ## The application is such a system -/

/-- The thread that borrows heartbeat `i` of the application. -/
def appThread {N : ℕ} (s : RadarRT.State F N) : ℕ → Body F
  | 0 => .producer s.producer
  | i + 1 => if h : i < N then .worker (s.workers ⟨i, h⟩)
      else if i = N then .logger s.logger else .logger .notStarted

/-- What the watchdog can see of an application. -/
def ofApp {N : ℕ} (s : RadarRT.State F N) : State F where
  threads := appThread s
  watchdog := s.watchdog
  shared := s.shared

variable {N : ℕ}

theorem appThread_worker (s : RadarRT.State F N) (i : Fin N) :
    appThread s (workerBeat i) = .worker (s.workers i) := by
  simp [appThread, workerBeat]

theorem appThread_logger (s : RadarRT.State F N) :
    appThread s (loggerBeat N) = .logger s.logger := by
  simp [appThread, loggerBeat]

theorem appThread_setProducer (s : RadarRT.State F N) (sh : Shared F) (pc : ProducerPc) :
    appThread { s with shared := sh, producer := pc } =
      Function.update (appThread s) producerBeat (.producer pc) := by
  funext i
  cases i with
  | zero => rfl
  | succ i => rw [Function.update_of_ne (by simp [producerBeat])]; rfl

theorem appThread_setWorker (s : RadarRT.State F N) (sh : Shared F) (i : Fin N)
    (pc : WorkerPc F) :
    appThread { s with shared := sh, workers := Function.update s.workers i pc } =
      Function.update (appThread s) (workerBeat i) (.worker pc) := by
  funext j
  by_cases hj : j = workerBeat i
  · subst hj
    simp [appThread_worker]
  · rw [Function.update_of_ne hj]
    cases j with
    | zero => rfl
    | succ j =>
      simp only [appThread]
      split
      · next hjN =>
        have hne : (⟨j, hjN⟩ : Fin N) ≠ i := by
          rintro rfl
          exact hj rfl
        rw [Function.update_of_ne hne]
      · rfl

theorem appThread_setLogger (s : RadarRT.State F N) (sh : Shared F) (pc : LoggerPc F) :
    appThread { s with shared := sh, logger := pc } =
      Function.update (appThread s) (loggerBeat N) (.logger pc) := by
  funext j
  by_cases hj : j = loggerBeat N
  · subst hj
    rw [Function.update_self, appThread_logger]
  · rw [Function.update_of_ne hj]
    cases j with
    | zero => rfl
    | succ j =>
      have hjN : j ≠ N := fun h => hj (by rw [h]; rfl)
      simp [appThread, hjN]

/-- A thread of the application moves, on the heartbeat it borrowed. -/
theorem ofApp_thread {s s' : RadarRT.State F N} {i : ℕ} {o : Outside F} {b : Body F}
    {sh : Shared F} (h : (appThread s i).step env i o s.shared = some (sh, b))
    (hs' : ofApp s' = { ofApp s with
      shared := sh
      threads := Function.update (appThread s) i b }) :
    Lts.Reaches (step env) (ofApp s) (ofApp s') := by
  refine Lts.Reaches.single (a := (.thread i, o)) ?_
  rw [hs']
  exact Option.map_eq_some_iff.mpr ⟨(sh, b), h, rfl⟩

/-- Main creates a thread of the application. -/
theorem ofApp_start {s s' : RadarRT.State F N} {i : ℕ} (o : Outside F) {b' : Body F}
    (h : (appThread s i).start = some b')
    (hs' : ofApp s' = { ofApp s with threads := Function.update (appThread s) i b' }) :
    Lts.Reaches (step env) (ofApp s) (ofApp s') := by
  refine Lts.Reaches.single (a := (.start i, o)) ?_
  rw [hs']
  exact Option.map_eq_some_iff.mpr ⟨b', h, rfl⟩

theorem ofApp_main {s s' : RadarRT.State F N} {o : Outside F} (h : MainMove o s s')
    (hst : Started s) : Lts.Reaches (step env) (ofApp s) (ofApp s') := by
  have hst := hst.starting
  cases h with
  | startLogger hm =>
    simp only [State.Starting, hm] at hst
    exact ofApp_start o (by rw [appThread_logger, hst]; rfl)
      (congrArg (State.mk · s.watchdog s.shared) (appThread_setLogger s s.shared .configure))
  | startWatchdog hm =>
    simp only [State.Starting, hm] at hst
    refine Lts.Reaches.single (a := (.startWatchdog, o)) ?_
    simp only [step, ofApp, hst.2]
    rfl
  | @startWorker k hk hm =>
    simp only [State.Starting, hm] at hst
    have hns := (hst.2.2 ⟨k, hk⟩).mpr le_rfl
    exact ofApp_start o (by rw [appThread_worker, hns]; rfl)
      (congrArg (State.mk · s.watchdog s.shared)
        (appThread_setWorker s s.shared ⟨k, hk⟩ .configure))
  | startProducer hm =>
    simp only [State.Starting, hm] at hst
    have hstart : (appThread s producerBeat).start = some (.producer .configure) := by
      show (Body.producer s.producer).start = _
      rw [hst.2.1]
      rfl
    exact ofApp_start o hstart
      (congrArg (State.mk · s.watchdog s.shared) (appThread_setProducer s s.shared .configure))
  | waitRequest | requestShutdown => exact Lts.Reaches.single (a := (.requestShutdown, o)) rfl
  | closeInput => exact Lts.Reaches.single (a := (.closeInput, o)) rfl
  | closeOutput => exact Lts.Reaches.single (a := (.closeOutput, o)) rfl
  | _ => exact Lts.Reaches.refl _

theorem ofApp_step {s s' : RadarRT.State F N} {a : RadarRT.Action F N}
    (h : RadarRT.step env s a = some s') (hst : Started s) :
    Lts.Reaches (step env) (ofApp s) (ofApp s') := by
  obtain ⟨actor, o⟩ := a
  cases actor with
  | main => exact ofApp_main (mainStep_cases h) hst
  | producer =>
    obtain ⟨⟨sh, pc⟩, hr, rfl⟩ := Option.map_eq_some_iff.mp h
    exact ofApp_thread (i := producerBeat) (Option.map_eq_some_iff.mpr ⟨_, hr, rfl⟩)
      (congrArg (State.mk · s.watchdog sh) (appThread_setProducer s sh pc))
  | worker i =>
    obtain ⟨⟨sh, pc⟩, hr, rfl⟩ := Option.map_eq_some_iff.mp h
    refine ofApp_thread (i := workerBeat i) (b := .worker pc) (o := o) ?_
      (congrArg (State.mk · s.watchdog sh) (appThread_setWorker s sh i pc))
    rw [appThread_worker]
    exact Option.map_eq_some_iff.mpr ⟨_, hr, rfl⟩
  | logger =>
    obtain ⟨⟨sh, pc⟩, hr, rfl⟩ := Option.map_eq_some_iff.mp h
    refine ofApp_thread (i := loggerBeat N) (b := .logger pc) (o := o) ?_
      (congrArg (State.mk · s.watchdog sh) (appThread_setLogger s sh pc))
    rw [appThread_logger]
    exact Option.map_eq_some_iff.mpr ⟨_, hr, rfl⟩
  | watchdog =>
    obtain ⟨⟨sh, pc⟩, hr, rfl⟩ := Option.map_eq_some_iff.mp h
    exact Lts.Reaches.single (a := (.watchdog, o)) (Option.map_eq_some_iff.mpr ⟨_, hr, rfl⟩)

theorem initial_ofApp (env : Env F) (t₀ : Time) : Initial (ofApp (initial env N t₀)) := by
  refine ⟨initialRegistry_heartbeats N, fun i => ?_, rfl⟩
  cases i with
  | zero => rfl
  | succ i =>
    simp only [ofApp, appThread]
    split
    · rfl
    · split <;> rfl

/-- Every run of the application is a run of the system the verdicts are about. -/
theorem ofApp_reaches {s : RadarRT.State F N} (h : Reachable env s) :
    ∃ s₀, Initial s₀ ∧ Lts.Reaches (step env) s₀ (ofApp s) := by
  obtain ⟨t₀, hreach⟩ := h
  exact ⟨_, initial_ofApp env t₀, Lts.run_simulated (π := ofApp) (I := Started)
    (fun _ _ _ hstep => started_move (step_move hstep)) (fun _ _ _ => ofApp_step) hreach
    (started_initial env t₀)⟩

end RadarRT.Watch
