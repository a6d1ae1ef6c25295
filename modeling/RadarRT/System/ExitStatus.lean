import RadarRT.System.Process

/-!
# The exit status

When the process exits, and with which status. `run` rethrows exactly when a `start()` threw; the
producer is started last, so this is the same as never having started it. After that nothing is left
that could run, so what has been printed is all there will be.
-/

namespace RadarRT.Process

variable {F : Type} {N : ℕ} {env : Process.Env F} {p p' : Process F N} {a : Action F N}

/-- A `start()` that failed is remembered until the end, and the producer is started last. -/
structure Outcome (s : State F N) : Prop where
  failed : s.rethrow = true → s.producer = .notStarted ∧ 5 ≤ s.main.stage
  succeeded : s.rethrow = false → 4 ≤ s.main.stage → s.producer ≠ .notStarted

theorem producer_notStarted {s : State F N} (h : Started s) (hs : s.main.starting = true) :
    s.producer = .notStarted := by
  have hst := h.starting
  unfold State.Starting at hst
  cases hm : s.main with
  | startLogger =>
    rw [hm] at hst
    exact (h.watchdog (h.logger hst)).1
  | startWatchdog =>
    rw [hm] at hst
    exact (h.watchdog hst.2).1
  | startWorker i =>
    rw [hm] at hst
    exact hst.2.1
  | startProducer =>
    rw [hm] at hst
    exact hst.2.1
  | _ => simp [hm, MainPc.starting] at hs

theorem outcome_move {env : RadarRT.Env F} {s s' : State F N} {a : RadarRT.Action F N}
    (h : RadarRT.Move env s a s') (hst : Started s) (hs : Outcome s) : Outcome s' := by
  obtain ⟨hfail, hok⟩ := hs
  cases h with
  | main h =>
    cases h with
    | rollback hstart =>
      have hnone := producer_notStarted hst hstart
      exact ⟨fun _ => ⟨hnone, le_rfl⟩, fun h => by cases h⟩
    | startProducer hm =>
      refine ⟨fun h => ?_, fun _ _ h => by cases h⟩
      have := (hfail h).2
      rw [hm] at this
      simp [MainPc.stage] at this
    | startLogger hm | startWatchdog hm | startWorker _ hm | workersStarted _ hm | seen hm
    | poll hm | timeout hm | signal hm | waitRequest hm | again hm | shutdown hm
    | requestShutdown hm | closeInput hm | joinProducer hm | joinWorker _ hm | workersJoined _ hm
    | closeOutput hm | joinLogger hm | joinWatchdog hm =>
      simp only [hm, MainPc.stage] at hfail hok
      exact ⟨fun h => ⟨(hfail h).1, by have := (hfail h).2; simp [MainPc.stage] at this ⊢⟩,
        fun h h4 => hok h (by simp [MainPc.stage] at h4 ⊢)⟩
  | producer hm =>
    refine ⟨fun h => ?_, fun _ _ => hm.alive.2⟩
    have halive := hm.alive.1
    rw [(hfail h).1] at halive
    cases halive
  | worker | logger | watchdog => exact ⟨hfail, hok⟩

theorem outcome_of_reachable {env : RadarRT.Env F} {s : State F N} (h : Reachable env s) :
    Outcome s := by
  refine (h.invariant (I := fun s => Started s ∧ Outcome s) ?_ ?_).2
  · intro t₀
    refine ⟨started_initial env t₀, fun h => ?_, fun _ h => ?_⟩
    · cases h
    · simp [RadarRT.initial, MainPc.stage] at h
  · rintro s a s' hm ⟨hst, hs⟩
    exact ⟨started_move hm hst, outcome_move hm hst hs⟩

/-- Every thread has been started. -/
structure Complete (s : State F N) : Prop where
  producer : s.producer ≠ .notStarted
  workers : ∀ i, s.workers i ≠ .notStarted
  logger : s.logger ≠ .notStarted
  watchdog : s.watchdog ≠ .notStarted

theorem complete_of_producer {s : State F N} (h : Started s) (hp : s.producer ≠ .notStarted) :
    Complete s where
  producer := hp
  workers := fun i hi => hp (h.workers i hi)
  logger := fun hl => hp (h.watchdog (h.logger hl)).1
  watchdog := fun hd => hp (h.watchdog hd).1

/-- Every thread has finished or was never started. -/
structure Joined (s : State F N) : Prop where
  producer : s.producer.joined = true
  workers : ∀ i, (s.workers i).joined = true
  logger : s.logger.joined = true
  watchdog : s.watchdog.joined = true

theorem joined_of_returned {s : State F N} (h : Teardown s) (hm : s.main = .returned) :
    Joined s where
  producer := h.producer (by rw [hm]; simp [MainPc.stage])
  workers := fun i => h.workers i (by rw [hm]; exact i.isLt)
  logger := h.logger (by rw [hm]; simp [MainPc.stage])
  watchdog := h.watchdog (by rw [hm]; simp [MainPc.stage])

/-- Nothing moves in an application that has returned. -/
theorem returned_final (env : RadarRT.Env F) {s s' : State F N} (a : RadarRT.Action F N)
    (h : RadarRT.step env s a = some s') (hj : Joined s) (hm : s.main = .returned) : False := by
  obtain ⟨hp, hw, hl, hd⟩ := hj
  cases RadarRT.step_move h with
  | main =>
    simp only [RadarRT.step, RadarRT.mainStep, hm] at h
    cases h
  | producer hmove => exact Bool.false_ne_true (hmove.alive.1.symm.trans hp)
  | worker hmove => exact Bool.false_ne_true (hmove.alive.1.symm.trans (hw _))
  | logger hmove => exact Bool.false_ne_true (hmove.alive.1.symm.trans hl)
  | watchdog hmove => exact Bool.false_ne_true (hmove.alive.1.symm.trans hd)

/-! ## What has been printed -/

theorem toSink_grows (sh : Shared F) (j : ℕ) (e : SinkEvent) (k : ℕ) :
    sh.sinks k <+: (sh.toSink j e).sinks k := by
  rw [Shared.toSink_sinks]
  by_cases hk : k = j
  · subst hk
    rw [Function.update_self]
    exact List.prefix_append _ _
  · rw [Function.update_of_ne hk]

theorem logger_sinks_grow {env : RadarRT.Env F} {beat : ℕ} {o : Outside F} {sh sh' : Shared F}
    {pc pc' : LoggerPc F} (h : LoggerMove env beat o sh pc sh' pc') (k : ℕ) :
    sh.sinks k <+: sh'.sinks k := by
  cases h with
  | write | flush => exact toSink_grows _ _ _ k
  | _ => exact List.prefix_rfl

/-- What a sink has been given it keeps. -/
theorem sinks_grow {env : RadarRT.Env F} {s s' : State F N} {a : RadarRT.Action F N}
    (h : RadarRT.step env s a = some s') (k : ℕ) : s.shared.sinks k <+: s'.shared.sinks k := by
  cases RadarRT.step_move h with
  | main hm => cases hm <;> exact List.prefix_rfl
  | producer hm =>
    rw [hm.output_eq.2.2]
  | worker hm =>
    rw [hm.popped_sinks.2]
  | watchdog hm =>
    rw [hm.popped_sinks.2]
  | logger hm => exact logger_sinks_grow hm k

theorem consoleLines_grow {s s' : State F N} {a : RadarRT.Action F N}
    (h : RadarRT.step env.toEnv s a = some s') :
    env.consoleLines s.shared.sinks <+: env.consoleLines s'.shared.sinks := by
  unfold Env.consoleLines
  split
  · exact (sinks_grow h 0).filterMap _
  · exact List.prefix_rfl

theorem mainStep_sinks {o : Outside F} {s s' : State F N} (h : RadarRT.mainStep o s = some s') :
    s'.shared.sinks = s.shared.sinks := by
  cases mainStep_cases h <;> rfl

/-- While the process runs only the console has printed; at the end the summary may follow. -/
structure Exited (env : Process.Env F) (p : Process F N) : Prop where
  running : p.exitStatus = none → p.stdout = env.consoleLines p.system.shared.sinks
  exited : ∀ code, p.exitStatus = some code → p.system.main = .returned ∧
    (code = 0 ∧ p.system.rethrow = false ∧
        p.stdout = env.consoleLines p.system.shared.sinks ++ [summary p.system.shared.metrics] ∨
      code = 1 ∧ p.system.rethrow = true ∧ p.stdout = env.consoleLines p.system.shared.sinks)

theorem exited_initial (env : Process.Env F) (t₀ : Time) : Exited env (initial env N t₀) := by
  refine ⟨fun _ => ?_, fun _ h => by cases h⟩
  unfold Env.consoleLines
  split <;> rfl

theorem exited_move (h : Move env p a p') (ht : Teardown p.system) (hp : Exited env p) :
    Exited env p' := by
  obtain ⟨hrun, hex⟩ := hp
  have hwaits : p.system.main = .waitPoll → p.exitStatus = none := by
    intro hpc
    by_contra hne
    obtain ⟨code, hcode⟩ := Option.ne_none_iff_exists'.mp hne
    have hret := (hex code hcode).1
    rw [hpc] at hret
    cases hret
  cases h with
  | kill | readable => exact ⟨hrun, hex⟩
  | @main o s' _ hs =>
    refine ⟨?_, fun code hcode => ?_⟩
    · dsimp only
      rw [mainStep_sinks hs]
      exact hrun
    · have hret := (hex code hcode).1
      exact (returned_final (env.toEnv) (.main, o) hs (joined_of_returned ht hret) hret).elim
  | @thread a s' _ hs =>
    refine ⟨fun hnone => ?_, fun code hcode => ?_⟩
    · -- what the step prints is what it adds to the lines of the console
      obtain ⟨added, hadded⟩ := consoleLines_grow hs
      show p.stdout ++ _ = env.consoleLines s'.shared.sinks
      rw [hrun hnone, ← hadded, List.drop_left]
    · have hret := (hex code hcode).1
      exact (returned_final _ _ hs (joined_of_returned ht hret) hret).elim
  | again hpc | pollFailed hpc | readFailed hpc | taken hpc =>
    refine ⟨hrun, fun code hcode => ?_⟩
    have hnone := hwaits hpc
    rw [show p.exitStatus = some code from hcode] at hnone
    cases hnone
  | fatal hm hnone hre =>
    refine ⟨fun h => (by cases h), fun code hcode => ?_⟩
    cases hcode
    exact ⟨hm, .inr ⟨rfl, hre, hrun hnone⟩⟩
  | success hm hnone hre =>
    refine ⟨fun h => (by cases h), fun code hcode => ?_⟩
    cases hcode
    refine ⟨hm, .inl ⟨rfl, hre, ?_⟩⟩
    show p.stdout ++ _ = _
    rw [hrun hnone]

/-- When the process exits every thread has been joined, the token is set and both queues are
closed. It succeeds exactly when all threads had been started, neither a failed wait nor the
exceptions of the threads change that, and then the summary follows the lines of the console on
standard output; otherwise there is no summary. -/
theorem exit_status [Inhabited F] {t₀ : Time} {code : ℕ}
    (h : Lts.Reaches (step env) (initial env N t₀) p) (hcode : p.exitStatus = some code) :
    Joined p.system ∧ p.system.shared.token = true ∧
      p.system.shared.input.queue.closed = true ∧ p.system.shared.output.queue.closed = true ∧
      (code = 0 ∧ Complete p.system ∧
          p.stdout = env.consoleLines p.system.shared.sinks ++ [summary p.system.shared.metrics] ∨
        code = 1 ∧ p.system.producer = .notStarted ∧
          p.stdout = env.consoleLines p.system.shared.sinks) := by
  obtain ⟨hreach, hexited⟩ := h.invariant
    (I := fun q => Reachable env.toEnv q.system ∧ Exited env q)
    (fun q a q' hs ⟨hr, he⟩ => by
      have hm := step_move hs
      obtain ⟨t, hr'⟩ := hr
      exact ⟨⟨t, hr'.trans hm.system⟩, exited_move hm (Reachable.teardown ⟨t, hr'⟩) he⟩)
    ⟨⟨t₀, Lts.Reaches.refl _⟩, exited_initial env t₀⟩
  obtain ⟨hm, hout⟩ := hexited.exited code hcode
  have ht := hreach.teardown
  have houtcome := outcome_of_reachable hreach
  have hstage : p.system.main.stage = 13 := by rw [hm]; rfl
  refine ⟨joined_of_returned ht hm, ht.token (by omega), ht.inputClosed.mpr (by omega),
    ht.outputClosed.mpr (by omega), ?_⟩
  obtain ⟨h0, hre, hstd⟩ | ⟨h1, hre, hstd⟩ := hout
  · exact .inl ⟨h0, complete_of_producer hreach.started (houtcome.succeeded hre (by omega)), hstd⟩
  · exact .inr ⟨h1, (houtcome.failed hre).1, hstd⟩

/-- One signal is logged on the console, then a signal arrives, and the summary comes last. -/
def loggedRun : List (Action ℕ 1) :=
  let worker : Actor 1 := .worker ⟨0, Nat.one_pos⟩
  (plainly 5 0 .main ++ plainly 13 0 .producer ++ plainly 16 0 worker ++
      plainly 1 0 .main).map .thread ++
    [.kill .sigterm, .ppoll (.ready true), .read (.bytes 128)] ++
    (plainly 4 0 .main ++ plainly 1 0 .producer ++ plainly 2 0 worker ++ plainly 4 0 .main ++
      plainly 15 0 .logger ++ plainly 2 0 .watchdog ++ plainly 2 0 .main).map .thread ++
    [.finish ""]

theorem exit_status_loggedRun : ∃ p : Process ℕ 1,
    Lts.run (step silentProcess) (initial silentProcess 1 0) loggedRun = some p ∧
    p.exitStatus = some 0 ∧ p.stdout.length = 2 ∧ Joined p.system ∧
      p.system.shared.token = true ∧
      p.system.shared.input.queue.closed = true ∧ p.system.shared.output.queue.closed = true ∧
      (0 = 0 ∧ Complete p.system ∧
          p.stdout = silentProcess.consoleLines p.system.shared.sinks ++
            [summary p.system.shared.metrics] ∨
        0 = 1 ∧ p.system.producer = .notStarted ∧
          p.stdout = silentProcess.consoleLines p.system.shared.sinks) := by
  obtain ⟨p, hrun, hexit, hlines⟩ := Lts.exists_run (step silentProcess)
    (initial silentProcess 1 0) loggedRun (fun p => p.exitStatus = some 0 ∧ p.stdout.length = 2)
    (by decide +kernel)
  exact ⟨p, hrun, hexit, hlines, exit_status ⟨_, hrun⟩ hexit⟩

end RadarRT.Process
