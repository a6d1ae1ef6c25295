import RadarRT.System.Process

/-!
# The wait for a shutdown request

How long `SignalHandler::waitForShutdown` keeps main once there is a reason to shut down. A signal
stays pending until main reads it, so the next `ppoll` reports it; a token that another thread has
set is seen at the loop test after the `ppoll` under way. Two ranks count what main has left to do.
With a negative poll interval the kernel refuses the very first `ppoll`, and main is out of the wait
after that.
-/

namespace RadarRT.Process

variable {F : Type} {N : ℕ} {env : Process.Env F} {p p' : Process F N} {a : Action F N}

/-! ## The way out of the wait -/

/-- How many more steps main makes in the wait once there is a reason to leave it. -/
def waitRank (pc : MainPc) (token : Bool) (call : WaitCall) : ℕ :=
  match pc with
  | .startLogger | .startWatchdog | .startWorker _ | .startProducer | .waitTest =>
    if token then 1 else 5
  | .waitPoll => if call = .ppoll then 4 else 3
  | .waitRequest => 2
  | _ => 0

/-- How many more times it calls `ppoll`. -/
def pollRank (pc : MainPc) (token : Bool) : ℕ :=
  match pc with
  | .startLogger | .startWatchdog | .startWorker _ | .startProducer | .waitTest =>
    if token then 0 else 1
  | _ => 0

/-- A signal that was sent is still pending until main has read it, and main reads only then. -/
structure Waits (p : Process F N) : Prop where
  sent : p.sent = true → p.pending.any = true ∨ p.system.main = .waitRequest ∨
    5 ≤ p.system.main.stage
  call : p.call = .read → p.system.main = .waitPoll

/-- There is a reason to shut down. -/
def Due (p : Process F N) : Prop := p.system.shared.token = true ∨ p.sent = true

theorem any_raise (p : Pending) (signal : ShutdownSignal) : (p.raise signal).any = true := by
  cases signal <;> simp [Pending.raise, Pending.any]

/-- What a step of main outside the kernel does to the two ranks. -/
theorem mainStep_rank {o : Outside F} {s s' : State F N} (hpc : s.main ≠ .waitPoll)
    (h : RadarRT.mainStep o s = some s') (c : WaitCall) :
    waitRank s'.main s'.shared.token .ppoll + (if s.main.stage = 4 then 1 else 0) ≤
        waitRank s.main s.shared.token c ∧
      (if s'.main = .waitPoll then 1 else 0) + pollRank s'.main s'.shared.token ≤
        pollRank s.main s.shared.token := by
  by_cases htest : s.main = .waitTest
  · simp only [RadarRT.mainStep, htest, Option.some.injEq] at h
    subst h
    cases s.shared.token <;> simp [waitRank, pollRank, htest, MainPc.stage]
  · cases mainStep_cases h with
    | seen hm | poll hm => exact absurd hm htest
    | timeout hm | signal hm => exact absurd hm hpc
    | rollback hs =>
      have hstage := MainPc.stage_le_three hs
      rw [if_neg (by omega)]
      exact ⟨Nat.zero_le _, Nat.zero_le _⟩
    | startLogger hm | startWatchdog hm | startWorker _ hm | workersStarted _ hm
    | startProducer hm | waitRequest hm | again hm | shutdown hm | requestShutdown hm
    | closeInput hm | joinProducer hm | joinWorker _ hm | workersJoined _ hm | closeOutput hm
    | joinLogger hm | joinWatchdog hm =>
      simp [waitRank, pollRank, MainPc.stage, hm]

theorem waits_initial (env : Process.Env F) (t₀ : Time) : Waits (initial env N t₀) := by
  refine ⟨fun h => ?_, fun h => ?_⟩
  · cases h
  · cases h

/-- Main outside the kernel goes forward. -/
theorem mainStep_stage {o : Outside F} {s s' : State F N} (h : RadarRT.mainStep o s = some s')
    (hs : s.main = .waitRequest ∨ 5 ≤ s.main.stage) : 5 ≤ s'.main.stage := by
  cases mainStep_cases h with
  | rollback hst =>
    have hstage := MainPc.stage_le_three hst
    obtain hm | h5 := hs
    · rw [hm] at hst
      cases hst
    · omega
  | startLogger hm | startWatchdog hm | startWorker _ hm | workersStarted _ hm | startProducer hm
  | seen hm | poll hm | timeout hm | signal hm =>
    simp [hm, MainPc.stage] at hs
  | _ => simp [MainPc.stage]

theorem waits_move (h : Move env p a p') (hp : Waits p) : Waits p' := by
  obtain ⟨hsent, hcall⟩ := hp
  cases h with
  | kill => exact ⟨fun _ => .inl (any_raise _ _), hcall⟩
  | main hpc hs =>
    refine ⟨fun h => ?_, fun h => absurd (hcall h) hpc⟩
    obtain hpend | hlate := hsent h
    · exact .inl hpend
    · exact .inr (.inr (mainStep_stage hs hlate))
  | thread hne hs =>
    obtain ⟨hmain, -, -⟩ := thread_main hne hs
    exact ⟨by rw [hmain]; exact hsent, by rw [hmain]; exact hcall⟩
  | again hpc hcall' _ hpend =>
    refine ⟨fun h => ?_, fun h => by cases h⟩
    obtain h' | h' | h' := hsent h
    · rw [hpend] at h'
      cases h'
    · rw [hpc] at h'
      cases h'
    · simp [hpc, MainPc.stage] at h'
  | readable hpc _ _ hpend => exact ⟨fun _ => .inl hpend, fun _ => hpc⟩
  | pollFailed | readFailed | taken => exact ⟨fun _ => .inr (.inl rfl), fun h => by cases h⟩
  | fatal | success => exact ⟨hsent, hcall⟩

/-- A process that is due stays so. -/
theorem due_move (h : Move env p a p') (hp : Due p) : Due p' := by
  cases h with
  | kill => exact .inr rfl
  | main _ hs =>
    refine hp.imp_left fun ht => ?_
    cases mainStep_cases hs with
    | waitRequest | requestShutdown => rfl
    | _ => exact ht
  | thread hne hs => exact hp.imp_left (thread_main hne hs).2.2.token
  | _ => exact hp

theorem waitRank_token (pc : MainPc) {t t' : Bool} (h : t = true → t' = true) (c : WaitCall) :
    waitRank pc t' c ≤ waitRank pc t c ∧ pollRank pc t' ≤ pollRank pc t := by
  cases t <;> cases t' <;> simp at h <;> cases pc <;> simp [waitRank, pollRank]

theorem waitRank_le (pc : MainPc) (token : Bool) (call : WaitCall) :
    waitRank pc token call ≤ 5 ∧ pollRank pc token ≤ 1 := by
  cases token <;> cases call <;> cases pc <;> simp [waitRank, pollRank]

theorem waiting_iff : p.waiting = true ↔ p.system.main.stage = 4 := by
  unfold waiting
  cases p.system.main <;> simp [MainPc.stage]

/-- Once there is a reason to leave, every step of main in the wait brings it nearer to the end. -/
theorem rank_move (h : Move env p a p') (hp : Waits p) (hdue : Due p) :
    p'.waitSteps + waitRank p'.system.main p'.system.shared.token p'.call ≤
        p.waitSteps + waitRank p.system.main p.system.shared.token p.call ∧
      p'.polls + pollRank p'.system.main p'.system.shared.token ≤
        p.polls + pollRank p.system.main p.system.shared.token := by
  cases h with
  | kill | fatal | success => exact ⟨le_rfl, le_rfl⟩
  | main hpc hs =>
    have hcall : p.call = .ppoll := by
      cases hc : p.call with
      | ppoll => rfl
      | read => exact absurd (hp.call hc) hpc
    obtain ⟨hwait, hpoll⟩ := mainStep_rank hpc hs p.call
    simp only [waiting_iff, hcall] at hwait ⊢
    refine ⟨?_, ?_⟩
    · split at hwait
      · next h4 =>
        rw [if_pos h4]
        omega
      · next h4 =>
        rw [if_neg h4]
        omega
    · split at hpoll
      · next hw =>
        rw [if_pos hw]
        omega
      · next hw =>
        rw [if_neg hw]
        omega
  | thread hne hs =>
    obtain ⟨hmain, -, hext⟩ := thread_main hne hs
    obtain ⟨hwait, hpoll⟩ := waitRank_token p.system.main hext.token p.call
    simp only [hmain]
    omega
  | again hpc hcall _ hpend =>
    -- nothing is pending, so the reason is the token, and the loop test sees it
    have htoken : p.system.shared.token = true := by
      obtain ht | hs := hdue
      · exact ht
      · obtain h' | h' | h' := hp.sent hs
        · rw [hpend] at h'
          cases h'
        · rw [hpc] at h'
          cases h'
        · simp [hpc, MainPc.stage] at h'
    simp [leave, waitRank, pollRank, htoken, hpc, hcall]
  | readable hpc hcall => simp [waitRank, hpc, hcall]
  | pollFailed hpc hcall => simp [leave, waitRank, pollRank, hpc, hcall]
  | readFailed hpc hcall | taken hpc hcall => simp [leave, waitRank, pollRank, hpc, hcall]

/-- The wait is never stuck: the kernel has some result for every call. -/
theorem wait_enabled [Inhabited F] (env : Process.Env F) (h : p.waiting = true) :
    ∃ a, (step env p a).map waitSteps = some (p.waitSteps + 1) := by
  let o : Outside F := { samples := fun _ => default }
  have hcases : p.system.main = .waitTest ∨ p.system.main = .waitPoll ∨
      p.system.main = .waitRequest := by
    unfold waiting at h
    split at h <;> simp_all
  obtain hm | hm | hm := hcases
  · exact ⟨.thread (.main, o), by simp [step, mainStep, RadarRT.mainStep, hm, h]⟩
  · cases hc : p.call with
    | ppoll =>
      by_cases hv : (timespecOf env.pollInterval).Valid
      · cases hp : p.pending.any with
        | true => exact ⟨.ppoll (.ready true), by simp [step, hm, hc, admits, hv, hp]⟩
        | false => exact ⟨.ppoll .timeout, by simp [step, hm, hc, admits, hv, hp, leave]⟩
      · refine ⟨.ppoll (.error EINVAL), ?_⟩
        simp [step, hm, hc, admits, hv, EINVAL, EINTR, leave]
    | read => exact ⟨.read (.error EIO), by simp [step, hm, hc, leave]⟩
  · exact ⟨.thread (.main, o), by simp [step, mainStep, RadarRT.mainStep, hm, h]⟩

/-- From the moment a shutdown signal is sent or the token is set, main calls `ppoll` at most once
more and leaves the wait after at most five of its own steps, and until then it can always make
the next one. -/
theorem shutdown_latency [Inhabited F] {t₀ : Time} {as : List (Action F N)}
    (h : Lts.Reaches (step env) (initial env N t₀) p) (hdue : Due p)
    (hrun : Lts.run (step env) p as = some p') :
    p'.polls ≤ p.polls + 1 ∧ p'.waitSteps ≤ p.waitSteps + 5 ∧
      (p'.waiting = true → ∃ a, (step env p' a).map waitSteps = some (p'.waitSteps + 1)) := by
  have hwaits : Waits p := h.invariant (fun _ _ _ hs => waits_move (step_move hs))
    (waits_initial env t₀)
  obtain ⟨-, -, hwait, hpoll⟩ := Lts.run_invariant
    (I := fun q => Waits q ∧ Due q ∧
      q.waitSteps + waitRank q.system.main q.system.shared.token q.call ≤
        p.waitSteps + waitRank p.system.main p.system.shared.token p.call ∧
      q.polls + pollRank q.system.main q.system.shared.token ≤
        p.polls + pollRank p.system.main p.system.shared.token)
    (fun q a q' hs ⟨hw, hd, h₁, h₂⟩ =>
      have hr := rank_move (step_move hs) hw hd
      ⟨waits_move (step_move hs) hw, due_move (step_move hs) hd, hr.1.trans h₁, hr.2.trans h₂⟩)
    hrun ⟨hwaits, hdue, le_rfl, le_rfl⟩
  have hbound := waitRank_le p.system.main p.system.shared.token p.call
  refine ⟨by omega, by omega, wait_enabled env⟩

theorem shutdown_latency_signalled : ∃ p p' : Process ℕ 0,
    Lts.run (step silentProcess) (initial silentProcess 0 0) (mainOnly 5 ++ [.kill .sigint]) =
      some p ∧
    Lts.run (step silentProcess) p [.ppoll (.ready true), .read (.bytes 128)] = some p' ∧
      p'.polls ≤ p.polls + 1 ∧ p'.waitSteps ≤ p.waitSteps + 5 ∧
      (p'.waiting = true →
        ∃ a, (step silentProcess p' a).map waitSteps = some (p'.waitSteps + 1)) := by
  obtain ⟨p, hrun, hsent, hsome⟩ := Lts.exists_run (step silentProcess) (initial silentProcess 0 0)
    (mainOnly 5 ++ [.kill .sigint]) (fun p => p.sent = true ∧
      (Lts.run (step silentProcess) p [.ppoll (.ready true), .read (.bytes 128)]).isSome = true)
    (by decide +kernel)
  obtain ⟨p', hrun'⟩ := Option.isSome_iff_exists.mp hsome
  exact ⟨p, p', hrun, hrun', shutdown_latency ⟨_, hrun⟩ (.inr hsent) hrun'⟩

/-! ## A negative poll interval -/

/-- The steps main has left in the wait when the kernel refuses its timeout. -/
def stepsToRefusal (pc : MainPc) : ℕ :=
  match pc with
  | .startLogger | .startWatchdog | .startWorker _ | .startProducer | .waitTest => 3
  | .waitPoll => 2
  | .waitRequest => 1
  | _ => 0

/-- The kernel refuses the timeout: `ppoll` is called once, and the wait ends with its error. -/
structure Refused (env : Process.Env F) (p : Process F N) : Prop where
  call : p.call = .ppoll
  polls : p.polls ≤ 1
  early : p.system.main.starting = true ∨ p.system.main = .waitTest → p.polls = 0
  steps : p.waitSteps + stepsToRefusal p.system.main ≤ 3
  request : p.system.main = .waitRequest → p.failure = some ⟨"ppoll", EINVAL⟩
  late : 5 ≤ p.system.main.stage → p.polls = 1 →
    p.system.shared.token = true ∧ waitFailedLine env ⟨"ppoll", EINVAL⟩ ∈ p.stderr

theorem refused_initial (env : Process.Env F) (t₀ : Time) : Refused env (initial env N t₀) where
  call := rfl
  polls := Nat.zero_le _
  early := fun _ => rfl
  steps := le_rfl
  request := fun h => by cases h
  late := fun h => absurd h (by simp [initial, RadarRT.initial, MainPc.stage])

theorem mainStep_stepsToRefusal {o : Outside F} {s s' : State F N}
    (hpc : s.main ≠ .waitPoll) (h : RadarRT.mainStep o s = some s') :
    (if s.main.stage = 4 then 1 else 0) + stepsToRefusal s'.main ≤ stepsToRefusal s.main := by
  cases mainStep_cases h with
  | timeout hm | signal hm => exact absurd hm hpc
  | rollback hs =>
    have hstage := MainPc.stage_le_three hs
    rw [if_neg (by omega)]
    exact Nat.zero_le _
  | startLogger hm | startWatchdog hm | startWorker _ hm | workersStarted _ hm
  | startProducer hm | seen hm | poll hm | waitRequest hm | again hm | shutdown hm
  | requestShutdown hm | closeInput hm | joinProducer hm | joinWorker _ hm | workersJoined _ hm
  | closeOutput hm | joinLogger hm | joinWatchdog hm =>
    simp [stepsToRefusal, MainPc.stage, hm]

theorem refused_main {o : Outside F} {s' : State F N} (hp : Refused env p)
    (hpc : p.system.main ≠ .waitPoll) (hs : RadarRT.mainStep o p.system = some s') :
    Refused env { p with
      system := s'
      failure := none
      polls := if s'.main = .waitPoll then p.polls + 1 else p.polls
      waitSteps := if p.waiting then p.waitSteps + 1 else p.waitSteps
      stderr := p.stderr ++ (p.failure.map (waitFailedLine env)).toList } := by
  have hsteps : (if p.waiting then p.waitSteps + 1 else p.waitSteps) + stepsToRefusal s'.main ≤
      3 := by
    have hle := mainStep_stepsToRefusal hpc hs
    have := hp.steps
    simp only [waiting_iff]
    split at hle
    · next h4 =>
      rw [if_pos h4]
      omega
    · next h4 =>
      rw [if_neg h4]
      omega
  obtain ⟨hcall, hpolls, hearly, -, hrequest, hlate⟩ := hp
  cases mainStep_cases hs with
  | timeout hm | signal hm => exact absurd hm hpc
  | poll hm =>
    have hzero := hearly (.inr hm)
    exact ⟨hcall, by simp [hzero], by simp [MainPc.starting], hsteps, by simp,
      by simp [MainPc.stage]⟩
  | rollback hst =>
    have hzero := hearly (.inl hst)
    exact ⟨hcall, by simp [State.rollback, hzero], by simp [State.rollback, hzero], hsteps,
      by simp [State.rollback], by simp [State.rollback, hzero]⟩
  | startLogger hm | startWatchdog hm | startWorker _ hm | workersStarted _ hm
  | startProducer hm =>
    have hzero := hearly (.inl (by rw [hm]; rfl))
    exact ⟨hcall, by simp [hzero], by simp [hzero], hsteps, by simp, by simp [MainPc.stage]⟩
  | seen hm =>
    have hzero := hearly (.inr hm)
    exact ⟨hcall, by simp [hzero], by simp [hzero], hsteps, by simp, by simp [hzero]⟩
  | waitRequest hm =>
    refine ⟨hcall, by simpa using hpolls, by simp [MainPc.starting], hsteps, by simp,
      fun _ _ => ⟨rfl, ?_⟩⟩
    simp [hrequest hm]
  | requestShutdown hm =>
    refine ⟨hcall, by simpa using hpolls, by simp [MainPc.starting], hsteps, by simp,
      fun _ hone => ⟨rfl, ?_⟩⟩
    exact List.mem_append_left _ (hlate (by simp [hm, MainPc.stage]) (by simpa using hone)).2
  | again hm | shutdown hm | closeInput hm | joinProducer hm | joinWorker _ hm
  | workersJoined _ hm | closeOutput hm | joinLogger hm | joinWatchdog hm =>
    refine ⟨hcall, by simpa using hpolls, by simp [MainPc.starting], hsteps, by simp,
      fun _ hone => ?_⟩
    obtain ⟨htoken, hline⟩ := hlate (by simp [hm, MainPc.stage]) (by simpa using hone)
    exact ⟨htoken, List.mem_append_left _ hline⟩

theorem not_valid_of_neg (hneg : env.pollInterval.toInt < 0) :
    ¬ (timespecOf env.pollInterval).Valid := by
  rw [timespecOf_valid_iff]
  omega

theorem refused_move (hneg : env.pollInterval.toInt < 0) (h : Move env p a p')
    (hp : Refused env p) : Refused env p' := by
  have hinvalid := not_valid_of_neg hneg
  cases h with
  | kill | success => exact ⟨hp.call, hp.polls, hp.early, hp.steps, hp.request, hp.late⟩
  | fatal =>
    refine ⟨hp.call, hp.polls, hp.early, hp.steps, hp.request, fun h hone => ?_⟩
    obtain ⟨htoken, hline⟩ := hp.late h hone
    exact ⟨htoken, List.mem_append_left _ hline⟩
  | main hpc hs => exact refused_main hp hpc hs
  | thread hne hs =>
    obtain ⟨hmain, -, hext⟩ := thread_main hne hs
    refine ⟨hp.call, hp.polls, by rw [hmain]; exact hp.early, by rw [hmain]; exact hp.steps,
      by rw [hmain]; exact hp.request, ?_⟩
    rw [hmain]
    exact fun h hone => ⟨hext.token (hp.late h hone).1, (hp.late h hone).2⟩
  | again _ _ hv | readable _ _ hv => exact absurd hv hinvalid
  | pollFailed hpc _ he =>
    obtain hv | rfl := he
    · exact absurd hv hinvalid
    · have hsteps := hp.steps
      rw [hpc] at hsteps
      refine ⟨rfl, hp.polls, by simp [leave, MainPc.starting], ?_, fun _ => rfl,
        by simp [leave, MainPc.stage]⟩
      simp only [leave, stepsToRefusal] at hsteps ⊢
      omega
  | readFailed _ hread | taken _ hread =>
    rw [hp.call] at hread
    cases hread

/-- What the wait comes to when the kernel refuses its timeout. -/
structure RefusedWait (env : Process.Env F) (p : Process F N) : Prop where
  /-- The call can only return `EINVAL`. -/
  enabled : step env p (.ppoll (.error EINVAL)) =
    some (p.leave .waitRequest (some ⟨"ppoll", EINVAL⟩))
  /-- It can return nothing else, and no other thread takes main out of it. -/
  only : ∀ a p', step env p a = some p' →
    a = .ppoll (.error EINVAL) ∨ p'.system.main = .waitPoll ∧ p'.call = .ppoll
  /-- And the next step of main reports it and requests the shutdown. -/
  handled : ∀ o, ∃ p', step env (p.leave .waitRequest (some ⟨"ppoll", EINVAL⟩))
    (.thread (.main, o)) = some p' ∧ p'.system.main = .shutdown ∧
      p'.system.shared.token = true ∧ waitFailedLine env ⟨"ppoll", EINVAL⟩ ∈ p'.stderr

theorem Refused.wait (hp : Refused env p) (hneg : env.pollInterval.toInt < 0)
    (hpc : p.system.main = .waitPoll) : RefusedWait env p := by
  have hinvalid := not_valid_of_neg hneg
  refine ⟨?_, fun a p' hs => ?_, fun o => ?_⟩
  · simp [step, hpc, hp.call, admits, hinvalid, EINVAL, EINTR]
  · cases step_move hs with
    | kill => exact .inr ⟨hpc, hp.call⟩
    | main hne => exact absurd hpc hne
    | thread hne hthread => exact .inr ⟨(thread_main hne hthread).1.trans hpc, hp.call⟩
    | again _ _ hv | readable _ _ hv => exact absurd hv hinvalid
    | pollFailed _ _ he =>
      obtain hv | rfl := he
      · exact absurd hv hinvalid
      · exact .inl rfl
    | readFailed _ hread | taken _ hread =>
      rw [hp.call] at hread
      cases hread
    | fatal hm | success hm =>
      rw [hpc] at hm
      cases hm
  · refine ⟨_, rfl, rfl, rfl, ?_⟩
    simp [leave]

/-- With a negative poll interval, which `Config` accepts, main does not get past its first wait:
`ppoll` is called at most once, the kernel can only refuse it, and this is reported and handled as
a request. Main is out of the wait after at most three steps of its own, and until then it can
always make the next one. -/
theorem negative_interval_refused [Inhabited F] {t₀ : Time} (hneg : env.pollInterval.toInt < 0)
    (h : Lts.Reaches (step env) (initial env N t₀) p) :
    p.polls ≤ 1 ∧ p.waitSteps ≤ 3 ∧
      (p.waiting = true → ∃ a, (step env p a).map waitSteps = some (p.waitSteps + 1)) ∧
      (p.system.main = .waitPoll → RefusedWait env p) ∧
      (5 ≤ p.system.main.stage → p.polls = 1 →
        p.system.shared.token = true ∧ waitFailedLine env ⟨"ppoll", EINVAL⟩ ∈ p.stderr) := by
  have hrefused : Refused env p := h.invariant
    (fun _ _ _ hs => refused_move hneg (step_move hs)) (refused_initial env t₀)
  have hsteps := hrefused.steps
  exact ⟨hrefused.polls, by omega, wait_enabled env, hrefused.wait hneg, hrefused.late⟩

def negativeProcess : Process.Env ℕ := { silentProcess with pollInterval := -1 }

/-- Before the call, and after it has been handled. -/
theorem negative_interval_refused_once : ∃ p p' : Process ℕ 0,
    Lts.run (step negativeProcess) (initial negativeProcess 0 0) (mainOnly 5) = some p ∧
    Lts.run (step negativeProcess) p ([.ppoll (.error EINVAL)] ++ mainOnly 1) = some p' ∧
    RefusedWait negativeProcess p ∧ p'.polls = 1 ∧ p'.system.shared.token = true ∧
      waitFailedLine negativeProcess ⟨"ppoll", EINVAL⟩ ∈ p'.stderr := by
  obtain ⟨p, hrun, hpc, hsome⟩ := Lts.exists_run (step negativeProcess)
    (initial negativeProcess 0 0) (mainOnly 5) (fun p => p.system.main = .waitPoll ∧
      (Lts.run (step negativeProcess) p ([.ppoll (.error EINVAL)] ++ mainOnly 1)).any
        (fun p => decide (p.system.main.stage = 5 ∧ p.polls = 1)) = true) (by decide +kernel)
  obtain ⟨p', hrun', hafter⟩ := (Option.any_eq_true _ _).mp hsome
  obtain ⟨hstage, hpolls⟩ := of_decide_eq_true hafter
  obtain ⟨-, -, -, hwait, -⟩ := negative_interval_refused (by decide) ⟨_, hrun⟩
  have hreach : Lts.Reaches (step negativeProcess) (initial negativeProcess 0 0) p' :=
    Lts.Reaches.trans ⟨_, hrun⟩ ⟨_, hrun'⟩
  obtain ⟨-, -, -, -, hlate⟩ := negative_interval_refused (by decide) hreach
  obtain ⟨htoken, hline⟩ := hlate hstage.ge hpolls
  exact ⟨p, p', hrun, hrun', hwait hpc, hpolls, htoken, hline⟩

end RadarRT.Process
