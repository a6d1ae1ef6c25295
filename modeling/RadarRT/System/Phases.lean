import RadarRT.System.Moves

/-!
# The life of the application

What the position of the main thread says about the rest of the system: which threads have been
started, which are known to have finished, and which of the token and the two queues have been
shut. `Phases` holds in every reachable state, whichever `start()` failed.
-/

namespace RadarRT

variable {F : Type} {N : ℕ} {env : Env F} {beat : ℕ} {o : Outside F} {sh sh' : Shared F}

/-! ## What no thread undoes -/

/-- What every step of a thread other than main keeps of the shared state. -/
structure Shared.Extends (sh sh' : Shared F) : Prop where
  token : sh.token = true → sh'.token = true
  clock : sh.clock ≤ sh'.clock
  names : sh'.registry.names = sh.registry.names
  input : sh.input.Alike sh'.input
  output : sh.output.Alike sh'.output

theorem Shared.Extends.refl (sh : Shared F) : sh.Extends sh :=
  ⟨id, le_rfl, rfl, ⟨rfl, rfl, rfl⟩, ⟨rfl, rfl, rfl⟩⟩

theorem Shared.Extends.requestShutdown (sh : Shared F) : sh.Extends sh.requestShutdown :=
  ⟨fun _ => rfl, le_rfl, rfl, ⟨rfl, rfl, rfl⟩, ⟨rfl, rfl, rfl⟩⟩

theorem Ledger.push_alike {α : Type*} {l q : Ledger α} {v : α} {f : Bool}
    {r : Except QueueError Bool} (h : l.push v f = some (r, q)) : l.Alike q := by
  have hq : q = (l.enqueue v f).2 := congrArg Prod.snd (push_some h)
  rw [hq]
  exact l.enqueue_alike v f

theorem Ledger.waitAndPop_alike {α : Type*} {l q : Ledger α} {r : Option α}
    (h : l.waitAndPop = some (r, q)) : l.Alike q := by
  have hq : q = l.tryPop.2 := congrArg Prod.snd (waitAndPop_some h).2
  rw [hq]
  exact l.tryPop_alike

theorem Shared.Extends.setInput {q : Ledger (RadarSignal F)} (h : sh.input.Alike q) :
    sh.Extends { sh with input := q } :=
  { Shared.Extends.refl sh with input := h }

theorem Shared.Extends.setOutput {q : Ledger (LogRecord F)} (h : sh.output.Alike q) :
    sh.Extends { sh with output := q } :=
  { Shared.Extends.refl sh with output := h }

theorem Shared.Extends.setClock {t : Time} (h : sh.clock ≤ t) :
    sh.Extends { sh with clock := t } :=
  { Shared.Extends.refl sh with clock := h }

theorem ProducerMove.extends {pc pc' : ProducerPc} (h : ProducerMove env beat o sh pc sh' pc') :
    sh.Extends sh' := by
  cases h with
  | configure hle | readClock hle | missed hle | onTime hle => exact .setClock hle
  | pushed hp | refused hp | pushThrew _ hp => exact .setInput (Ledger.push_alike hp)
  | requestShutdown => exact .requestShutdown sh
  | _ => exact { Shared.Extends.refl sh with }

theorem WorkerMove.extends {pc pc' : WorkerPc F} (h : WorkerMove env beat o sh pc sh' pc') :
    sh.Extends sh' := by
  cases h with
  | readClock hle | readLatencyClock hle => exact .setClock hle
  | ended hp | took hp => exact .setInput (Ledger.waitAndPop_alike hp)
  | pushed hp | pushThrew _ hp => exact .setOutput (Ledger.push_alike hp)
  | requestShutdown => exact .requestShutdown sh
  | _ => exact { Shared.Extends.refl sh with }

theorem LoggerMove.extends {pc pc' : LoggerPc F} (h : LoggerMove env beat o sh pc sh' pc') :
    sh.Extends sh' := by
  cases h with
  | readClock hle => exact .setClock hle
  | ended hp | took hp => exact .setOutput (Ledger.waitAndPop_alike hp)
  | requestShutdown => exact .requestShutdown sh
  | _ => exact { Shared.Extends.refl sh with }

theorem WatchdogMove.extends {pc pc' : WatchdogPc} (h : WatchdogMove env o sh pc sh' pc') :
    sh.Extends sh' := by
  cases h with
  | readClock hle => exact .setClock hle
  | pushed hp | pushThrew _ hp => exact .setOutput (Ledger.push_alike hp)
  | escalate | requestShutdown => exact .requestShutdown sh
  | _ => exact { Shared.Extends.refl sh with }

/-! ## Only a running thread moves, and it stays started -/

theorem ProducerMove.alive {pc pc' : ProducerPc} (h : ProducerMove env beat o sh pc sh' pc') :
    pc.joined = false ∧ pc' ≠ .notStarted := by
  cases h <;> exact ⟨rfl, fun hpc => by cases hpc⟩

theorem WorkerMove.alive {pc pc' : WorkerPc F} (h : WorkerMove env beat o sh pc sh' pc') :
    pc.joined = false ∧ pc' ≠ .notStarted := by
  cases h <;> exact ⟨rfl, fun hpc => by cases hpc⟩

theorem LoggerMove.alive {pc pc' : LoggerPc F} (h : LoggerMove env beat o sh pc sh' pc') :
    pc.joined = false ∧ pc' ≠ .notStarted := by
  cases h <;> exact ⟨rfl, fun hpc => by cases hpc⟩

theorem WatchdogMove.alive {pc pc' : WatchdogPc} (h : WatchdogMove env o sh pc sh' pc') :
    pc.joined = false ∧ pc' ≠ .notStarted := by
  cases h <;> exact ⟨rfl, fun hpc => by cases hpc⟩

/-! ## Where main is -/

/-- The order of the program points of main. -/
def MainPc.stage : MainPc → ℕ
  | .startLogger => 0
  | .startWatchdog => 1
  | .startWorker _ => 2
  | .startProducer => 3
  | .waitTest | .waitPoll | .waitRequest => 4
  | .shutdown => 5
  | .requestShutdown => 6
  | .closeInput => 7
  | .joinProducer => 8
  | .joinWorker _ => 9
  | .closeOutput => 10
  | .joinLogger => 11
  | .joinWatchdog => 12
  | .returned => 13

/-- How many workers main has joined. -/
def MainPc.workersJoined (N : ℕ) : MainPc → ℕ
  | .joinWorker i => i
  | .closeOutput | .joinLogger | .joinWatchdog | .returned => N
  | _ => 0

theorem MainPc.workersJoined_eq_zero {pc : MainPc} (h : pc.stage < 9) :
    pc.workersJoined N = 0 := by
  cases pc <;> simp [stage] at h <;> rfl

theorem MainPc.workersJoined_eq {pc : MainPc} (h : 10 ≤ pc.stage) : pc.workersJoined N = N := by
  cases pc <;> simp [stage] at h <;> rfl

theorem MainPc.stage_le_three {pc : MainPc} (h : pc.starting = true) : pc.stage ≤ 3 := by
  cases pc <;> simp [starting] at h <;> simp [stage]

/-! ## Start-up -/

/-- How far `startThreads` has come, while main is in it. -/
def State.Starting (s : State F N) : Prop :=
  match s.main with
  | .startLogger => s.logger = .notStarted
  | .startWatchdog => s.logger ≠ .notStarted ∧ s.watchdog = .notStarted
  | .startWorker k => s.watchdog ≠ .notStarted ∧ s.producer = .notStarted ∧
      ∀ i, s.workers i = .notStarted ↔ k ≤ i.val
  | .startProducer => s.watchdog ≠ .notStarted ∧ s.producer = .notStarted ∧
      ∀ i, s.workers i ≠ .notStarted
  | _ => True

/-- Threads are started in order: the logger, the watchdog, the workers, the producer. -/
structure Started (s : State F N) : Prop where
  logger : s.logger = .notStarted → s.watchdog = .notStarted
  watchdog : s.watchdog = .notStarted → s.producer = .notStarted ∧ ∀ i, s.workers i = .notStarted
  workers : ∀ i, s.workers i = .notStarted → s.producer = .notStarted
  starting : s.Starting

/-- `Started` only looks at main and at who has not been started. -/
theorem Started.congr {s s' : State F N} (h : Started s) (hm : s'.main = s.main)
    (hp : s'.producer = .notStarted ↔ s.producer = .notStarted)
    (hw : ∀ i, s'.workers i = .notStarted ↔ s.workers i = .notStarted)
    (hl : s'.logger = .notStarted ↔ s.logger = .notStarted)
    (hd : s'.watchdog = .notStarted ↔ s.watchdog = .notStarted) : Started s' := by
  refine ⟨by rw [hl, hd]; exact h.logger, ?_, ?_, ?_⟩
  · rw [hd, hp]
    exact fun h' => ⟨(h.watchdog h').1, fun i => (hw i).mpr ((h.watchdog h').2 i)⟩
  · exact fun i hi => hp.mpr (h.workers i ((hw i).mp hi))
  · have hst := h.starting
    unfold State.Starting at hst ⊢
    rw [hm]
    cases hmain : s.main <;> rw [hmain] at hst <;>
      simp only [ne_eq, hp, hl, hd, hw] <;> exact hst

theorem started_initial (env : Env F) (t₀ : Time) : Started (initial env N t₀) :=
  ⟨fun _ => rfl, fun _ => ⟨rfl, fun _ => rfl⟩, fun _ _ => rfl, rfl⟩

theorem started_main {s s' : State F N} (h : MainMove o s s') (hs : Started s) :
    Started s' := by
  obtain ⟨hl, hd, hw, hst⟩ := hs
  cases h with
  | startLogger hm =>
    simp only [State.Starting, hm] at hst
    exact ⟨by nofun, hd, hw, by nofun, hl hst⟩
  | startWatchdog hm =>
    simp only [State.Starting, hm] at hst
    obtain ⟨hp, hws⟩ := hd hst.2
    exact ⟨fun h => absurd h hst.1, by nofun, hw, by nofun, hp,
      fun i => ⟨fun _ => Nat.zero_le _, fun _ => hws i⟩⟩
  | @startWorker k hk hm =>
    simp only [State.Starting, hm] at hst
    obtain ⟨hdog, hp, hws⟩ := hst
    refine ⟨hl, fun h => absurd h hdog, fun _ _ => hp, hdog, hp, ?_⟩
    intro i
    by_cases hi : i = ⟨k, hk⟩
    · subst hi
      simp
    · have hne : i.val ≠ k := fun h => hi (Fin.ext h)
      simp only [Function.update_of_ne hi, hws i]
      omega
  | @workersStarted k hk hm =>
    simp only [State.Starting, hm] at hst
    obtain ⟨hdog, hp, hws⟩ := hst
    refine ⟨hl, hd, hw, hdog, hp, ?_⟩
    intro i h
    have hki : k ≤ i.val := (hws i).mp h
    omega
  | startProducer hm =>
    simp only [State.Starting, hm] at hst
    exact ⟨hl, fun h => absurd h hst.1, fun i h => absurd h (hst.2.2 i), trivial⟩
  | _ => exact ⟨hl, hd, hw, trivial⟩

theorem started_move {s s' : State F N} {a : Action F N} (h : Move env s a s')
    (hs : Started s) : Started s' := by
  -- a thread that moves was started and stays so, hence the profile does not change
  cases h with
  | main hm => exact started_main hm hs
  | producer hm =>
    obtain ⟨hj, hne⟩ := hm.alive
    refine hs.congr rfl ⟨fun h => absurd h hne, fun h => ?_⟩ (fun _ => .rfl) .rfl .rfl
    rw [h] at hj
    cases hj
  | @worker i o sh pc hm =>
    obtain ⟨hj, hne⟩ := hm.alive
    refine hs.congr rfl .rfl (fun j => ?_) .rfl .rfl
    by_cases hji : j = i
    · subst hji
      simp only [Function.update_self]
      refine ⟨fun h => absurd h hne, ?_⟩
      intro h
      rw [h] at hj
      cases hj
    · simp only [Function.update_of_ne hji]
  | logger hm =>
    obtain ⟨hj, hne⟩ := hm.alive
    refine hs.congr rfl .rfl (fun _ => .rfl) ⟨fun h => absurd h hne, fun h => ?_⟩ .rfl
    rw [h] at hj
    cases hj
  | watchdog hm =>
    obtain ⟨hj, hne⟩ := hm.alive
    refine hs.congr rfl .rfl (fun _ => .rfl) .rfl ⟨fun h => absurd h hne, ?_⟩
    intro h
    rw [h] at hj
    cases hj

theorem Reachable.started {s : State F N} (h : Reachable env s) : Started s :=
  h.invariant (started_initial env) fun _ _ _ => started_move

/-! ## Teardown -/

/-- What `shutdown()` has done so far. -/
structure Teardown (s : State F N) : Prop where
  stopped : s.stopped = true ↔ 6 ≤ s.main.stage
  token : 7 ≤ s.main.stage → s.shared.token = true
  inputClosed : s.shared.input.queue.closed = true ↔ 8 ≤ s.main.stage
  outputClosed : s.shared.output.queue.closed = true ↔ 11 ≤ s.main.stage
  producer : 9 ≤ s.main.stage → s.producer.joined = true
  workers : ∀ i : Fin N, i.val < s.main.workersJoined N → (s.workers i).joined = true
  logger : 12 ≤ s.main.stage → s.logger.joined = true
  watchdog : 13 ≤ s.main.stage → s.watchdog.joined = true

theorem teardown_initial (env : Env F) (t₀ : Time) : Teardown (initial env N t₀) := by
  constructor <;> simp [initial, MainPc.stage, MainPc.workersJoined, Ledger.opened,
    ThreadSafeQueue.empty]

/-- A move of main before `closeInput` that shuts nothing. -/
theorem Teardown.early {s s' : State F N} (h : Teardown s) (hm : s.main.stage ≤ 5)
    (hm' : s'.main.stage ≤ 5) (hst : s'.stopped = s.stopped)
    (hi : s'.shared.input = s.shared.input) (ho : s'.shared.output = s.shared.output) :
    Teardown s' := by
  obtain ⟨hstop, -, hin, hout, -⟩ := h
  refine ⟨?_, by omega, ?_, ?_, by omega, ?_, by omega, by omega⟩
  · rw [hst, hstop]; omega
  · rw [hi, hin]; omega
  · rw [ho, hout]; omega
  · intro i h
    rw [MainPc.workersJoined_eq_zero (by omega)] at h
    omega

/-- Main completes stage `k` of `shutdown()`: what was done so far stays done, and the stage adds
its own part. -/
theorem Teardown.advance {s s' : State F N} (h : Teardown s) (k : ℕ) (hk : s.main.stage = k)
    (hk' : s'.main.stage = k + 1) (hlater : 5 ≤ k)
    (hstop : k = 5 ∨ s.stopped = true → s'.stopped = true)
    (htok : k = 6 ∨ s.shared.token = true → s'.shared.token = true)
    (hin : s'.shared.input.queue.closed = (decide (k = 7) || s.shared.input.queue.closed))
    (hout : s'.shared.output.queue.closed = (decide (k = 10) || s.shared.output.queue.closed))
    (hp : k = 8 ∨ s.producer.joined = true → s'.producer.joined = true)
    (hw : ∀ i : Fin N, i.val < s'.main.workersJoined N → (s'.workers i).joined = true)
    (hl : k = 11 ∨ s.logger.joined = true → s'.logger.joined = true)
    (hd : k = 12 ∨ s.watchdog.joined = true → s'.watchdog.joined = true) : Teardown s' := by
  refine ⟨?_, ?_, ?_, ?_, ?_, hw, ?_, ?_⟩
  · refine iff_of_true (hstop ?_) (by omega)
    by_cases h5 : k = 5
    · exact .inl h5
    · exact .inr (h.stopped.mpr (by omega))
  · intro h7
    apply htok
    by_cases h6 : k = 6
    · exact .inl h6
    · exact .inr (h.token (by omega))
  · rw [hin, Bool.or_eq_true, decide_eq_true_eq, h.inputClosed]
    omega
  · rw [hout, Bool.or_eq_true, decide_eq_true_eq, h.outputClosed]
    omega
  · intro h9
    apply hp
    by_cases h8 : k = 8
    · exact .inl h8
    · exact .inr (h.producer (by omega))
  · intro h12
    apply hl
    by_cases h11 : k = 11
    · exact .inl h11
    · exact .inr (h.logger (by omega))
  · intro h13
    apply hd
    by_cases h12 : k = 12
    · exact .inl h12
    · exact .inr (h.watchdog (by omega))

theorem teardown_main {s s' : State F N} (h : MainMove o s s') (hs : Teardown s) :
    Teardown s' := by
  have hjoined : ∀ i : Fin N, 10 ≤ s.main.stage → (s.workers i).joined = true := by
    intro i h10
    exact hs.workers i (by rw [MainPc.workersJoined_eq h10]; exact i.isLt)
  cases h with
  | startLogger hm | startWatchdog hm | startWorker _ hm | workersStarted _ hm
  | startProducer hm | seen hm | poll hm | timeout hm | signal hm | waitRequest hm =>
    exact hs.early (by simp [hm, MainPc.stage]) (by simp [MainPc.stage]) rfl rfl rfl
  | rollback hm =>
    have := MainPc.stage_le_three hm
    exact hs.early (by omega) (by simp [State.rollback, MainPc.stage]) rfl rfl rfl
  | again hm hst =>
    -- the guard is only ever reached once
    rw [hs.stopped, hm] at hst
    simp [MainPc.stage] at hst
  | shutdown hm hst =>
    exact hs.advance 5 (by rw [hm]; rfl) rfl (by omega) (fun _ => rfl) (by simp) (by simp)
      (by simp) (by simp) (by nofun) (by simp) (by simp)
  | requestShutdown hm =>
    exact hs.advance 6 (by rw [hm]; rfl) rfl (by omega) (by simp) (fun _ => rfl) (by simp) (by simp)
      (by simp) (by nofun) (by simp) (by simp)
  | closeInput hm =>
    exact hs.advance 7 (by rw [hm]; rfl) rfl (by omega) (by simp) (by simp) rfl (by simp) (by simp)
      (by nofun) (by simp) (by simp)
  | joinProducer hm hj =>
    exact hs.advance 8 (by rw [hm]; rfl) rfl (by omega) (by simp) (by simp) (by simp) (by simp)
      (fun _ => hj) (by nofun) (by simp) (by simp)
  | @joinWorker k hk hm hj =>
    -- the stage stays the same, the number of joined workers grows by this one
    have hstage : (MainPc.joinWorker (k + 1)).stage = s.main.stage := by rw [hm]; rfl
    refine ⟨hstage ▸ hs.stopped, hstage ▸ hs.token, hstage ▸ hs.inputClosed,
      hstage ▸ hs.outputClosed, hstage ▸ hs.producer, ?_, hstage ▸ hs.logger,
      hstage ▸ hs.watchdog⟩
    intro i hi
    by_cases hik : i.val < k
    · exact hs.workers i (by rw [hm]; exact hik)
    · have hi : i.val < k + 1 := hi
      have heq : i.val = k := by omega
      rwa [show i = ⟨k, hk⟩ from Fin.ext heq]
  | @workersJoined k hk hm =>
    refine hs.advance 9 (by rw [hm]; rfl) rfl (by omega) (by simp) (by simp) (by simp) (by simp)
      (by simp) ?_ (by simp) (by simp)
    intro i _
    exact hs.workers i (by rw [hm]; exact i.isLt.trans_le hk)
  | closeOutput hm =>
    exact hs.advance 10 (by rw [hm]; rfl) rfl (by omega) (by simp) (by simp) (by simp) rfl (by simp)
      (fun i _ => hjoined i (by rw [hm]; decide)) (by simp) (by simp)
  | joinLogger hm hj =>
    exact hs.advance 11 (by rw [hm]; rfl) rfl (by omega) (by simp) (by simp) (by simp) (by simp)
      (by simp) (fun i _ => hjoined i (by rw [hm]; decide)) (fun _ => hj) (by simp)
  | joinWatchdog hm hj =>
    exact hs.advance 12 (by rw [hm]; rfl) rfl (by omega) (by simp) (by simp) (by simp) (by simp)
      (by simp) (fun i _ => hjoined i (by rw [hm]; decide)) (by simp) (fun _ => hj)

/-- A thread other than main keeps the token and the closed flags. -/
theorem Teardown.shared {s : State F N} (h : Teardown s) (hext : s.shared.Extends sh') :
    Teardown { s with shared := sh' } := by
  obtain ⟨hstop, htok, hin, hout, hp, hw, hl, hd⟩ := h
  refine ⟨hstop, fun h => hext.token (htok h), ?_, ?_, hp, hw, hl, hd⟩
  · show sh'.input.queue.closed = true ↔ _
    rw [hext.input.closed, hin]
  · show sh'.output.queue.closed = true ↔ _
    rw [hext.output.closed, hout]

theorem teardown_move {s s' : State F N} {a : Action F N} (h : Move env s a s')
    (hs : Teardown s) : Teardown s' := by
  -- main has not joined a thread that still moves
  cases h with
  | main hm => exact teardown_main hm hs
  | producer hm =>
    refine { hs.shared hm.extends with producer := fun h => ?_ }
    have := hm.alive.1.symm.trans (hs.producer h)
    cases this
  | @worker i o sh pc hm =>
    refine { hs.shared hm.extends with workers := fun j hj => ?_ }
    by_cases hji : j = i
    · subst hji
      have := hm.alive.1.symm.trans (hs.workers j hj)
      cases this
    · simpa only [Function.update_of_ne hji] using hs.workers j hj
  | logger hm =>
    refine { hs.shared hm.extends with logger := fun h => ?_ }
    have := hm.alive.1.symm.trans (hs.logger h)
    cases this
  | watchdog hm =>
    refine { hs.shared hm.extends with watchdog := fun h => ?_ }
    have := hm.alive.1.symm.trans (hs.watchdog h)
    cases this

theorem Reachable.teardown {s : State F N} (h : Reachable env s) : Teardown s :=
  h.invariant (teardown_initial env) fun _ _ _ => teardown_move

/-! ## What construction fixes -/

/-- The policies of the two queues and the registered names. -/
structure Fixed (s : State F N) : Prop where
  input : s.shared.input.queue.policy = .block
  output : s.shared.output.queue.policy = .dropOldest
  names : s.shared.registry.names = (initialRegistry N).names

theorem Fixed.input_ne {s : State F N} (h : Fixed s) :
    s.shared.input.queue.policy ≠ .dropNewest := by
  rw [h.input]
  nofun

theorem Fixed.output_ne {s : State F N} (h : Fixed s) :
    s.shared.output.queue.policy ≠ .dropNewest := by
  rw [h.output]
  nofun

theorem fixed_main {s s' : State F N} (h : MainMove o s s') :
    s'.shared.input.queue.policy = s.shared.input.queue.policy ∧
      s'.shared.output.queue.policy = s.shared.output.queue.policy ∧
      s'.shared.registry = s.shared.registry := by
  cases h <;> exact ⟨rfl, rfl, rfl⟩

theorem Fixed.extends {s s' : State F N} (hs : Fixed s) (h : s.shared.Extends s'.shared) :
    Fixed s' :=
  ⟨h.input.policy.trans hs.input, h.output.policy.trans hs.output, h.names.trans hs.names⟩

theorem fixed_move {s s' : State F N} {a : Action F N} (h : Move env s a s') (hs : Fixed s) :
    Fixed s' := by
  cases h with
  | main hm =>
    obtain ⟨hi, ho, hr⟩ := fixed_main hm
    exact ⟨hi.trans hs.input, ho.trans hs.output, by rw [hr, hs.names]⟩
  | producer hm => exact hs.extends hm.extends
  | worker hm => exact hs.extends hm.extends
  | logger hm => exact hs.extends hm.extends
  | watchdog hm => exact hs.extends hm.extends

theorem Reachable.fixed {s : State F N} (h : Reachable env s) : Fixed s :=
  h.invariant (fun _ => ⟨rfl, rfl, rfl⟩) fun _ _ _ => fixed_move

/-- All of the above. -/
structure Phases (s : State F N) : Prop where
  started : Started s
  teardown : Teardown s
  fixed : Fixed s

theorem phases_initial (env : Env F) (t₀ : Time) : Phases (initial env N t₀) :=
  ⟨started_initial env t₀, teardown_initial env t₀, ⟨rfl, rfl, rfl⟩⟩

theorem phases_move {s s' : State F N} {a : Action F N} (h : Move env s a s') (hs : Phases s) :
    Phases s' :=
  ⟨started_move h hs.started, teardown_move h hs.teardown, fixed_move h hs.fixed⟩

/-! ## Runs without a thread exception -/

/-- An exception has reached the `catch (...)` of the thread. -/
def ProducerPc.threw : ProducerPc → Bool
  | .recordThreadException | .requestShutdown | .finished true => true
  | _ => false

def WorkerPc.threw : WorkerPc F → Bool
  | .recordThreadException _ | .requestShutdown _ | .finished (.died _) => true
  | _ => false

def LoggerPc.threw : LoggerPc F → Bool
  | .recordThreadException | .requestShutdown | .finished true => true
  | _ => false

def WatchdogPc.threw : WatchdogPc → Bool
  | .recordThreadException | .requestShutdown | .finished true => true
  | _ => false

/-- No thread has ended, or is about to end, by an exception. -/
structure State.Calm (s : State F N) : Prop where
  producer : s.producer.threw = false
  workers : ∀ i, (s.workers i).threw = false
  logger : s.logger.threw = false
  watchdog : s.watchdog.threw = false

theorem ProducerMove.threw_mono {pc pc' : ProducerPc}
    (h : ProducerMove env beat o sh pc sh' pc') (h' : pc'.threw = false) : pc.threw = false := by
  cases h <;> first | rfl | cases h'

theorem WorkerMove.threw_mono {pc pc' : WorkerPc F} (h : WorkerMove env beat o sh pc sh' pc')
    (h' : pc'.threw = false) : pc.threw = false := by
  cases h <;> first | rfl | cases h'

theorem LoggerMove.threw_mono {pc pc' : LoggerPc F} (h : LoggerMove env beat o sh pc sh' pc')
    (h' : pc'.threw = false) : pc.threw = false := by
  cases h <;> first | rfl | cases h'

theorem WatchdogMove.threw_mono {pc pc' : WatchdogPc} (h : WatchdogMove env o sh pc sh' pc')
    (h' : pc'.threw = false) : pc.threw = false := by
  cases h <;> first | rfl | cases h'

/-- A run that is calm at its end was calm all along. -/
theorem calm_of_move {s s' : State F N} {a : Action F N} (h : Move env s a s')
    (hst : Started s) (hs' : s'.Calm) : s.Calm := by
  obtain ⟨hp, hw, hl, hd⟩ := hs'
  have hst := hst.starting
  cases h with
  | main hm =>
    cases hm with
    | startLogger hm =>
      simp only [State.Starting, hm] at hst
      exact ⟨hp, hw, by rw [hst]; rfl, hd⟩
    | startWatchdog hm =>
      simp only [State.Starting, hm] at hst
      exact ⟨hp, hw, hl, by rw [hst.2]; rfl⟩
    | @startWorker k hk hm =>
      simp only [State.Starting, hm] at hst
      refine ⟨hp, fun i => ?_, hl, hd⟩
      by_cases hi : i = ⟨k, hk⟩
      · subst hi
        rw [(hst.2.2 _).mpr le_rfl]
        rfl
      · simpa only [Function.update_of_ne hi] using hw i
    | startProducer hm =>
      simp only [State.Starting, hm] at hst
      exact ⟨by rw [hst.2.1]; rfl, hw, hl, hd⟩
    | _ => exact ⟨hp, hw, hl, hd⟩
  | producer hm => exact ⟨hm.threw_mono hp, hw, hl, hd⟩
  | @worker i o sh pc hm =>
    refine ⟨hp, fun j => ?_, hl, hd⟩
    by_cases hji : j = i
    · subst hji
      exact hm.threw_mono (by simpa using hw j)
    · simpa only [Function.update_of_ne hji] using hw j
  | logger hm => exact ⟨hp, hw, hm.threw_mono hl, hd⟩
  | watchdog hm => exact ⟨hp, hw, hl, hm.threw_mono hd⟩

/-- Induction over a run whose steps meet `P` and in which no thread throws. -/
theorem calm_run_invariant {P : State F N → Action F N → Prop} {I : State F N → Prop}
    (hstep : ∀ s a s', Move env s a s' → Phases s → P s a → s'.Calm → I s → I s')
    {u s : State F N} {as : List (Action F N)} (hu : Phases u) (h₀ : I u)
    (hrun : Lts.run (step env) u as = some s) (hP : Lts.Along (step env) P u as)
    (hc : s.Calm) : I s := by
  have hall : Phases s ∧ (s.Calm → I s) :=
    Lts.run_invariant_along (I := fun s => Phases s ∧ (s.Calm → I s))
      (fun s a s' hs hPs hI => ⟨phases_move (step_move hs) hI.1, fun hc' =>
        hstep s a s' (step_move hs) hI.1 hPs hc'
          (hI.2 (calm_of_move (step_move hs) hI.1.started hc'))⟩)
      hrun hP ⟨hu, fun _ => h₀⟩
  exact hall.2 hc

theorem phases_of_run {t₀ : Time} {as : List (Action F N)} {s : State F N}
    (h : Lts.run (step env) (initial env N t₀) as = some s) : Phases s :=
  Lts.run_invariant (fun _ _ _ hs => phases_move (step_move hs)) h (phases_initial env t₀)

theorem Reachable.calm_invariant {I : State F N → Prop} (h₀ : ∀ t₀, I (initial env N t₀))
    (hstep : ∀ s a s', Move env s a s' → Phases s → s'.Calm → I s → I s')
    {s : State F N} (h : Reachable env s) (hc : s.Calm) : I s := by
  obtain ⟨t₀, as, hrun⟩ := h
  exact calm_run_invariant (P := fun _ _ => True) (fun s a s' hm hph _ => hstep s a s' hm hph)
    (phases_initial env t₀) (h₀ t₀) hrun (Lts.along_of_forall (fun _ _ => trivial) _) hc

end RadarRT
