import Mathlib.Algebra.Order.BigOperators.Group.Finset
import RadarRT.Lib.Tally
import RadarRT.System.Phases
import RadarRT.System.Schedules

/-!
# Threads that die

Every thread body ends in the same `catch (...)`: count the exception, request shutdown, finish.
The counter therefore says how many threads have died, exactly, once all of them are joined; and a
dead thread has always set the token. Conversely nothing sets the token without a reason: while
main is still starting threads or waiting, a token that is set means that a thread has died, or
that the watchdog has counted a stall and is configured to escalate.
-/

namespace RadarRT

open Finset

variable {F : Type} {N : ℕ} {env : Env F} {beat : ℕ} {o : Outside F} {sh sh' : Shared F}

/-! ## Counting -/

/-- One for a thread whose exception `recordThreadException` has counted. -/
def ProducerPc.counted : ProducerPc → ℕ
  | .requestShutdown | .finished true => 1
  | _ => 0

def WorkerPc.counted : WorkerPc F → ℕ
  | .requestShutdown _ | .finished (.died _) => 1
  | _ => 0

def LoggerPc.counted : LoggerPc F → ℕ
  | .requestShutdown | .finished true => 1
  | _ => 0

def WatchdogPc.counted : WatchdogPc → ℕ
  | .requestShutdown | .finished true => 1
  | _ => 0

/-- One for a thread that has ended by an exception. -/
def ProducerPc.deaths : ProducerPc → ℕ
  | .finished true => 1
  | _ => 0

def WorkerPc.deaths : WorkerPc F → ℕ
  | .finished (.died _) => 1
  | _ => 0

def LoggerPc.deaths : LoggerPc F → ℕ
  | .finished true => 1
  | _ => 0

def WatchdogPc.deaths : WatchdogPc → ℕ
  | .finished true => 1
  | _ => 0

/-- How many threads have their exception counted. -/
def State.counted (s : State F N) : ℕ :=
  s.producer.counted + s.logger.counted + s.watchdog.counted + ∑ i, (s.workers i).counted

/-- How many threads have ended by an exception. -/
def State.deaths (s : State F N) : ℕ :=
  s.producer.deaths + s.logger.deaths + s.watchdog.deaths + ∑ i, (s.workers i).deaths

/-! ## One step -/

/-- What a step of a thread does to the counter and to its own end. -/
structure Shared.Dies (sh sh' : Shared F) (counted counted' deaths deaths' : ℕ) : Prop where
  counter : sh'.metrics.threadExceptions + counted = sh.metrics.threadExceptions + counted'
  alive : deaths = 0
  token : 0 < deaths' → sh'.token = true

theorem ProducerMove.dies {pc pc' : ProducerPc} (h : ProducerMove env beat o sh pc sh' pc') :
    sh.Dies sh' pc.counted pc'.counted pc.deaths pc'.deaths := by
  cases h <;> exact ⟨rfl, rfl, fun h => by first | rfl | cases h⟩

theorem WorkerMove.dies {pc pc' : WorkerPc F} (h : WorkerMove env beat o sh pc sh' pc') :
    sh.Dies sh' pc.counted pc'.counted pc.deaths pc'.deaths := by
  cases h <;> exact ⟨rfl, rfl, fun h => by first | rfl | cases h⟩

theorem LoggerMove.dies {pc pc' : LoggerPc F} (h : LoggerMove env beat o sh pc sh' pc') :
    sh.Dies sh' pc.counted pc'.counted pc.deaths pc'.deaths := by
  cases h <;> exact ⟨rfl, rfl, fun h => by first | rfl | cases h⟩

theorem WatchdogMove.dies {pc pc' : WatchdogPc} (h : WatchdogMove env o sh pc sh' pc') :
    sh.Dies sh' pc.counted pc'.counted pc.deaths pc'.deaths := by
  cases h <;> exact ⟨rfl, rfl, fun h => by first | rfl | cases h⟩

/-! ## Every state -/

/-- The counter is exact, and a death is never silent. -/
structure DeathsCounted (s : State F N) : Prop where
  counter : s.shared.metrics.threadExceptions = s.counted
  token : 0 < s.deaths → s.shared.token = true

theorem deathsCounted_main {s s' : State F N} (h : MainMove o s s') (hst : Started s)
    (hs : DeathsCounted s) : DeathsCounted s' := by
  have hst := hst.starting
  obtain ⟨hcounter, htoken⟩ := hs
  -- a thread that is started has not died before
  cases h with
  | startLogger hm =>
    simp only [State.Starting, hm] at hst
    simp only [State.counted, State.deaths, hst] at hcounter htoken
    exact ⟨hcounter, htoken⟩
  | startWatchdog hm =>
    simp only [State.Starting, hm] at hst
    simp only [State.counted, State.deaths, hst.2] at hcounter htoken
    exact ⟨hcounter, htoken⟩
  | @startWorker k hk hm =>
    simp only [State.Starting, hm] at hst
    have hnot : s.workers ⟨k, hk⟩ = .notStarted := (hst.2.2 _).mpr le_rfl
    have hc : ∑ i, (Function.update s.workers ⟨k, hk⟩ WorkerPc.configure i).counted =
        ∑ i, (s.workers i).counted := Tally.sum_update_eq (by rw [hnot]; rfl)
    have hd : ∑ i, (Function.update s.workers ⟨k, hk⟩ WorkerPc.configure i).deaths =
        ∑ i, (s.workers i).deaths := Tally.sum_update_eq (by rw [hnot]; rfl)
    refine ⟨?_, ?_⟩
    · simp only [State.counted, hc]
      exact hcounter
    · simp only [State.deaths, hd]
      exact htoken
  | startProducer hm =>
    simp only [State.Starting, hm] at hst
    simp only [State.counted, State.deaths, hst.2.1] at hcounter htoken
    exact ⟨hcounter, htoken⟩
  | waitRequest | requestShutdown => exact ⟨hcounter, fun _ => rfl⟩
  | _ => exact ⟨hcounter, htoken⟩

/-- One thread moves: its own part of the totals changes, and the token stays set. -/
theorem DeathsCounted.thread {s s' : State F N} (hs : DeathsCounted s) {c c' d d' : ℕ}
    (hd : s.shared.Dies s'.shared c c' d d') (hext : s.shared.Extends s'.shared)
    (hcounted : s'.counted + c = s.counted + c') (hdeaths : s'.deaths + d = s.deaths + d') :
    DeathsCounted s' := by
  have hcounter := hs.counter
  have hcounter' := hd.counter
  refine ⟨by omega, ?_⟩
  intro h
  rcases Nat.eq_zero_or_pos d' with h0 | hpos
  · have halive := hd.alive
    exact hext.token (hs.token (by omega))
  · exact hd.token hpos

theorem deathsCounted_move {s s' : State F N} {a : Action F N} (h : Move env s a s')
    (hst : Started s) (hs : DeathsCounted s) : DeathsCounted s' := by
  cases h with
  | main hm => exact deathsCounted_main hm hst hs
  | producer hm =>
    refine hs.thread hm.dies hm.extends ?_ ?_
    · simp only [State.counted]
      omega
    · simp only [State.deaths]
      omega
  | @worker i o sh pc hm =>
    have hc := Tally.sum_update_add WorkerPc.counted s.workers i pc
    have hd := Tally.sum_update_add WorkerPc.deaths s.workers i pc
    refine hs.thread hm.dies hm.extends ?_ ?_
    · simp only [State.counted]
      omega
    · simp only [State.deaths]
      omega
  | logger hm =>
    refine hs.thread hm.dies hm.extends ?_ ?_
    · simp only [State.counted]
      omega
    · simp only [State.deaths]
      omega
  | watchdog hm =>
    refine hs.thread hm.dies hm.extends ?_ ?_
    · simp only [State.counted]
      omega
    · simp only [State.deaths]
      omega

theorem deathsCounted_initial (env : Env F) (t₀ : Time) : DeathsCounted (initial env N t₀) := by
  have hzero : (initial env N t₀).counted = 0 := by
    simp [State.counted, initial, ProducerPc.counted, LoggerPc.counted, WatchdogPc.counted,
      WorkerPc.counted]
  have hdeaths : (initial env N t₀).deaths = 0 := by
    simp [State.deaths, initial, ProducerPc.deaths, LoggerPc.deaths, WatchdogPc.deaths,
      WorkerPc.deaths]
  exact ⟨hzero.symm, fun h => absurd h (by omega)⟩

theorem Reachable.deathsCounted {s : State F N} (h : Reachable env s) : DeathsCounted s := by
  have hboth : Started s ∧ DeathsCounted s :=
    h.invariant (I := fun s => Started s ∧ DeathsCounted s)
      (fun t₀ => ⟨started_initial env t₀, deathsCounted_initial env t₀⟩)
      (fun _ _ _ hm hI => ⟨started_move hm hI.1, deathsCounted_move hm hI.1 hI.2⟩)
  exact hboth.2

/-! ## At the end -/

theorem ProducerPc.counted_of_joined {pc : ProducerPc} (h : pc.joined = true) :
    pc.counted = pc.deaths := by
  cases pc with
  | notStarted => rfl
  | finished died => cases died <;> rfl
  | _ => cases h

theorem WorkerPc.counted_of_joined {pc : WorkerPc F} (h : pc.joined = true) :
    pc.counted = pc.deaths := by
  cases pc with
  | notStarted => rfl
  | finished exit => cases exit <;> rfl
  | _ => cases h

theorem LoggerPc.counted_of_joined {pc : LoggerPc F} (h : pc.joined = true) :
    pc.counted = pc.deaths := by
  cases pc with
  | notStarted => rfl
  | finished died => cases died <;> rfl
  | _ => cases h

theorem WatchdogPc.counted_of_joined {pc : WatchdogPc} (h : pc.joined = true) :
    pc.counted = pc.deaths := by
  cases pc with
  | notStarted => rfl
  | finished died => cases died <;> rfl
  | _ => cases h

theorem counted_of_returned {s : State F N} (h : Teardown s) (hm : s.main = .returned) :
    s.counted = s.deaths := by
  have hstage : s.main.stage = 13 := by rw [hm]; rfl
  have hworkers : ∀ i, (s.workers i).counted = (s.workers i).deaths := by
    intro i
    refine WorkerPc.counted_of_joined (h.workers i ?_)
    rw [MainPc.workersJoined_eq (by omega)]
    exact i.isLt
  rw [State.counted, State.deaths, ProducerPc.counted_of_joined (h.producer (by omega)),
    LoggerPc.counted_of_joined (h.logger (by omega)),
    WatchdogPc.counted_of_joined (h.watchdog (by omega)), sum_congr rfl fun i _ => hworkers i]

/-- In every state the counter of thread exceptions is the number of threads whose `catch (...)`
has counted; a thread that died has set the token; and when `run` is over, the counter is the
number of threads that died. -/
theorem thread_exceptions_exact {s : State F N} (h : Reachable env s) :
    s.shared.metrics.threadExceptions = s.counted ∧
      (0 < s.deaths → s.shared.token = true) ∧
      (s.main = .returned → s.shared.metrics.threadExceptions = s.deaths) := by
  refine ⟨h.deathsCounted.counter, h.deathsCounted.token, ?_⟩
  intro hm
  rw [h.deathsCounted.counter, counted_of_returned h.teardown hm]

/-- A worker dies with a signal in its hands, and the logger cannot flush its sink: two deaths. -/
theorem thread_exceptions_exact_two :
    ∃ s : State ℕ 1, Reachable silentDefaults s ∧ s.main = .returned ∧ s.deaths = 2 ∧
      s.shared.metrics.threadExceptions = 2 := by
  obtain ⟨s, hrun, hm, hdeaths⟩ := Lts.exists_run (step silentDefaults) (initial silentDefaults 1 0)
    (plainly 5 0 .main ++ plainly 6 0 .producer ++ plainly 3 0 (.worker 0) ++
      [throwing (.worker 0)] ++ plainly 2 0 (.worker 0) ++ plainly 4 0 .main ++
      plainly 8 0 .producer ++ plainly 4 0 .main ++ plainly 3 0 .logger ++ [throwing .logger] ++
      plainly 2 0 .logger ++ plainly 2 0 .watchdog ++ plainly 2 0 .main)
    (fun s => s.main = .returned ∧ s.deaths = 2) (by decide +kernel)
  obtain ⟨-, -, hreturned⟩ := thread_exceptions_exact (reachable_of_run hrun)
  exact ⟨s, reachable_of_run hrun, hm, hdeaths, (hreturned hm).trans hdeaths⟩

/-! ## Why the token is set -/

/-- The watchdog has counted every stall that its scan remembers. -/
def WatchdogPc.Escalates (env : Env F) (stalls : ℕ) : WatchdogPc → Prop
  | .loadState sc | .loadTimestamp sc => sc.stallDetected = true → 0 < stalls
  | .push _ _ => 0 < stalls
  | .escalate => env.config.escalateToShutdown = true ∧ 0 < stalls
  | _ => True

theorem WatchdogPc.Escalates.mono {pc : WatchdogPc} {n m : ℕ} (h : pc.Escalates env n)
    (hle : n ≤ m) : pc.Escalates env m := by
  cases pc with
  | loadState sc | loadTimestamp sc => exact fun hsc => (h hsc).trans_le hle
  | push sc age => exact Nat.lt_of_lt_of_le h hle
  | escalate => exact ⟨h.1, h.2.trans_le hle⟩
  | _ => trivial

theorem WatchdogMove.escalates {pc pc' : WatchdogPc} (h : WatchdogMove env o sh pc sh' pc')
    (hpc : pc.Escalates env sh.metrics.watchdogStalls) :
    pc'.Escalates env sh'.metrics.watchdogStalls := by
  cases h with
  | readClock hle => exact fun hsc => by cases hsc
  | skip | running | fresh => exact hpc
  | escalating hlast hstall hesc => exact ⟨hesc, hpc hstall⟩
  | recordWatchdogStall => exact Nat.succ_pos _
  | pushed hp => exact fun _ => hpc
  | _ => trivial

/-- A thread died, or the watchdog escalated a stall that it counted. -/
def State.Cause (env : Env F) (s : State F N) : Prop :=
  0 < s.deaths ∨
    env.config.escalateToShutdown = true ∧ 0 < s.shared.metrics.watchdogStalls

structure Caused (env : Env F) (s : State F N) : Prop where
  cause : s.main.stage ≤ 4 → s.shared.token = true → s.Cause env
  watchdog : s.watchdog.Escalates env s.shared.metrics.watchdogStalls

/-- Who sets the token, other than main. -/
structure Shared.Sets (env : Env F) (sh sh' : Shared F) (deaths' : ℕ) : Prop where
  stalls : sh.metrics.watchdogStalls ≤ sh'.metrics.watchdogStalls
  token : sh'.token = true → sh.token = true ∨ 0 < deaths' ∨
    env.config.escalateToShutdown = true ∧ 0 < sh'.metrics.watchdogStalls

theorem ProducerMove.sets {pc pc' : ProducerPc} (h : ProducerMove env beat o sh pc sh' pc') :
    sh.Sets env sh' pc'.deaths := by
  cases h with
  | requestShutdown => exact ⟨le_rfl, fun _ => .inr (.inl Nat.one_pos)⟩
  | _ => exact ⟨le_rfl, fun h => .inl h⟩

theorem WorkerMove.sets {pc pc' : WorkerPc F} (h : WorkerMove env beat o sh pc sh' pc') :
    sh.Sets env sh' pc'.deaths := by
  cases h with
  | requestShutdown => exact ⟨le_rfl, fun _ => .inr (.inl Nat.one_pos)⟩
  | _ => exact ⟨le_rfl, fun h => .inl h⟩

theorem LoggerMove.sets {pc pc' : LoggerPc F} (h : LoggerMove env beat o sh pc sh' pc') :
    sh.Sets env sh' pc'.deaths := by
  cases h with
  | requestShutdown => exact ⟨le_rfl, fun _ => .inr (.inl Nat.one_pos)⟩
  | _ => exact ⟨le_rfl, fun h => .inl h⟩

theorem WatchdogMove.sets {pc pc' : WatchdogPc} (h : WatchdogMove env o sh pc sh' pc')
    (hpc : pc.Escalates env sh.metrics.watchdogStalls) : sh.Sets env sh' pc'.deaths := by
  cases h with
  | requestShutdown => exact ⟨le_rfl, fun _ => .inr (.inl Nat.one_pos)⟩
  | escalate => exact ⟨le_rfl, fun _ => .inr (.inr hpc)⟩
  | recordWatchdogStall => exact ⟨Nat.le_succ _, fun h => .inl h⟩
  | _ => exact ⟨le_rfl, fun h => .inl h⟩

theorem State.Cause.mono {s s' : State F N} (h : s.Cause env) (hdeaths : s.deaths ≤ s'.deaths)
    (hstalls : s.shared.metrics.watchdogStalls ≤ s'.shared.metrics.watchdogStalls) :
    s'.Cause env := by
  obtain hdied | ⟨hesc, hstall⟩ := h
  · exact .inl (hdied.trans_le hdeaths)
  · exact .inr ⟨hesc, hstall.trans_le hstalls⟩

/-- One thread moves: it did not die before, and what it sets it has a cause for. -/
theorem State.Cause.thread {s s' : State F N} {d d' : ℕ} (hsets : s.shared.Sets env s'.shared d')
    (hdeaths : s'.deaths + d = s.deaths + d') (hd : d = 0)
    (hs : s.shared.token = true → s.Cause env) (htoken : s'.shared.token = true) :
    s'.Cause env := by
  obtain hbefore | hdied | hesc := hsets.token htoken
  · exact (hs hbefore).mono (by omega) hsets.stalls
  · exact .inl (by omega)
  · exact .inr hesc

theorem caused_main {s s' : State F N} (h : MainMove o s s') (hst : Started s)
    (hs : Caused env s) : Caused env s' := by
  have hst := hst.starting
  obtain ⟨hcause, hwatch⟩ := hs
  cases h with
  | startLogger hm =>
    simp only [State.Starting, hm] at hst
    simp only [State.Cause, State.deaths, hst, hm] at hcause
    exact ⟨fun _ => hcause (by decide), hwatch⟩
  | startWatchdog hm =>
    simp only [State.Starting, hm] at hst
    simp only [State.Cause, State.deaths, hst.2, hm] at hcause
    exact ⟨fun _ => hcause (by decide), trivial⟩
  | @startWorker k hk hm =>
    simp only [State.Starting, hm] at hst
    have hnot : s.workers ⟨k, hk⟩ = .notStarted := (hst.2.2 _).mpr le_rfl
    have hd : ∑ i, (Function.update s.workers ⟨k, hk⟩ WorkerPc.configure i).deaths =
        ∑ i, (s.workers i).deaths := Tally.sum_update_eq (by rw [hnot]; rfl)
    refine ⟨?_, hwatch⟩
    simp only [State.Cause, State.deaths, hd]
    rw [hm] at hcause
    exact fun _ => hcause (by decide : (2 : ℕ) ≤ 4)
  | workersStarted _ hm =>
    rw [hm] at hcause
    exact ⟨fun _ => hcause (by decide : (2 : ℕ) ≤ 4), hwatch⟩
  | startProducer hm =>
    simp only [State.Starting, hm] at hst
    simp only [State.Cause, State.deaths, hst.2.1, hm] at hcause
    exact ⟨fun _ => hcause (by decide), hwatch⟩
  | poll hm | timeout hm | signal hm =>
    rw [hm] at hcause
    exact ⟨fun _ => hcause (by decide), hwatch⟩
  -- from the guard of `shutdown()` on there is nothing to show
  | _ => exact ⟨fun hstage => absurd hstage (by simp [MainPc.stage, State.rollback]), hwatch⟩

theorem caused_move {s s' : State F N} {a : Action F N} (h : Move env s a s') (hst : Started s)
    (hs : Caused env s) : Caused env s' := by
  cases h with
  | main hm => exact caused_main hm hst hs
  | producer hm =>
    refine ⟨fun hstage htoken => ?_, hs.watchdog.mono hm.sets.stalls⟩
    refine State.Cause.thread hm.sets ?_ hm.dies.alive (hs.cause hstage) htoken
    simp only [State.deaths]
    omega
  | @worker i o sh pc hm =>
    have hd := Tally.sum_update_add WorkerPc.deaths s.workers i pc
    refine ⟨fun hstage htoken => ?_, hs.watchdog.mono hm.sets.stalls⟩
    refine State.Cause.thread hm.sets ?_ hm.dies.alive (hs.cause hstage) htoken
    simp only [State.deaths]
    omega
  | logger hm =>
    refine ⟨fun hstage htoken => ?_, hs.watchdog.mono hm.sets.stalls⟩
    refine State.Cause.thread hm.sets ?_ hm.dies.alive (hs.cause hstage) htoken
    simp only [State.deaths]
    omega
  | watchdog hm =>
    refine ⟨fun hstage htoken => ?_, hm.escalates hs.watchdog⟩
    refine State.Cause.thread (hm.sets hs.watchdog) ?_ hm.dies.alive (hs.cause hstage) htoken
    simp only [State.deaths]
    omega

/-- As long as main is starting threads or waiting, a token that is set was set by a thread that
died, or by a watchdog that is configured to escalate and has counted a stall. -/
theorem shutdown_has_cause {s : State F N} (h : Reachable env s) (hwaiting : s.main.stage ≤ 4)
    (htoken : s.shared.token = true) :
    0 < s.deaths ∨
      env.config.escalateToShutdown = true ∧ 0 < s.shared.metrics.watchdogStalls := by
  have hall : Started s ∧ Caused env s := by
    refine h.invariant (I := fun s => Started s ∧ Caused env s) ?_ ?_
    · intro t₀
      exact ⟨started_initial env t₀, ⟨fun _ hset => (by cases hset), trivial⟩⟩
    · rintro _ _ _ hm ⟨hst, hs⟩
      exact ⟨started_move hm hst, caused_move hm hst hs⟩
  exact hall.2.cause hwaiting htoken

/-- The worker dies while main waits. -/
theorem shutdown_has_cause_death :
    ∃ s : State ℕ 1, Reachable silentDefaults s ∧ s.main = .waitTest ∧ s.shared.token = true ∧
      0 < s.deaths := by
  obtain ⟨s, hrun, hm, htoken⟩ := Lts.exists_run (step silentDefaults) (initial silentDefaults 1 0)
    (plainly 5 0 .main ++ plainly 2 0 (.worker 0) ++ [throwing (.worker 0)] ++
      plainly 2 0 (.worker 0))
    (fun s => s.main = .waitTest ∧ s.shared.token = true) (by decide +kernel)
  refine ⟨s, reachable_of_run hrun, hm, htoken, ?_⟩
  obtain hdied | ⟨hesc, -⟩ := shutdown_has_cause (reachable_of_run hrun) (by rw [hm]; decide) htoken
  · exact hdied
  · cases hesc

end RadarRT
