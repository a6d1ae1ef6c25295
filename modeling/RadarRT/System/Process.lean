import RadarRT.System.LogFormat
import RadarRT.System.Schedules
import RadarRT.System.WeakMetrics
import RadarRT.Watchdog.StallTest

/-!
# The process

The application inside its process, once it has been constructed: what
`SignalHandler::waitForShutdown` does between two looks at the token, the signals the kernel keeps
for it, what main writes to standard error, what goes to standard output, and the exit status of
`main`. The threads and the rest of `Application::run` are those of
`System.Application`, where the whole wait in the kernel is one program point, `waitPoll`. Here it
is two calls, `ppoll` and then `read`, each with every result the kernel may give.
-/

namespace RadarRT

variable {F : Type} {N : ℕ}

/-! ## System calls -/

def EINTR : Int := 4

def EIO : Int := 5

def EINVAL : Int := 22

structure SystemCallException where
  call : String
  errorNumber : Int
deriving DecidableEq

/-- `buildSystemCallMessage`; `message` is that of `std::generic_category()`. -/
def SystemCallException.what (message : Int → String) (ex : SystemCallException) : String :=
  "system call '" ++ ex.call ++ "' failed: " ++ message ex.errorNumber ++ " (errno " ++
    toString ex.errorNumber ++ ")"

/-- What `ppoll` returns; `ready` says whether `revents` has `POLLIN`. -/
inductive PollResult where
  | error (errno : Int)
  | timeout
  | ready (pollin : Bool)
deriving DecidableEq

/-- What `read` returns. -/
inductive ReadResult where
  | error (errno : Int)
  | bytes (count : Int)
deriving DecidableEq

/-- `sizeof(signalfd_siginfo)`. -/
def sizeofSiginfo : Int := 128

structure Timespec where
  tv_sec : Int64
  tv_nsec : Int64
deriving DecidableEq

/-- The conversion at the top of `waitForShutdown`, in 64 bits: whole seconds, and the rest in
nanoseconds. -/
def timespecOf (interval : Int64) : Timespec :=
  let seconds := interval / 1000
  { tv_sec := seconds, tv_nsec := (interval - seconds * 1000) * 1000000 }

/-- What the kernel accepts as a timeout. -/
def Timespec.Valid (t : Timespec) : Prop := 0 ≤ t.tv_sec ∧ 0 ≤ t.tv_nsec ∧ t.tv_nsec < 1000000000

instance (t : Timespec) : Decidable t.Valid := inferInstanceAs (Decidable (_ ∧ _))

theorem tmod_thousand (x : Int) :
    1000 * x.tdiv 1000 + x.tmod 1000 = x ∧ (0 ≤ x → 0 ≤ x.tmod 1000 ∧ x.tmod 1000 < 1000) ∧
      (x ≤ 0 → -1000 < x.tmod 1000 ∧ x.tmod 1000 ≤ 0) := by
  refine ⟨Int.mul_tdiv_add_tmod x 1000, fun h => ?_, fun h => ?_⟩
  · exact ⟨Int.tmod_nonneg 1000 h, Int.tmod_lt_of_pos x (by omega)⟩
  · have hnonneg := Int.tmod_nonneg 1000 (Int.neg_nonneg.mpr h)
    have hlt := Int.tmod_lt_of_pos (-x) (show (0 : Int) < 1000 by omega)
    rw [Int.neg_tmod] at hnonneg hlt
    omega

/-- No step of the conversion overflows, whatever the interval. -/
theorem toInt_timespecOf (interval : Int64) :
    (timespecOf interval).tv_sec.toInt = interval.toInt.tdiv 1000 ∧
      (timespecOf interval).tv_nsec.toInt = interval.toInt.tmod 1000 * 1000000 := by
  obtain ⟨hdiv, hpos, hneg⟩ := tmod_thousand interval.toInt
  have hlo := interval.le_toInt
  have hhi := interval.toInt_lt
  have hsec : (interval / 1000).toInt = interval.toInt.tdiv 1000 :=
    Int64.toInt_div_of_ne_right interval 1000 (by decide)
  have hmul : (interval / 1000 * 1000).toInt = interval.toInt - interval.toInt.tmod 1000 := by
    rw [Int64.toInt_mul, hsec]
    have h : interval.toInt.tdiv 1000 * Int64.toInt 1000 =
        interval.toInt - interval.toInt.tmod 1000 := by
      show interval.toInt.tdiv 1000 * 1000 = _
      omega
    rw [h]
    exact Int.bmod_eq_of_le_mul_two (by omega) (by omega)
  have hrest : (interval - interval / 1000 * 1000).toInt = interval.toInt.tmod 1000 := by
    rw [toInt_sub_of_fits (by rw [hmul]; constructor <;> omega), hmul]
    omega
  refine ⟨hsec, ?_⟩
  show ((interval - interval / 1000 * 1000) * 1000000).toInt = _
  rw [Int64.toInt_mul, hrest]
  have h : Int64.toInt 1000000 = 1000000 := by decide
  rw [h]
  exact Int.bmod_eq_of_le_mul_two (by omega) (by omega)

/-- `Config` does not check the interval; the kernel refuses the negative ones. -/
theorem timespecOf_valid_iff (interval : Int64) :
    (timespecOf interval).Valid ↔ 0 ≤ interval.toInt := by
  obtain ⟨hsec, hnsec⟩ := toInt_timespecOf interval
  obtain ⟨hdiv, hpos, hneg⟩ := tmod_thousand interval.toInt
  unfold Timespec.Valid
  rw [Int64.le_iff_toInt_le, Int64.le_iff_toInt_le, Int64.lt_iff_toInt_lt, hsec, hnsec]
  show (0 : Int) ≤ _ ∧ (0 : Int) ≤ _ ∧ _ < (1000000000 : Int) ↔ _
  omega

/-! ## Signals -/

inductive ShutdownSignal where
  | sigint
  | sigterm
deriving DecidableEq

/-- The signals of `shutdownSignalSet` that are blocked and pending; each is pending once. -/
structure Pending where
  sigint : Bool := false
  sigterm : Bool := false
deriving DecidableEq

namespace Pending

def any (p : Pending) : Bool := p.sigint || p.sigterm

def raise (p : Pending) : ShutdownSignal → Pending
  | .sigint => { p with sigint := true }
  | .sigterm => { p with sigterm := true }

/-- A record read from the descriptor takes the pending signal with the lower number. -/
def take (p : Pending) : Pending :=
  if p.sigint then { p with sigint := false } else { p with sigterm := false }

end Pending

/-! ## The process -/

/-- Where main is while it is at `waitPoll`. -/
inductive WaitCall where
  | ppoll
  /-- In `consumePendingSignal`. -/
  | read
deriving DecidableEq

structure Process (F : Type) (N : ℕ) where
  system : State F N
  call : WaitCall
  pending : Pending
  /-- A shutdown signal has been sent. -/
  sent : Bool
  /-- The exception `waitForShutdown` left with, until it is handled. -/
  failure : Option SystemCallException
  /-- How often `ppoll` has been called. -/
  polls : ℕ
  /-- How many steps main has made in `waitForShutdown`. -/
  waitSteps : ℕ
  /-- What main has written to standard error. -/
  stderr : List String
  /-- What everybody has written to standard output. -/
  stdout : List String
  exitStatus : Option ℕ

/-- The implementations of `ILogSink`. -/
inductive LogSink where
  | console
  | file (path : String)
deriving DecidableEq

/-- `Application::buildSinks`. -/
def buildSinks (console : Bool) (filePath : String) : List LogSink :=
  (if console then [.console] else []) ++ if filePath.isEmpty then [] else [.file filePath]

/-- What a process is built from, beside its application. -/
structure Process.Env (F : Type) extends RadarRT.Env F where
  /-- `signal().pollInterval`, in milliseconds. -/
  pollInterval : Int64 := 100
  /-- `logging().console` and `logging().filePath`. -/
  console : Bool := true
  filePath : String := "radar.log"
  sinkCount_eq : sinkCount = (buildSinks console filePath).length
  /-- `std::generic_category().message`. -/
  message : Int → String

/-- What a `ConsoleSink`, the first sink if there is one, has written to `std::cout`. -/
def Process.Env.consoleLines {F : Type} (env : Process.Env F) (sinks : ℕ → List SinkEvent) :
    List String :=
  if (buildSinks env.console env.filePath).head? = some .console then writtenLines (sinks 0) else []

inductive Process.Action (F : Type) (N : ℕ) where
  | kill (signal : ShutdownSignal)
  /-- A step of a thread; the calls of main in `waitForShutdown` are the next two. -/
  | thread (a : RadarRT.Action F N)
  | ppoll (r : PollResult)
  | read (r : ReadResult)
  /-- `run` and then `main` return; `what` is the text of the exception, if there is one. -/
  | finish (what : String)

namespace Process

/-- The process once `Application` is constructed and has locked its memory. -/
def initial (env : Process.Env F) (N : ℕ) (t₀ : Time) : Process F N where
  system := RadarRT.initial env.toEnv N t₀
  call := .ppoll
  pending := {}
  sent := false
  failure := none
  polls := 0
  waitSteps := 0
  stderr := []
  stdout := []
  exitStatus := none

/-- The results `ppoll` may give: a bad timeout is refused; the descriptor is readable exactly when
a signal is pending, and then the call neither times out nor is interrupted. -/
def admits (env : Process.Env F) (p : Process F N) (r : PollResult) : Bool :=
  if (timespecOf env.pollInterval).Valid then
    match r with
    | .error e => !p.pending.any || decide (e ≠ EINTR)
    | .timeout => !p.pending.any
    | .ready pollin => pollin == p.pending.any
  else r == .error EINVAL

/-- Main is in `waitForShutdown`, or in the handler of its exception. -/
def waiting (p : Process F N) : Bool :=
  match p.system.main with
  | .waitTest | .waitPoll | .waitRequest => true
  | _ => false

/-- Main leaves the kernel for the program point `pc`. -/
def leave (p : Process F N) (pc : MainPc) (failure : Option SystemCallException) : Process F N :=
  { p with
    system := { p.system with main := pc }
    call := .ppoll
    failure := failure
    waitSteps := p.waitSteps + 1 }

/-- The line that the handler in `run` writes for an exception of `waitForShutdown`. -/
def waitFailedLine (env : Process.Env F) (ex : SystemCallException) : String :=
  "[radar] signal wait failed: " ++ ex.what env.message ++ "; shutting down\n"

/-- What `reportSummary` writes. -/
def summary (m : Metrics) : String :=
  WeakMetrics.summaryText (.ofNat m.signalsProduced) (.ofNat m.signalsProcessed)
    (.ofNat m.inputDrops) (.ofNat m.logDrops) (.ofNat m.deadlineMisses) (.ofNat m.watchdogStalls)
    (.ofNat m.threadExceptions)

/-- A step of main outside the kernel. -/
def mainStep (env : Process.Env F) (o : Outside F) (p : Process F N) : Option (Process F N) :=
  if p.system.main = .waitPoll then none
  else (RadarRT.mainStep o p.system).map fun s => { p with
    system := s
    failure := none
    polls := if s.main = .waitPoll then p.polls + 1 else p.polls
    waitSteps := if p.waiting then p.waitSteps + 1 else p.waitSteps
    stderr := p.stderr ++ (p.failure.map (waitFailedLine env)).toList }

/-- A step of another thread; the logger may write to the console. -/
def threadStep (env : Process.Env F) (a : RadarRT.Action F N) (p : Process F N) :
    Option (Process F N) :=
  (RadarRT.step env.toEnv p.system a).map fun s => { p with
    system := s
    stdout := p.stdout ++
      (env.consoleLines s.shared.sinks).drop (env.consoleLines p.system.shared.sinks).length }

def step (env : Process.Env F) (p : Process F N) : Action F N → Option (Process F N)
  | .kill signal => some { p with pending := p.pending.raise signal, sent := true }
  | .thread (.main, o) => mainStep env o p
  | .thread a => threadStep env a p
  | .ppoll r =>
    if p.system.main = .waitPoll ∧ p.call = .ppoll ∧ p.admits env r then
      match r with
      | .error e => some (if e = EINTR then p.leave .waitTest none
          else p.leave .waitRequest (some ⟨"ppoll", e⟩))
      | .timeout => some (p.leave .waitTest none)
      | .ready true => some { p with call := .read, waitSteps := p.waitSteps + 1 }
      | .ready false => some (p.leave .waitTest none)
    else none
  | .read r =>
    if p.system.main = .waitPoll ∧ p.call = .read then
      match r with
      | .error e => some (p.leave .waitRequest (some ⟨"read", e⟩))
      | .bytes count =>
        if count = sizeofSiginfo then
          some { p.leave .waitRequest none with pending := p.pending.take }
        else some (p.leave .waitRequest (some ⟨"read", EIO⟩))
    else none
  | .finish what =>
    if p.system.main = .returned ∧ p.exitStatus = none then
      some (if p.system.rethrow then
        { p with exitStatus := some 1, stderr := p.stderr ++ ["[radar] fatal: " ++ what ++ "\n"] }
      else { p with exitStatus := some 0, stdout := p.stdout ++ [summary p.system.shared.metrics] })
    else none

/-! ## What a step can do -/

variable {env : Process.Env F} {p p' : Process F N} {a : Action F N}

inductive Move (env : Process.Env F) (p : Process F N) : Action F N → Process F N → Prop
  | kill {signal} :
    Move env p (.kill signal) { p with pending := p.pending.raise signal, sent := true }
  | main {o s'} : p.system.main ≠ .waitPoll → RadarRT.mainStep o p.system = some s' →
    Move env p (.thread (.main, o)) { p with
      system := s'
      failure := none
      polls := if s'.main = .waitPoll then p.polls + 1 else p.polls
      waitSteps := if p.waiting then p.waitSteps + 1 else p.waitSteps
      stderr := p.stderr ++ (p.failure.map (waitFailedLine env)).toList }
  | thread {a s'} : a.1 ≠ .main → RadarRT.step env.toEnv p.system a = some s' →
    Move env p (.thread a) { p with
      system := s'
      stdout := p.stdout ++
        (env.consoleLines s'.shared.sinks).drop (env.consoleLines p.system.shared.sinks).length }
  /-- A timeout, an unrelated signal or a wake without `POLLIN`. -/
  | again {r} : p.system.main = .waitPoll → p.call = .ppoll →
    (timespecOf env.pollInterval).Valid → p.pending.any = false →
    Move env p (.ppoll r) (p.leave .waitTest none)
  | readable {r} : p.system.main = .waitPoll → p.call = .ppoll →
    (timespecOf env.pollInterval).Valid → p.pending.any = true →
    Move env p (.ppoll r) { p with call := .read, waitSteps := p.waitSteps + 1 }
  | pollFailed {e} : p.system.main = .waitPoll → p.call = .ppoll →
    (timespecOf env.pollInterval).Valid ∨ e = EINVAL →
    Move env p (.ppoll (.error e)) (p.leave .waitRequest (some ⟨"ppoll", e⟩))
  | readFailed {r e} : p.system.main = .waitPoll → p.call = .read →
    Move env p (.read r) (p.leave .waitRequest (some ⟨"read", e⟩))
  | taken {r} : p.system.main = .waitPoll → p.call = .read →
    Move env p (.read r) { p.leave .waitRequest none with pending := p.pending.take }
  | fatal {what} : p.system.main = .returned → p.exitStatus = none → p.system.rethrow = true →
    Move env p (.finish what) { p with
      exitStatus := some 1
      stderr := p.stderr ++ ["[radar] fatal: " ++ what ++ "\n"] }
  | success {what} : p.system.main = .returned → p.exitStatus = none → p.system.rethrow = false →
    Move env p (.finish what) { p with
      exitStatus := some 0
      stdout := p.stdout ++ [summary p.system.shared.metrics] }

theorem step_thread {o : Outside F} {actor : Actor N} (hne : actor ≠ .main)
    (h : step env p (.thread (actor, o)) = some p') : Move env p (.thread (actor, o)) p' := by
  have hstep : threadStep env (actor, o) p = some p' := by
    cases actor with
    | main => exact absurd rfl hne
    | _ => exact h
  obtain ⟨s, hs, rfl⟩ := Option.map_eq_some_iff.mp hstep
  exact .thread hne hs

theorem step_move (h : step env p a = some p') : Move env p a p' := by
  cases a with
  | kill signal =>
    cases h
    exact .kill
  | thread a =>
    obtain ⟨actor, o⟩ := a
    by_cases hmain : actor = .main
    · subst hmain
      obtain ⟨hpc, h⟩ := Option.ite_none_left_eq_some.mp h
      obtain ⟨s, hs, rfl⟩ := Option.map_eq_some_iff.mp h
      exact .main hpc hs
    · exact step_thread hmain h
  | ppoll r =>
    obtain ⟨⟨hpc, hcall, hadm⟩, h⟩ := Option.ite_none_right_eq_some.mp h
    unfold admits at hadm
    cases r with
    | error e =>
      simp only [Option.some.injEq] at h
      subst h
      by_cases he : e = EINTR
      · rw [if_pos he]
        split at hadm
        · next hv => exact .again hpc hcall hv (by simpa [he] using hadm)
        · rw [he] at hadm
          exact absurd hadm (by decide)
      · rw [if_neg he]
        refine .pollFailed hpc hcall ?_
        split at hadm
        · next hv => exact .inl hv
        · exact .inr (by simpa using hadm)
    | timeout =>
      cases h
      split at hadm
      · next hv => exact .again hpc hcall hv (by simpa using hadm)
      · exact absurd hadm (by decide)
    | ready pollin =>
      split at hadm
      · next hv =>
        have hadm : pollin = p.pending.any := by simpa using hadm
        cases pollin with
        | false =>
          cases h
          exact .again hpc hcall hv hadm.symm
        | true =>
          cases h
          exact .readable hpc hcall hv hadm.symm
      · exact absurd hadm (by simp)
  | read r =>
    obtain ⟨⟨hpc, hcall⟩, h⟩ := Option.ite_none_right_eq_some.mp h
    cases r with
    | error e =>
      cases h
      exact .readFailed hpc hcall
    | bytes count =>
      simp only at h
      split at h
      · cases h
        exact .taken hpc hcall
      · cases h
        exact .readFailed hpc hcall
  | finish what =>
    obtain ⟨⟨hpc, hexit⟩, h⟩ := Option.ite_none_right_eq_some.mp h
    cases hre : p.system.rethrow with
    | true =>
      rw [hre] at h
      cases h
      exact .fatal hpc hexit hre
    | false =>
      rw [hre] at h
      cases h
      exact .success hpc hexit hre

/-- The threads do not move main and do not take the request back. -/
theorem thread_main {a : RadarRT.Action F N} {s s' : State F N} (hne : a.1 ≠ .main)
    (h : RadarRT.step env.toEnv s a = some s') :
    s'.main = s.main ∧ s'.rethrow = s.rethrow ∧ s.shared.Extends s'.shared := by
  cases RadarRT.step_move h with
  | main => exact absurd rfl hne
  | producer hm => exact ⟨rfl, rfl, hm.extends⟩
  | worker hm => exact ⟨rfl, rfl, hm.extends⟩
  | logger hm => exact ⟨rfl, rfl, hm.extends⟩
  | watchdog hm => exact ⟨rfl, rfl, hm.extends⟩

/-! ## The application inside the process -/

/-- Every step of the process is one of the application, or none at all. -/
theorem Move.system [Inhabited F] (h : Move env p a p') :
    Lts.Reaches (RadarRT.step env.toEnv) p.system p'.system := by
  have hleave : ∀ (o : Outside F) (pc : MainPc), p.system.main = .waitPoll →
      RadarRT.mainStep o p.system = some { p.system with main := pc } →
      Lts.Reaches (RadarRT.step env.toEnv) p.system { p.system with main := pc } := by
    intro o pc _ hstep
    exact Lts.Reaches.single (a := (.main, o)) hstep
  cases h with
  | kill | readable | fatal | success => exact Lts.Reaches.refl _
  | @main o s' _ hs => exact Lts.Reaches.single (a := (.main, o)) hs
  | @thread a s' _ hs => exact Lts.Reaches.single (a := a) hs
  | again hpc =>
    refine hleave { elapsed := true, samples := fun _ => default } .waitTest hpc ?_
    simp [RadarRT.mainStep, hpc, Outside.throws]
  | pollFailed hpc | readFailed hpc =>
    refine hleave { failure := .atCall, samples := fun _ => default } .waitRequest hpc ?_
    simp [RadarRT.mainStep, hpc, Outside.throws]
  | taken hpc =>
    refine hleave { samples := fun _ => default } .waitRequest hpc ?_
    simp [RadarRT.mainStep, hpc, Outside.throws]

/-- The wait in the kernel, with every result of its calls, refines the wait of the application:
what is proved of all runs of the application holds inside the process. -/
theorem process_refines [Inhabited F] (h : Lts.Reaches (step env) p p') :
    Lts.Reaches (RadarRT.step env.toEnv) p.system p'.system :=
  Lts.run_simulated (π := Process.system) (I := fun _ => True) (fun _ _ _ _ _ => trivial)
    (fun _ _ _ hs _ => (step_move hs).system) h trivial

/-- A process over the silent application, and a schedule without workers: start-up, the first
`ppoll`, a signal, and main's way to the request. -/
def silentProcess : Process.Env ℕ where
  toEnv := silentDefaults
  filePath := ""
  sinkCount_eq := by decide
  message := fun _ => ""

def mainOnly (n : ℕ) : List (Action ℕ 0) := List.replicate n (.thread (plain 0 .main))

def signalled : List (Action ℕ 0) :=
  mainOnly 5 ++ [.kill .sigterm, .ppoll (.ready true), .read (.bytes 128)] ++ mainOnly 1

theorem process_refines_signalled : ∃ p, Lts.run (step silentProcess)
    (initial silentProcess 0 0) signalled = some p ∧ p.system.shared.token = true ∧
      Lts.Reaches (RadarRT.step silentProcess.toEnv) (initial silentProcess 0 0).system
        p.system := by
  obtain ⟨p, hrun, htoken⟩ := Lts.exists_run (step silentProcess) (initial silentProcess 0 0)
    signalled (fun p => p.system.shared.token = true) (by decide +kernel)
  exact ⟨p, hrun, htoken, process_refines ⟨_, hrun⟩⟩

end Process

end RadarRT
