import RadarRT.System.Application

/-!
# Writing down schedules

An application over natural numbers in which every sample is zero, for the concrete runs beside
the results: what `SignalProcessor` makes of such a signal is known without floating point.
-/

namespace RadarRT

variable {N : ℕ}

/-- All samples are zero, so nothing is detected and the peak is zero. -/
def silentEnv (config : Config) (hin : 0 < config.inputCapacity)
    (hout : 0 < config.outputCapacity) : Env ℕ where
  config := config
  process := fun signal => ⟨signal.timestamp, false, 0⟩
  showFloat := toString
  sinkCount := 1
  inputCapacity_pos := hin
  outputCapacity_pos := hout

/-- The same with the default configuration. -/
def silentDefaults : Env ℕ := silentEnv {} (by decide) (by decide)

/-- A step in which nothing throws and no timed wait runs out, the clock showing `now`. -/
def plain (now : Time) (a : Actor N) : Action ℕ N := (a, { now := now, samples := fun _ => 0 })

/-- A step in which a timed wait runs out. -/
def elapsing (a : Actor N) : Action ℕ N := (a, { elapsed := true, samples := fun _ => 0 })

/-- A step whose call throws. -/
def throwing (a : Actor N) : Action ℕ N := (a, { failure := .atCall, samples := fun _ => 0 })

/-- `n` plain steps of one thread. -/
def plainly (n : ℕ) (now : Time) (a : Actor N) : List (Action ℕ N) :=
  List.replicate n (plain now a)

theorem reachable_of_run {F : Type} {env : Env F} {t₀ : Time} {as : List (Action F N)}
    {s : State F N} (h : Lts.run (step env) (initial env N t₀) as = some s) : Reachable env s :=
  ⟨t₀, as, h⟩

end RadarRT
