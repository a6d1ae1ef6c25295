import Mathlib.Algebra.Order.Group.Int
import Mathlib.Algebra.Order.Group.Unbundled.Basic
import RadarRT.System.Moves

/-!
# Beats

What a thread's program point says about its heartbeat. `markRunning` is two stores, the
timestamp and then the state; `markWaiting` is one. A `BeatView` is all that matters of a program
point here: whether the thread is inside a legitimate wait, whether it is between the two stores,
and the clock reading it is about to store. Each step of each of the three loops does one of four
things to its own heartbeat (`BeatStep`), and everything the watchdog relies on follows from that.
-/

namespace RadarRT

variable {F : Type} {env : Env F} {beat : ℕ} {o : Outside F} {sh sh' : Shared F}

structure BeatView where
  /-- Inside `waitAndPop`, or in the producer's wait between samples. -/
  waiting : Bool := false
  /-- The timestamp of this beat is stored, its state is not. -/
  stamped : Bool := false
  /-- The clock reading that will be stored next. -/
  pending : Option Time := none
deriving DecidableEq

def ProducerPc.view : ProducerPc → BeatView
  | .storeTimestamp _ t => { pending := some t }
  | .storeRunning _ _ => { stamped := true }
  | .waitFor _ => { waiting := true }
  | _ => {}

def WorkerPc.view : WorkerPc F → BeatView
  | .storeTimestamp _ t => { pending := some t }
  | .storeRunning _ => { stamped := true }
  | .waitAndPop => { waiting := true }
  | _ => {}

def LoggerPc.view : LoggerPc F → BeatView
  | .storeTimestamp _ t => { pending := some t }
  | .storeRunning _ => { stamped := true }
  | .waitAndPop => { waiting := true }
  | _ => {}

/-- What a step does to the heartbeat of its thread and to the clock. -/
inductive BeatStep (beat : ℕ) (sh : Shared F) (v : BeatView) (sh' : Shared F) (v' : BeatView) :
    Prop
  | storeTimestamp (t : Time) : v.pending = some t →
    sh'.registry = sh.registry.storeTimestamp beat t → sh'.clock = sh.clock →
    v' = { stamped := true } → BeatStep beat sh v sh' v'
  | storeRunning : v.stamped = true → sh'.registry = sh.registry.storeState beat .running →
    sh'.clock = sh.clock → v' = {} → BeatStep beat sh v sh' v'
  | storeWaiting : sh'.registry = sh.registry.storeState beat .waitingForInput →
    sh'.clock = sh.clock → v' = { waiting := true } → BeatStep beat sh v sh' v'
  | other : sh'.registry = sh.registry → sh.clock ≤ sh'.clock →
    (v' = {} ∨ v' = { pending := some sh'.clock }) → BeatStep beat sh v sh' v'

theorem ProducerMove.beatStep {pc pc' : ProducerPc} (h : ProducerMove env beat o sh pc sh' pc') :
    BeatStep beat sh pc.view sh' pc'.view := by
  cases h with
  | storeTimestamp => exact .storeTimestamp _ rfl rfl rfl rfl
  | storeRunning => exact .storeRunning rfl rfl rfl rfl
  | markWaiting => exact .storeWaiting rfl rfl rfl
  | readClock hle => exact .other rfl hle (.inr rfl)
  | configure hle | missed hle | onTime hle => exact .other rfl hle (.inl rfl)
  | _ => exact .other rfl le_rfl (.inl rfl)

theorem WorkerMove.beatStep {pc pc' : WorkerPc F} (h : WorkerMove env beat o sh pc sh' pc') :
    BeatStep beat sh pc.view sh' pc'.view := by
  cases h with
  | storeTimestamp => exact .storeTimestamp _ rfl rfl rfl rfl
  | storeRunning => exact .storeRunning rfl rfl rfl rfl
  | markWaiting => exact .storeWaiting rfl rfl rfl
  | readClock hle => exact .other rfl hle (.inr rfl)
  | readLatencyClock hle => exact .other rfl hle (.inl rfl)
  | _ => exact .other rfl le_rfl (.inl rfl)

theorem LoggerMove.beatStep {pc pc' : LoggerPc F} (h : LoggerMove env beat o sh pc sh' pc') :
    BeatStep beat sh pc.view sh' pc'.view := by
  cases h with
  | storeTimestamp => exact .storeTimestamp _ rfl rfl rfl rfl
  | storeRunning => exact .storeRunning rfl rfl rfl rfl
  | markWaiting => exact .storeWaiting rfl rfl rfl
  | readClock hle => exact .other rfl hle (.inr rfl)
  | _ => exact .other rfl le_rfl (.inl rfl)

theorem BeatStep.clock_le {v v' : BeatView} (h : BeatStep beat sh v sh' v') :
    sh.clock ≤ sh'.clock := by
  cases h with
  | storeTimestamp t _ _ hc | storeRunning _ _ hc | storeWaiting _ hc => rw [hc]
  | other _ hc => exact hc

/-- A thread never touches the heartbeat of another. -/
theorem BeatStep.heartbeat_ne {v v' : BeatView} (h : BeatStep beat sh v sh' v') {i : ℕ}
    (hi : i ≠ beat) : sh'.registry.heartbeats i = sh.registry.heartbeats i := by
  cases h with
  | storeTimestamp t _ hr | storeRunning _ hr | storeWaiting hr =>
    rw [hr]
    simp [Function.update_of_ne hi]
  | other hr => rw [hr]

/-! ## What a heartbeat says -/

/-- A thread inside a legitimate wait shows `WaitingForInput`; a timestamp that is shown with
`Running`, now or after the next store, is a clock reading of the past; and the reading that will
be stored next is not older than it. -/
structure BeatOk (sh : Shared F) (beat : ℕ) (v : BeatView) : Prop where
  waiting : v.waiting = true → (sh.registry.heartbeats beat).state = .waitingForInput
  past : (sh.registry.heartbeats beat).state = .running ∨ v.stamped = true →
    (sh.registry.heartbeats beat).timestamp ≤ sh.clock
  pending : ∀ t, v.pending = some t → t ≤ sh.clock ∧
    ((sh.registry.heartbeats beat).state = .running →
      (sh.registry.heartbeats beat).timestamp ≤ t)

/-- The steps of the thread itself keep this. -/
theorem BeatStep.ok {v v' : BeatView} (h : BeatStep beat sh v sh' v') (hok : BeatOk sh beat v) :
    BeatOk sh' beat v' := by
  obtain ⟨hw, hp, hpend⟩ := hok
  cases h with
  | storeTimestamp t ht hr hc hv =>
    -- the timestamp is a clock reading of the past, whatever the state shows
    subst hv
    refine ⟨by nofun, fun _ => ?_, by nofun⟩
    rw [hr, hc]
    simpa using (hpend t ht).1
  | storeRunning hs hr hc hv =>
    -- `Running` is shown with the timestamp stored just before it
    subst hv
    refine ⟨by nofun, fun _ => ?_, by nofun⟩
    rw [hr, hc]
    simpa using hp (.inr hs)
  | storeWaiting hr hc hv =>
    subst hv
    refine ⟨fun _ => by rw [hr]; simp, fun hrun => ?_, by nofun⟩
    rw [hr] at hrun
    simp at hrun
  | other hr hc hv =>
    rcases hv with rfl | rfl
    · refine ⟨by nofun, fun hrun => ?_, by nofun⟩
      rw [hr] at hrun ⊢
      exact (hp (.inl (by simpa using hrun))).trans hc
    · refine ⟨by nofun, ?_, ?_⟩
      · intro hrun
        rw [hr] at hrun ⊢
        exact (hp (.inl (by simpa using hrun))).trans hc
      · -- a fresh reading is not older than what is shown
        intro t ht
        cases ht
        rw [hr]
        exact ⟨le_rfl, fun hrun => (hp (.inl hrun)).trans hc⟩

/-- The steps of everybody else keep it too. -/
theorem BeatOk.mono {v : BeatView} (h : BeatOk sh beat v) (hc : sh.clock ≤ sh'.clock)
    (hb : sh'.registry.heartbeats beat = sh.registry.heartbeats beat) : BeatOk sh' beat v := by
  obtain ⟨hw, hp, hpend⟩ := h
  refine ⟨?_, ?_, ?_⟩ <;> rw [hb]
  · exact hw
  · exact fun hrun => (hp hrun).trans hc
  · exact fun t ht => ⟨(hpend t ht).1.trans hc, (hpend t ht).2⟩

/-! ## Timestamps only grow -/

/-- Neither the timestamp nor anything that may become it is older than `c`. -/
structure Floor (c : Time) (sh : Shared F) (beat : ℕ) (v : BeatView) : Prop where
  clock : c ≤ sh.clock
  timestamp : c ≤ (sh.registry.heartbeats beat).timestamp
  pending : ∀ t, v.pending = some t → c ≤ t

/-- A heartbeat that shows `Running` will never show an older timestamp. -/
theorem BeatOk.floor {v : BeatView} (h : BeatOk sh beat v)
    (hrun : (sh.registry.heartbeats beat).state = .running) :
    Floor (sh.registry.heartbeats beat).timestamp sh beat v :=
  ⟨h.past (.inl hrun), le_rfl, fun t ht => (h.pending t ht).2 hrun⟩

theorem BeatStep.floor {v v' : BeatView} (h : BeatStep beat sh v sh' v') {c : Time}
    (hf : Floor c sh beat v) : Floor c sh' beat v' := by
  have hclock := hf.clock.trans h.clock_le
  cases h with
  | storeTimestamp t ht hr hc hv =>
    subst hv
    refine ⟨hclock, ?_, by nofun⟩
    rw [hr]
    simpa using hf.pending t ht
  | storeRunning hs hr hc hv =>
    subst hv
    refine ⟨hclock, ?_, by nofun⟩
    rw [hr]
    simpa using hf.timestamp
  | storeWaiting hr hc hv =>
    subst hv
    refine ⟨hclock, ?_, by nofun⟩
    rw [hr]
    simpa using hf.timestamp
  | other hr hc hv =>
    rcases hv with rfl | rfl
    · exact ⟨hclock, by rw [hr]; exact hf.timestamp, by nofun⟩
    · refine ⟨hclock, by rw [hr]; exact hf.timestamp, ?_⟩
      intro t ht
      cases ht
      exact hclock

theorem Floor.mono {c : Time} {v : BeatView} (h : Floor c sh beat v)
    (hc : sh.clock ≤ sh'.clock)
    (hb : sh'.registry.heartbeats beat = sh.registry.heartbeats beat) : Floor c sh' beat v :=
  ⟨h.clock.trans hc, by rw [hb]; exact h.timestamp, h.pending⟩

/-! ## The watchdog -/

theorem WatchdogMove.registry_eq {pc pc' : WatchdogPc} (h : WatchdogMove env o sh pc sh' pc') :
    sh'.registry = sh.registry ∧ sh.clock ≤ sh'.clock := by
  cases h with
  | readClock hle => exact ⟨rfl, hle⟩
  | _ => exact ⟨rfl, le_rfl⟩

/-- Where a scan is: the heartbeats below `bound` have been judged, and `uncounted` of the
reports have not reached `watchdogStalls` yet. -/
structure Progress where
  scan : Scan
  bound : ℕ
  uncounted : ℕ

/-- The scan under way, if there is one. -/
def WatchdogPc.progress : WatchdogPc → Option Progress
  | .loadState sc | .loadTimestamp sc => some ⟨sc, sc.index, 0⟩
  | .recordWatchdogStall sc _ => some ⟨sc, sc.index + 1, 1⟩
  | .push sc _ => some ⟨sc, sc.index + 1, 0⟩
  | _ => none

/-- What a step does to the scan it belongs to. -/
inductive ScanStep (env : Env F) (sh sh' : Shared F) (p p' : Progress) : Prop
  /-- The next heartbeat is `Running` and older than the timeout. -/
  | report : p'.scan.reported = p.scan.reported ++ [p.bound] → p'.scan.stallDetected = true →
    p'.bound = p.bound + 1 →
    sh'.metrics.watchdogStalls + p'.uncounted = sh.metrics.watchdogStalls + p.uncounted + 1 →
    ScanStep env sh sh' p p'
  /-- The next heartbeat is not, or nothing is judged in this step. -/
  | pass : p'.scan.reported = p.scan.reported → p'.scan.stallDetected = p.scan.stallDetected →
    (p'.bound = p.bound ∨ p'.bound = p.bound + 1 ∧
      ¬ ((sh.registry.heartbeats p.bound).state = .running ∧
        (sh.registry.heartbeats p.bound).timestamp < p.scan.now - env.timeout)) →
    sh'.metrics.watchdogStalls + p'.uncounted = sh.metrics.watchdogStalls + p.uncounted →
    ScanStep env sh sh' p p'

theorem WatchdogMove.scanStep {pc pc' : WatchdogPc} (h : WatchdogMove env o sh pc sh' pc')
    {p : Progress} (hp : pc.progress = some p) :
    pc'.progress = none ∨ ∃ p', pc'.progress = some p' ∧ p'.scan.now = p.scan.now ∧
      ScanStep env sh sh' p p' := by
  cases h with
  | skip hi hst =>
    cases hp
    refine .inr ⟨_, rfl, rfl, .pass rfl rfl (.inr ⟨rfl, ?_⟩) rfl⟩
    rintro ⟨hrun, -⟩
    rw [hst] at hrun
    cases hrun
  | running =>
    cases hp
    exact .inr ⟨_, rfl, rfl, .pass rfl rfl (.inl rfl) rfl⟩
  | fresh hle =>
    cases hp
    refine .inr ⟨_, rfl, rfl, .pass rfl rfl (.inr ⟨rfl, ?_⟩) rfl⟩
    rintro ⟨-, hlt⟩
    exact absurd (lt_sub_comm.mp hlt) (not_lt_of_ge hle)
  | stalled =>
    cases hp
    exact .inr ⟨_, rfl, rfl, .report rfl rfl rfl rfl⟩
  | recordWatchdogStall =>
    cases hp
    exact .inr ⟨_, rfl, rfl, .pass rfl rfl (.inl rfl) rfl⟩
  | pushed =>
    cases hp
    exact .inr ⟨_, rfl, rfl, .pass rfl rfl (.inl rfl) rfl⟩
  | escalating | scanned | pushThrew | pushFailed => exact .inl rfl
  | _ => cases hp

/-- A scan does not touch the token. -/
theorem WatchdogMove.token_eq {pc pc' : WatchdogPc} (h : WatchdogMove env o sh pc sh' pc')
    (hp : pc.progress.isSome = true) : sh'.token = sh.token := by
  cases h <;> first | rfl | cases hp

end RadarRT
