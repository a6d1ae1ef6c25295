import Mathlib.Data.List.Basic
import RadarRT.System.Phases

/-!
# The stall test in 64 bits

`Config` keeps `livenessTimeout` as a signed 64-bit count of milliseconds and `scanOnce` converts
it to a `Clock::Duration`, a signed 64-bit count of nanoseconds. The conversion is a
multiplication by a million in 64 bits, so a long timeout wraps around and the test compares ages
with another number. This file has `scanOnce` in the arithmetic of the code and the timeouts for
which it tests what it means to test. On those it does what the watchdog of `System.Threads`,
which computes in integers, does when nobody interrupts its scan.
-/

namespace RadarRT

/-- A signed 64-bit number represents `x`. -/
def FitsInt64 (x : Int) : Prop := -9223372036854775808 ≤ x ∧ x ≤ 9223372036854775807

instance (x : Int) : Decidable (FitsInt64 x) :=
  inferInstanceAs (Decidable (_ ∧ _))

theorem toInt_sub_of_fits {a b : Int64} (h : FitsInt64 (a.toInt - b.toInt)) :
    (a - b).toInt = a.toInt - b.toInt := by
  obtain ⟨hlo, hhi⟩ := h
  rw [Int64.toInt_sub]
  exact Int.bmod_eq_of_le_mul_two (by omega) (by omega)

/-! ## `scanOnce` -/

/-- A heartbeat with its name, as the scan loads it. -/
structure NamedHeartbeat where
  name : String
  state : HeartbeatState
  timestamp : Int64
deriving DecidableEq

/-- The fields of `Config::Watchdog` that `scanOnce` reads. -/
structure WatchdogConfig where
  livenessTimeout : Int64 := 500
  escalateToShutdown : Bool := false

/-- A call of `reportStall`: the heartbeat it is about, and its age. -/
structure StallReport where
  heartbeat : NamedHeartbeat
  age : Int64
deriving DecidableEq

/-- The local `stallDetected`, and the calls of `reportStall` so far. -/
structure ScanLocals where
  stallDetected : Bool := false
  reports : List StallReport := []
deriving DecidableEq

/-- What a scan did. -/
structure ScanOutcome where
  reports : List StallReport
  /-- It called `requestShutdown`. -/
  shutdown : Bool
deriving DecidableEq

/-- The conversion of milliseconds to `Clock::Duration`. -/
def toClockDuration (milliseconds : Int64) : Int64 := milliseconds * 1000000

/-- The function `scanOnce` passes to `forEach`. -/
def examine (now timeout : Int64) (l : ScanLocals) (heartbeat : NamedHeartbeat) : ScanLocals :=
  if heartbeat.state ≠ .running then l
  else
    let age := now - heartbeat.timestamp
    if age ≤ timeout then l
    else { stallDetected := true, reports := l.reports ++ [⟨heartbeat, age⟩] }

/-- `Watchdog::scanOnce`, with the reading of the clock as a parameter. -/
def scanOnce (config : WatchdogConfig) (now : Int64) (registry : List NamedHeartbeat) :
    ScanOutcome :=
  let l := registry.foldl (examine now (toClockDuration config.livenessTimeout)) {}
  { reports := l.reports, shutdown := l.stallDetected && config.escalateToShutdown }

def ScanOutcome.reported (r : ScanOutcome) : List NamedHeartbeat := r.reports.map (·.heartbeat)

/-- The verdict of `examine` on one heartbeat. -/
def stalled (now timeout : Int64) (heartbeat : NamedHeartbeat) : Bool :=
  decide (heartbeat.state = .running) && !decide (now - heartbeat.timestamp ≤ timeout)

/-- The calls of `reportStall` one scan makes. -/
def stallReports (now timeout : Int64) (registry : List NamedHeartbeat) : List StallReport :=
  (registry.filter (stalled now timeout)).map fun hb => ⟨hb, now - hb.timestamp⟩

theorem examine_eq (now timeout : Int64) (l : ScanLocals) (hb : NamedHeartbeat) :
    examine now timeout l hb = if stalled now timeout hb then
      { stallDetected := true, reports := l.reports ++ [⟨hb, now - hb.timestamp⟩] } else l := by
  unfold examine stalled
  by_cases hrun : hb.state = .running
  · by_cases hage : now - hb.timestamp ≤ timeout
    · simp [hrun, hage]
    · simp [hrun, hage]
  · simp [hrun]

theorem foldl_examine (now timeout : Int64) (registry : List NamedHeartbeat) (l : ScanLocals) :
    registry.foldl (examine now timeout) l =
      { stallDetected := l.stallDetected || registry.any (stalled now timeout)
        reports := l.reports ++ stallReports now timeout registry } := by
  induction registry generalizing l with
  | nil => simp [stallReports]
  | cons hb registry ih =>
    rw [List.foldl_cons, ih, examine_eq]
    by_cases h : stalled now timeout hb = true
    · simp [h, stallReports]
    · simp [h, stallReports]

theorem scanOnce_reported (config : WatchdogConfig) (now : Int64)
    (registry : List NamedHeartbeat) :
    (scanOnce config now registry).reported =
      registry.filter (stalled now (toClockDuration config.livenessTimeout)) := by
  simp [scanOnce, ScanOutcome.reported, foldl_examine, stallReports, Function.comp_def]

theorem scanOnce_shutdown (config : WatchdogConfig) (now : Int64)
    (registry : List NamedHeartbeat) :
    (scanOnce config now registry).shutdown =
      (registry.any (stalled now (toClockDuration config.livenessTimeout)) &&
        config.escalateToShutdown) := by
  simp [scanOnce, foldl_examine]

/-! ## What it means to test -/

/-- The heartbeat is `Running`, and its age in nanoseconds exceeds the timeout. -/
def olderThan (livenessTimeout now : Int) (heartbeat : NamedHeartbeat) : Bool :=
  decide (heartbeat.state = .running ∧
    livenessTimeout * 1000000 < now - heartbeat.timestamp.toInt)

/-- The ages of all heartbeats fit in a `Clock::Duration`. -/
def AgesFit (now : Int64) (registry : List NamedHeartbeat) : Prop :=
  ∀ hb ∈ registry, FitsInt64 (now.toInt - hb.timestamp.toInt)

/-- With this timeout a scan reports exactly the heartbeats that are `Running` and older. -/
def StallTestExact (livenessTimeout : Int64) : Prop :=
  ∀ (escalate : Bool) (now : Int64) (registry : List NamedHeartbeat), AgesFit now registry →
    (scanOnce ⟨livenessTimeout, escalate⟩ now registry).reported =
      registry.filter (olderThan livenessTimeout.toInt now.toInt)

/-- Raising the timeout from the first to the second never makes a scan report more or escalate
where it did not. -/
def RaisingIsSafe (livenessTimeout livenessTimeout' : Int64) : Prop :=
  ∀ (escalate : Bool) (now : Int64) (registry : List NamedHeartbeat), AgesFit now registry →
    (scanOnce ⟨livenessTimeout', escalate⟩ now registry).reported.Sublist
        (scanOnce ⟨livenessTimeout, escalate⟩ now registry).reported ∧
      ((scanOnce ⟨livenessTimeout', escalate⟩ now registry).shutdown = true →
        (scanOnce ⟨livenessTimeout, escalate⟩ now registry).shutdown = true)

/-! ## The conversion -/

theorem toInt_toClockDuration (t : Int64) :
    (toClockDuration t).toInt = (t.toInt * 1000000).bmod (2 ^ 64) := by
  rw [toClockDuration, Int64.toInt_mul]
  rfl

theorem toClockDuration_exact {t : Int64} (h : FitsInt64 (t.toInt * 1000000)) :
    (toClockDuration t).toInt = t.toInt * 1000000 := by
  obtain ⟨hlo, hhi⟩ := h
  rw [toInt_toClockDuration]
  exact Int.bmod_eq_of_le_mul_two (by omega) (by omega)

/-- A million is a multiple of 64, so the result never is the largest number. -/
theorem toClockDuration_lt (t : Int64) : (toClockDuration t).toInt < 9223372036854775807 := by
  have hle : (toClockDuration t).toInt ≤ 9223372036854775807 := (toClockDuration t).toInt_le
  have hmod : (toClockDuration t).toInt % 64 = 0 := by
    rw [toInt_toClockDuration, Int.bmod_def]
    split <;> omega
  omega

theorem stalled_eq_olderThan {t now : Int64} (ht : FitsInt64 (t.toInt * 1000000))
    {hb : NamedHeartbeat} (hage : FitsInt64 (now.toInt - hb.timestamp.toInt)) :
    stalled now (toClockDuration t) hb = olderThan t.toInt now.toInt hb := by
  have hiff : ¬ now - hb.timestamp ≤ toClockDuration t ↔
      t.toInt * 1000000 < now.toInt - hb.timestamp.toInt := by
    rw [Int64.le_iff_toInt_le, toClockDuration_exact ht, toInt_sub_of_fits hage, Int.not_le]
  unfold stalled olderThan
  rw [Bool.decide_and, ← decide_not, decide_eq_decide.mpr hiff]

/-! ## When the test is exact -/

theorem stallTestExact_of_fits {t : Int64} (ht : FitsInt64 (t.toInt * 1000000)) :
    StallTestExact t := by
  intro escalate now registry hfit
  rw [scanOnce_reported]
  apply List.filter_congr
  intro hb hmem
  exact stalled_eq_olderThan ht (hfit hb hmem)

theorem StallTestExact.stalled_eq {t : Int64} (h : StallTestExact t) (now : Int64)
    (hb : NamedHeartbeat) (hage : FitsInt64 (now.toInt - hb.timestamp.toInt)) :
    stalled now (toClockDuration t) hb = olderThan t.toInt now.toInt hb := by
  have hscan := h false now [hb] (by simpa [AgesFit] using hage)
  rw [scanOnce_reported] at hscan
  cases hs : stalled now (toClockDuration t) hb <;>
    cases ho : olderThan t.toInt now.toInt hb <;> simp_all

/-- A timeout that is too long wraps below the largest age, which the test then reports; one that
is too short wraps above the smallest age, which it does not report. -/
theorem fits_of_stallTestExact {t : Int64} (h : StallTestExact t) :
    FitsInt64 (t.toInt * 1000000) := by
  constructor
  · by_contra hlow
    have hexact := h.stalled_eq Int64.minValue ⟨"", .running, 0⟩ (by decide)
    have hstalled : stalled Int64.minValue (toClockDuration t) ⟨"", .running, 0⟩ = false := by
      simp [stalled]
    have holder : olderThan t.toInt Int64.minValue.toInt ⟨"", .running, 0⟩ = true := by
      simp only [olderThan, Int64.toInt_minValue, Int64.toInt_zero, decide_eq_true_eq, true_and]
      omega
    rw [hstalled, holder] at hexact
    cases hexact
  · by_contra hhigh
    have hexact := h.stalled_eq Int64.maxValue ⟨"", .running, 0⟩ (by decide)
    have hstalled : stalled Int64.maxValue (toClockDuration t) ⟨"", .running, 0⟩ = true := by
      have hlt := toClockDuration_lt t
      have hage : (Int64.maxValue - 0).toInt = 9223372036854775807 := rfl
      simp only [stalled, Int64.le_iff_toInt_le, hage, decide_true, Bool.true_and,
        Bool.not_eq_true', decide_eq_false_iff_not]
      omega
    have holder : olderThan t.toInt Int64.maxValue.toInt ⟨"", .running, 0⟩ = false := by
      simp only [olderThan, Int64.toInt_maxValue, Int64.toInt_zero, decide_eq_false_iff_not,
        true_and]
      omega
    rw [hstalled, holder] at hexact
    cases hexact

theorem olderThan_anti {t t' now : Int} (h : t ≤ t') {hb : NamedHeartbeat}
    (hold : olderThan t' now hb = true) : olderThan t now hb = true := by
  simp only [olderThan, decide_eq_true_eq] at hold ⊢
  exact ⟨hold.1, by omega⟩

theorem raisingIsSafe {t t' : Int64} (hle : t ≤ t') (ht : FitsInt64 (t.toInt * 1000000))
    (ht' : FitsInt64 (t'.toInt * 1000000)) : RaisingIsSafe t t' := by
  rw [Int64.le_iff_toInt_le] at hle
  intro escalate now registry hfit
  have hanti : ∀ hb ∈ registry, stalled now (toClockDuration t') hb = true →
      stalled now (toClockDuration t) hb = true := by
    intro hb hmem hstalled
    rw [stalled_eq_olderThan ht' (hfit hb hmem)] at hstalled
    rw [stalled_eq_olderThan ht (hfit hb hmem)]
    exact olderThan_anti hle hstalled
  constructor
  · have hfilter : registry.filter (stalled now (toClockDuration t')) =
        (registry.filter (stalled now (toClockDuration t))).filter
          (stalled now (toClockDuration t')) := by
      rw [List.filter_filter]
      apply List.filter_congr
      intro hb hmem
      rw [eq_comm, Bool.and_eq_left_iff_imp]
      exact hanti hb hmem
    rw [scanOnce_reported, scanOnce_reported, hfilter]
    exact List.filter_sublist
  · rw [scanOnce_shutdown, scanOnce_shutdown]
    simp only [Bool.and_eq_true, List.any_eq_true]
    rintro ⟨⟨hb, hmem, hstalled⟩, hescalate⟩
    exact ⟨⟨hb, hmem, hanti hb hmem hstalled⟩, hescalate⟩

/-- The test is exact for a timeout if and only if its number of nanoseconds fits in 64 bits, and
between two such timeouts raising it never makes a scan report more or escalate where it did
not. -/
theorem stall_test_exact_iff (t : Int64) :
    (StallTestExact t ↔ FitsInt64 (t.toInt * 1000000)) ∧
      (FitsInt64 (t.toInt * 1000000) →
        ∀ t' ≤ t, FitsInt64 (t'.toInt * 1000000) → RaisingIsSafe t' t) :=
  ⟨⟨fits_of_stallTestExact, stallTestExact_of_fits⟩,
    fun ht _ hle ht' => raisingIsSafe hle ht' ht⟩

/-- The longest timeout of all wraps to minus one millisecond. A scan reports a thread that beats
at the very moment of the scan and requests shutdown, where a timeout of half a second reports
nothing. -/
theorem stall_test_fails_for_longest_timeout :
    let beating : NamedHeartbeat := ⟨"producer", .running, 0⟩
    AgesFit 0 [beating] ∧ olderThan Int64.maxValue.toInt 0 beating = false ∧
      (scanOnce ⟨Int64.maxValue, true⟩ 0 [beating]).reported = [beating] ∧
      (scanOnce ⟨Int64.maxValue, true⟩ 0 [beating]).shutdown = true ∧
      (scanOnce ⟨500, true⟩ 0 [beating]).reported = [] ∧
      (scanOnce ⟨500, true⟩ 0 [beating]).shutdown = false := by
  unfold AgesFit
  decide +kernel

/-! ## The scan of the running program -/

section
variable {F : Type} {env : Env F} {sh : Shared F}

/-- The watchdog of `System.Threads` on its own. -/
def watchdogAlone (env : Env F) (s : Shared F × WatchdogPc) (o : Outside F) :
    Option (Shared F × WatchdogPc) :=
  watchdogStep env o s.1 s.2

/-- `Watchdog::reportStall`. -/
def Shared.reportStall (now : Int64) (sh : Shared F) (r : StallReport) : Shared F :=
  { sh with
    metrics := sh.metrics.recordWatchdogStall
    output :=
      (sh.output.enqueue (stallRecord r.heartbeat.name r.age.toInt now.toInt) false).2 }

/-- The registry holds these heartbeats from number `k` on, up to its end. -/
def HeartbeatRegistry.Shows (r : HeartbeatRegistry) : ℕ → List NamedHeartbeat → Prop
  | k, [] => k = r.size
  | k, hb :: rest => r.names[k]? = some hb.name ∧
      r.heartbeats k = ⟨hb.timestamp.toInt, hb.state⟩ ∧ r.Shows (k + 1) rest

theorem Shared.foldl_reportStall_registry (now : Int64) (rs : List StallReport) (sh : Shared F) :
    (rs.foldl (Shared.reportStall now) sh).registry = sh.registry := by
  induction rs generalizing sh with
  | nil => rfl
  | cons r rs ih =>
    rw [List.foldl_cons, ih]
    rfl

theorem Shared.reportStall_policy (now : Int64) (sh : Shared F) (r : StallReport) :
    (sh.reportStall now r).output.queue.policy = sh.output.queue.policy :=
  (sh.output.queue.enqueueLocked_frame _ _).2.1

theorem HeartbeatRegistry.Shows.le_size {r : HeartbeatRegistry} {k : ℕ}
    {registry : List NamedHeartbeat} (h : r.Shows k registry) : k ≤ r.size := by
  induction registry generalizing k with
  | nil => exact Nat.le_of_eq h
  | cons hb rest ih => exact Nat.le_of_succ_le (ih h.2.2)

/-- A push that does not throw into the output queue returns at once. -/
theorem Ledger.push_returns {α : Type*} {l : Ledger α} (h : l.queue.policy = .dropOldest)
    (v : α) : ∃ b, l.push v false = some (.ok b, (l.enqueue v false).2) := by
  have hpush := Ledger.push_dropOldest h v false
  cases hresult : (l.enqueue v false).1 with
  | ok b => exact ⟨b, by rw [hpush, ← hresult]⟩
  | error e =>
    have herror : l.push v false = some (.error e, (l.enqueue v false).2) := by
      rw [hpush, ← hresult]
    exact absurd (Ledger.allocFails_of_error herror) Bool.false_ne_true

variable {o : Outside F} {t now : Int64}

/-- `reportStall` in the running program. -/
theorem reaches_reportStall (ho : o.failure = .none) (hq : sh.output.queue.policy = .dropOldest)
    (sc : Scan) (hnow : sc.now = now.toInt) {hb : NamedHeartbeat}
    (hname : sh.registry.names[sc.index]? = some hb.name)
    (hage : FitsInt64 (now.toInt - hb.timestamp.toInt)) :
    Lts.Reaches (watchdogAlone env)
      (sh, .recordWatchdogStall sc (now.toInt - hb.timestamp.toInt))
      (sh.reportStall now ⟨hb, now - hb.timestamp⟩, .loadState sc.next) := by
  have hrecord : watchdogAlone env
      (sh, .recordWatchdogStall sc (now.toInt - hb.timestamp.toInt)) o =
      some ({ sh with metrics := sh.metrics.recordWatchdogStall },
        .push sc (now.toInt - hb.timestamp.toInt)) := rfl
  have hpush : watchdogAlone env ({ sh with metrics := sh.metrics.recordWatchdogStall },
      .push sc (now.toInt - hb.timestamp.toInt)) o =
      some (sh.reportStall now ⟨hb, now - hb.timestamp⟩, .loadState sc.next) := by
    obtain ⟨b, hb'⟩ := Ledger.push_returns hq
      (stallRecord hb.name (now.toInt - hb.timestamp.toInt) now.toInt)
    simp [watchdogAlone, watchdogStep, ho, hname, hnow, hb', Shared.reportStall,
      toInt_sub_of_fits hage]
  exact (Lts.Reaches.single hrecord).trans (.single hpush)

/-- One heartbeat of the scan, from the load of its state to the load of the next. -/
theorem reaches_next_heartbeat (ho : o.failure = .none) (ht : FitsInt64 (t.toInt * 1000000))
    (henv : env.config.livenessTimeout = t.toInt) (hq : sh.output.queue.policy = .dropOldest)
    {sc : Scan} (hnow : sc.now = now.toInt) {hb : NamedHeartbeat} {rest : List NamedHeartbeat}
    (hshow : sh.registry.Shows sc.index (hb :: rest))
    (hage : FitsInt64 (now.toInt - hb.timestamp.toInt)) :
    Lts.Reaches (watchdogAlone env) (sh, .loadState sc)
      (if stalled now (toClockDuration t) hb then
        (sh.reportStall now ⟨hb, now - hb.timestamp⟩, .loadState sc.report.next)
      else (sh, .loadState sc.next)) := by
  obtain ⟨hname, hbeat, hrest⟩ := hshow
  have hindex : sc.index < sh.registry.size := hrest.le_size
  have htimeout : env.timeout = t.toInt * 1000000 := by rw [Env.timeout, henv]
  rw [stalled_eq_olderThan ht hage]
  by_cases hrun : hb.state = .running
  · have hload : watchdogAlone env (sh, .loadState sc) o = some (sh, .loadTimestamp sc) := by
      simp [watchdogAlone, watchdogStep, hindex, hbeat, hrun]
    by_cases hold : t.toInt * 1000000 < now.toInt - hb.timestamp.toInt
    · have htest : watchdogAlone env (sh, .loadTimestamp sc) o =
          some (sh, .recordWatchdogStall sc.report (now.toInt - hb.timestamp.toInt)) := by
        simp only [watchdogAlone, watchdogStep, hbeat, htimeout, hnow, if_neg (Int.not_le.mpr hold)]
      have hreport : Lts.Reaches (watchdogAlone env)
          (sh, .recordWatchdogStall sc.report (now.toInt - hb.timestamp.toInt))
          (sh.reportStall now ⟨hb, now - hb.timestamp⟩, .loadState sc.report.next) :=
        reaches_reportStall ho hq sc.report hnow hname hage
      rw [if_pos (by simp [olderThan, hrun, hold])]
      exact ((Lts.Reaches.single hload).trans (.single htest)).trans hreport
    · have htest : watchdogAlone env (sh, .loadTimestamp sc) o = some (sh, .loadState sc.next) := by
        simp only [watchdogAlone, watchdogStep, hbeat, htimeout, hnow, if_pos (Int.not_lt.mp hold)]
      rw [if_neg (by simp [olderThan, hold])]
      exact (Lts.Reaches.single hload).trans (.single htest)
  · have hload : watchdogAlone env (sh, .loadState sc) o = some (sh, .loadState sc.next) := by
      simp [watchdogAlone, watchdogStep, hindex, hbeat, hrun]
    rw [if_neg (by simp [olderThan, hrun])]
    exact .single hload

/-- The rest of a scan, by induction on the heartbeats it still has to visit. -/
theorem reaches_end_of_registry (ho : o.failure = .none) (ht : FitsInt64 (t.toInt * 1000000))
    (henv : env.config.livenessTimeout = t.toInt) (hq : sh.output.queue.policy = .dropOldest)
    (sc : Scan) (hnow : sc.now = now.toInt) {registry : List NamedHeartbeat}
    (hshow : sh.registry.Shows sc.index registry) (hfit : AgesFit now registry) :
    ∃ sc' : Scan, sc'.index = sh.registry.size ∧
      sc'.stallDetected =
        (sc.stallDetected || registry.any (stalled now (toClockDuration t))) ∧
      Lts.Reaches (watchdogAlone env) (sh, .loadState sc)
        ((stallReports now (toClockDuration t) registry).foldl (Shared.reportStall now) sh,
          .loadState sc') := by
  induction registry generalizing sh sc with
  | nil => exact ⟨sc, hshow, by simp, Lts.Reaches.refl _⟩
  | cons hb rest ih =>
    have hone := reaches_next_heartbeat ho ht henv hq hnow hshow (hfit hb (by simp))
    have hfit' : AgesFit now rest := fun hb' hmem => hfit hb' (by simp [hmem])
    by_cases h : stalled now (toClockDuration t) hb = true
    · rw [if_pos h] at hone
      have hq' : (sh.reportStall now ⟨hb, now - hb.timestamp⟩).output.queue.policy =
          .dropOldest := by
        rw [Shared.reportStall_policy, hq]
      obtain ⟨sc', hindex, hdetected, hreach⟩ := ih hq' sc.report.next hnow hshow.2.2 hfit'
      refine ⟨sc', hindex, ?_, ?_⟩
      · simpa [h, Scan.report, Scan.next] using hdetected
      · simpa [stallReports, h] using hone.trans hreach
    · rw [if_neg h] at hone
      obtain ⟨sc', hindex, hdetected, hreach⟩ := ih hq sc.next hnow hshow.2.2 hfit'
      refine ⟨sc', hindex, ?_, ?_⟩
      · simpa [h, Scan.next] using hdetected
      · simpa [stallReports, h] using hone.trans hreach

/-- With a timeout that fits, a scan of the watchdog that nobody interrupts does what `scanOnce`
says: it makes the same reports in the same order and requests shutdown when it does. -/
theorem scan_alone_eq_scanOnce (ho : o.failure = .none) (ht : FitsInt64 (t.toInt * 1000000))
    (henv : env.config.livenessTimeout = t.toInt) (hq : sh.output.queue.policy = .dropOldest)
    {registry : List NamedHeartbeat} (hshow : sh.registry.Shows 0 registry)
    (hfit : AgesFit now registry) :
    let outcome := scanOnce ⟨t, env.config.escalateToShutdown⟩ now registry
    let sh' := outcome.reports.foldl (Shared.reportStall now) sh
    Lts.Reaches (watchdogAlone env) (sh, .loadState { now := now.toInt })
      (if outcome.shutdown then sh'.requestShutdown else sh', .waitFor) := by
  intro outcome sh'
  obtain ⟨sc', hindex, hdetected, hreach⟩ :=
    reaches_end_of_registry ho ht henv hq { now := now.toInt } rfl hshow hfit
  have hreports : outcome.reports = stallReports now (toClockDuration t) registry := by
    simp [outcome, scanOnce, foldl_examine]
  have hshutdown : outcome.shutdown =
      (sc'.stallDetected && env.config.escalateToShutdown) := by
    rw [hdetected]
    exact scanOnce_shutdown _ _ _
  rw [← hreports] at hreach
  have hlast : ¬ sc'.index < sh'.registry.size := by
    rw [Shared.foldl_reportStall_registry, hindex]
    exact Nat.lt_irrefl _
  by_cases h : outcome.shutdown = true
  · have hend : watchdogAlone env (sh', .loadState sc') o = some (sh', .escalate) := by
      simp only [watchdogAlone, watchdogStep, if_neg hlast, ← hshutdown, h, if_true]
    have hescalate : watchdogAlone env (sh', .escalate) o = some (sh'.requestShutdown, .waitFor) :=
      rfl
    rw [if_pos h]
    exact (hreach.trans (.single hend)).trans (.single hescalate)
  · have hend : watchdogAlone env (sh', .loadState sc') o = some (sh', .waitFor) := by
      simp only [watchdogAlone, watchdogStep, if_neg hlast, ← hshutdown, h]
      rfl
    rw [if_neg h]
    exact hreach.trans (.single hend)

end

end RadarRT
