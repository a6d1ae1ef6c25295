import RadarRT.System.Liveness
import RadarRT.Watchdog.Beats

/-!
# No hang goes unreported

A thread that hangs in the middle of its work leaves its heartbeat at `Running` with a timestamp
that is never renewed. The verdicts of single scans say that a scan which begins after the timeout
reports it. This file is about runs without end: as long as the watchdog is scheduled fairly, its
timed wait included, such a scan does take place, whatever the other threads do meanwhile, unless
the shutdown was requested. With `escalateToShutdown` set it is requested.
-/

namespace RadarRT

variable {F : Type} {N : ℕ} {env : Env F} {o : Outside F} {sh sh' : Shared F}

/-! ## How far the watchdog is from a heartbeat -/

/-- From a place in a scan to heartbeat `j`, if the scan began after `due` and has not passed `j`
yet; otherwise to the end of the scan and all through the next one. -/
def Scan.distance (j : ℕ) (due : Time) (size : ℕ) (sc : Scan) : ℕ :=
  if due < sc.now ∧ sc.index ≤ j then 4 * (j - sc.index)
  else 4 * j + 4 * (size - sc.index) + 4

def WatchdogPc.distance (j : ℕ) (due : Time) (size : ℕ) : WatchdogPc → ℕ
  | .configure | .escalate => 4 * j + 7
  | .waitFor => 4 * j + 6
  | .readClock => 4 * j + 5
  | .loadState sc => sc.distance j due size + 4
  | .loadTimestamp sc => sc.distance j due size + 3
  | .recordWatchdogStall sc _ => sc.distance j due size + 2
  | .push sc _ => sc.distance j due size + 1
  | _ => 0

theorem Scan.distance_next {j size : ℕ} {due : Time} {sc : Scan}
    (h : ¬ (due < sc.now ∧ sc.index = j)) (hi : sc.index < size) :
    sc.next.distance j due size + 4 ≤ sc.distance j due size := by
  unfold Scan.distance Scan.next
  by_cases hdue : due < sc.now
  · have hne : sc.index ≠ j := fun he => h ⟨hdue, he⟩
    simp only [hdue, true_and]
    split <;> split <;> omega
  · simp only [hdue, false_and, if_false]
    omega

/-- At its end a scan is past every registered heartbeat. -/
theorem Scan.distance_end {j size : ℕ} {due : Time} {sc : Scan} (hj : j < size)
    (hi : size ≤ sc.index) : sc.distance j due size = 4 * j + 4 := by
  unfold Scan.distance
  split <;> omega

/-- Every step of the watchdog brings it closer to the report of heartbeat `j`, or makes it. -/
theorem WatchdogMove.distance_lt {pc pc' : WatchdogPc} (h : WatchdogMove env o sh pc sh' pc')
    (j : ℕ) (due : Time) (hj : j < sh.registry.size) (hpc : pc.Finds env sh.registry.size)
    (hthrew : pc'.threw = false) (htoken : sh'.token = false)
    (hclock : pc = .readClock → due < sh.clock)
    (hhang : ∀ sc, pc = .loadState sc ∨ pc = .loadTimestamp sc → due < sc.now → sc.index = j →
      (sh.registry.heartbeats j).state = .running ∧
        env.timeout < sc.now - (sh.registry.heartbeats j).timestamp) :
    pc'.distance j due sh.registry.size < pc.distance j due sh.registry.size ∨
      ∃ sc age, pc = .push sc age ∧ due < sc.now ∧ sc.index = j := by
  cases h with
  | waitStop ht =>
    rw [ht] at htoken
    cases htoken
  | escalate => cases htoken
  | waitFailed | pushThrew | pushFailed | recordThreadException | requestShutdown => cases hthrew
  | readClock hle =>
    left
    have := hclock rfl
    have hfresh : due < o.now ∧ 0 ≤ j := ⟨this.trans_le hle, Nat.zero_le j⟩
    simp only [WatchdogPc.distance, Scan.distance, if_pos hfresh]
    omega
  | @skip sc hi hwait =>
    left
    have hnot : ¬ (due < sc.now ∧ sc.index = j) := by
      rintro ⟨hdue, rfl⟩
      rw [(hhang sc (.inl rfl) hdue rfl).1] at hwait
      cases hwait
    have := Scan.distance_next hnot hi
    simp only [WatchdogPc.distance]
    omega
  | escalating hi | scanned hi =>
    left
    simp only [WatchdogPc.distance, Scan.distance_end hj hi]
    omega
  | @fresh sc hle =>
    left
    have hnot : ¬ (due < sc.now ∧ sc.index = j) := by
      rintro ⟨hdue, rfl⟩
      exact absurd (hhang sc (.inr rfl) hdue rfl).2 (not_lt.mpr hle)
    have := Scan.distance_next hnot hpc
    simp only [WatchdogPc.distance]
    omega
  | @pushed sc age =>
    by_cases hat : due < sc.now ∧ sc.index = j
    · exact .inr ⟨sc, age, rfl, hat⟩
    · left
      have := Scan.distance_next hat hpc.1
      simp only [WatchdogPc.distance]
      omega
  | @stalled sc =>
    left
    show sc.distance j due sh.registry.size + 2 < sc.distance j due sh.registry.size + 3
    omega
  | configure | waitElapsed | running | recordWatchdogStall =>
    left
    simp only [WatchdogPc.distance]
    omega

/-! ## What a report leaves behind -/

/-- A heartbeat that is being reported has been noted in the scan. -/
def WatchdogPc.Notes : WatchdogPc → Prop
  | .recordWatchdogStall sc _ | .push sc _ => sc.stallDetected = true
  | _ => True

/-- What holds of the watchdog in every reachable state: it stops of itself only on request. -/
structure Dutiful (s : State F N) : Prop where
  notes : s.watchdog.Notes
  finished : s.watchdog = .finished false → s.shared.token = true

theorem WatchdogMove.notes {pc pc' : WatchdogPc} (h : WatchdogMove env o sh pc sh' pc')
    (hpc : pc.Notes) : pc'.Notes ∧ (pc' = .finished false → sh'.token = true) := by
  cases h with
  | waitStop ht => exact ⟨trivial, fun _ => ht⟩
  | stalled => exact ⟨rfl, fun he => by cases he⟩
  | recordWatchdogStall => exact ⟨hpc, fun he => by cases he⟩
  | _ => exact ⟨trivial, fun he => by cases he⟩

theorem dutiful_move {s s' : State F N} {a : Action F N} (h : Move env s a s')
    (hs : Dutiful s) : Dutiful s' := by
  cases h with
  | main hm =>
    cases hm with
    | startWatchdog => exact ⟨trivial, fun he => by cases he⟩
    | waitRequest | requestShutdown => exact ⟨hs.notes, fun _ => rfl⟩
    | _ => exact ⟨hs.notes, hs.finished⟩
  | producer hm => exact ⟨hs.notes, fun he => hm.extends.token (hs.finished he)⟩
  | worker hm => exact ⟨hs.notes, fun he => hm.extends.token (hs.finished he)⟩
  | logger hm => exact ⟨hs.notes, fun he => hm.extends.token (hs.finished he)⟩
  | watchdog hm => exact ⟨(hm.notes hs.notes).1, (hm.notes hs.notes).2⟩

theorem Reachable.dutiful {s : State F N} (h : Reachable env s) : Dutiful s :=
  h.invariant (fun _ => ⟨trivial, fun he => by cases he⟩) fun _ _ _ => dutiful_move

/-- With the output queue open, a push by a watchdog that does not throw is accepted. -/
theorem WatchdogMove.of_push {pc' : WatchdogPc} {sc : Scan} {age : Duration}
    (h : WatchdogMove env o sh (.push sc age) sh' pc')
    (hpol : sh.output.queue.policy ≠ .dropNewest) (hopen : sh.output.queue.closed = false)
    (hthrew : pc'.threw = false) :
    pc' = .loadState sc.next ∧
      stallRecord (sh.registry.names.getD sc.index "") age sc.now ∈ sh'.output.accepted := by
  cases h with
  | @pushed _ _ b q f hp =>
    refine ⟨rfl, ?_⟩
    cases b with
    | false =>
      have := (Ledger.push_false hpol hp).isClosed
      rw [hopen] at this
      cases this
    | true =>
      rw [(Ledger.push_true hpol hp).accepted]
      simp
  | pushThrew | pushFailed => cases hthrew

/-- A scan that began at `now` and has found a stall, up to the escalation. -/
def WatchdogPc.Alarmed (now : Time) : WatchdogPc → Prop
  | .loadState sc | .loadTimestamp sc | .recordWatchdogStall sc _ | .push sc _ =>
    sc.now = now ∧ sc.stallDetected = true
  | .escalate => True
  | _ => False

theorem WatchdogMove.alarmed {pc pc' : WatchdogPc} (h : WatchdogMove env o sh pc sh' pc')
    {now : Time} (hpc : pc.Alarmed now) (hesc : env.config.escalateToShutdown = true)
    (hthrew : pc'.threw = false) : pc'.Alarmed now ∨ sh'.token = true := by
  cases h with
  | scanned _ hno =>
    rw [hpc.2, hesc] at hno
    cases hno
  | escalating => exact .inl trivial
  | stalled => exact .inl ⟨hpc.1, rfl⟩
  | escalate => exact .inr rfl
  | skip | running | fresh | recordWatchdogStall | pushed => exact .inl hpc
  | waitFailed | pushThrew | pushFailed | recordThreadException | requestShutdown => cases hthrew
  | configure | waitStop | waitElapsed | readClock => cases hpc

/-! ## Whose step it was -/

theorem Move.of_watchdog {s s' : State F N} {a : Action F N} (h : Move env s a s')
    (ha : a.1 = .watchdog) : ∃ sh pc, WatchdogMove env a.2 s.shared s.watchdog sh pc ∧
      s' = { s with shared := sh, watchdog := pc } := by
  cases h with
  | watchdog hm => exact ⟨_, _, hm, rfl⟩
  | _ => cases ha

theorem Move.clock_le {s s' : State F N} {a : Action F N} (h : Move env s a s') :
    s.shared.clock ≤ s'.shared.clock := by
  cases h with
  | main hm => cases hm <;> exact le_rfl
  | producer hm => exact hm.extends.clock
  | worker hm => exact hm.extends.clock
  | logger hm => exact hm.extends.clock
  | watchdog hm => exact hm.extends.clock

theorem Move.token {s s' : State F N} {a : Action F N} (h : Move env s a s')
    (ht : s.shared.token = true) : s'.shared.token = true := by
  cases h with
  | main hm => cases hm <;> first | exact ht | rfl
  | producer hm => exact hm.extends.token ht
  | worker hm => exact hm.extends.token ht
  | logger hm => exact hm.extends.token ht
  | watchdog hm => exact hm.extends.token ht

/-- Nobody else moves a watchdog that has been started. -/
theorem Move.watchdog_eq {s s' : State F N} {a : Action F N} (h : Move env s a s')
    (hst : Started s) (ha : a.1 ≠ .watchdog) (hd : s.watchdog ≠ .notStarted) :
    s'.watchdog = s.watchdog := by
  cases h with
  | main hm =>
    have hstart := hst.starting
    cases hm with
    | startWatchdog hm =>
      simp only [State.Starting, hm] at hstart
      exact absurd hstart.2 hd
    | _ => rfl
  | watchdog hm => exact absurd rfl ha
  | _ => rfl

/-- A watchdog that has not ended can move when its timed wait may run out. -/
theorem WatchdogPc.blocked {pc : WatchdogPc} (ho : o.Willing sh) (helapsed : o.elapsed = true)
    (hpol : sh.output.queue.policy = .dropOldest) (h : watchdogStep env o sh pc = none) :
    pc.joined = true := by
  cases pc with
  | notStarted | finished => rfl
  | waitFor =>
    simp only [watchdogStep, ho.throws, helapsed, Bool.false_eq_true, if_false, if_true] at h
    split at h <;> cases h
  | readClock => simp [watchdogStep, Shared.readClock, ho.now] at h
  | loadState sc =>
    simp only [watchdogStep] at h
    split at h <;> cases h
  | push sc age =>
    simp only [watchdogStep, ho.failure, reduceCtorEq, if_false,
      Ledger.push_dropOldest hpol] at h
    split at h <;> simp_all
  | _ => cases h

/-! ## A thread hangs -/

/-- An infinite run in which heartbeat `j` shows `Running` since `beat` and is overdue at time `t`,
and is never touched again, while the watchdog is scheduled fairly and does not throw. -/
structure HangRun (env : Env F) (r : Lts.Trace (step (N := N) env)) (j t : ℕ) (beat : Time) :
    Prop where
  reachable : Reachable env (r.state 0)
  registered : j < (initialRegistry N).size
  started : (r.state t).watchdog ≠ .notStarted
  hangs : ∀ n ≥ t, (r.state n).shared.registry.heartbeats j = ⟨beat, .running⟩
  overdue : env.timeout < (r.state t).shared.clock - beat
  fair : r.Fair (fun a => a.1 = .watchdog) fun a => a.2.throws = false
  calm : ∀ n, (r.state n).watchdog.threw = false

namespace HangRun

variable {r : Lts.Trace (step (N := N) env)} {j t : ℕ} {beat : Time}

theorem size_eq (h : HangRun env r j t beat) (n : ℕ) :
    (r.state n).shared.registry.size = (initialRegistry N).size :=
  congrArg List.length (trace_reachable h.reachable n).fixed.names

theorem clock_le (r : Lts.Trace (step (N := N) env)) {n m : ℕ} (h : n ≤ m) :
    (r.state n).shared.clock ≤ (r.state m).shared.clock := by
  induction m, h using Nat.le_induction with
  | base => exact le_rfl
  | succ m _ ih =>
    exact ih.trans (trace_move r m).clock_le

theorem started_all (h : HangRun env r j t beat) {n : ℕ} (hn : n ≥ t) :
    (r.state n).watchdog ≠ .notStarted := by
  induction n, hn using Nat.le_induction with
  | base => exact h.started
  | succ n hn ih =>
    by_cases hmine : (r.label n).1 = .watchdog
    · obtain ⟨sh, pc, hm, hs⟩ := (trace_move r n).of_watchdog hmine
      rw [hs]
      exact hm.alive.2
    · rw [(trace_move r n).watchdog_eq (trace_reachable h.reachable n).started hmine ih]
      exact ih

/-- A step of another thread leaves the watchdog where it is. -/
theorem watchdog_eq (h : HangRun env r j t beat) {n : ℕ} (hn : n ≥ t)
    (hmine : (r.label n).1 ≠ .watchdog) : (r.state (n + 1)).watchdog = (r.state n).watchdog :=
  (trace_move r n).watchdog_eq (trace_reachable h.reachable n).started hmine (h.started_all hn)

/-- The watchdog is never without a move, unless it was told to stop. -/
theorem token_of_blocked (h : HangRun env r j t beat) {n : ℕ} (hn : n ≥ t)
    (hb : ∀ a : Action F N, a.1 = .watchdog → a.2.throws = false →
      step env (r.state n) a = none) : (r.state n).shared.token = true := by
  have hr := trace_reachable h.reachable n
  have hnone : watchdogStep env
      { (r.label n).2.kind (r.state n).shared with elapsed := true } (r.state n).shared
      (r.state n).watchdog = none := by
    simpa [step] using
      hb (.watchdog, { (r.label n).2.kind (r.state n).shared with elapsed := true }) rfl rfl
  have hj := WatchdogPc.blocked ⟨rfl, le_rfl⟩ rfl hr.fixed.output hnone
  apply hr.dutiful.finished
  have hcalm := h.calm n
  have hstarted := h.started_all hn
  cases hpc : (r.state n).watchdog with
  | notStarted => exact absurd hpc hstarted
  | finished died =>
    cases died with
    | true =>
      rw [hpc] at hcalm
      cases hcalm
    | false => rfl
  | _ =>
    rw [hpc] at hj
    cases hj

/-- The output queue is open until a shutdown is requested. -/
theorem output_open (h : HangRun env r j t beat) {n : ℕ}
    (htoken : ¬ (r.state n).shared.token = true) :
    (r.state n).shared.output.queue.closed = false := by
  have ht := (trace_reachable h.reachable n).teardown
  by_contra hc
  have hstage := ht.outputClosed.mp (by simpa using hc)
  exact htoken (ht.token (by omega))

/-- A record of heartbeat `j` from a scan that began at `now` or later has been accepted, and that
scan goes on. -/
def Reported (env : Env F) (s : State F N) (j : ℕ) (now : Time) : Prop :=
  ∃ sc age now', s.watchdog = .loadState sc ∧ sc.stallDetected = true ∧ now ≤ now' ∧
    env.timeout < age ∧
    stallRecord (s.shared.registry.names.getD j "") age now' ∈ s.shared.output.accepted

/-- Once the hanging heartbeat is overdue it is reported. -/
theorem eventually_reported (h : HangRun env r j t beat) :
    ∃ m ≥ t, (r.state m).shared.token = true ∨
      Reported env (r.state m) j (r.state t).shared.clock := by
  have hdue : ∀ {now : Time}, (r.state t).shared.clock - 1 < now →
      env.timeout < now - beat := by
    intro now hnow
    have hle : (r.state t).shared.clock ≤ now := Int.le_of_sub_one_lt hnow
    exact h.overdue.trans_le (sub_le_sub_right hle beat)
  refine r.eventually h.fair
    (fun n => (r.state n).shared.token = true ∨
      Reported env (r.state n) j (r.state t).shared.clock)
    (fun s => s.watchdog.distance j ((r.state t).shared.clock - 1) (initialRegistry N).size)
    ?_ ?_ fun n hn hb => .inl (h.token_of_blocked hn hb)
  · intro n hn hgoal hmine hgoal'
    obtain ⟨sh, pc, hm, hs⟩ := (trace_move r n).of_watchdog hmine
    have hr := trace_reachable h.reachable n
    have hsize := h.size_eq n
    have hcalm := h.calm (n + 1)
    rw [hs] at hgoal' hcalm ⊢
    rw [not_or] at hgoal hgoal'
    have hfinds := hr.describable.watchdog
    rw [← hsize] at hfinds ⊢
    rcases hm.distance_lt j ((r.state t).shared.clock - 1) (by rw [hsize]; exact h.registered)
      hfinds hcalm (by simpa using hgoal'.1)
      (fun _ => (Int.sub_one_lt_of_le le_rfl).trans_le (clock_le r hn))
      (fun sc _ hnow _ => by rw [h.hangs n hn]; exact ⟨rfl, hdue hnow⟩) with
      hlt | ⟨sc, age, hpc, hnow, hindex⟩
    · exact hlt
    · -- the record of `j` is accepted in this step
      rw [hpc] at hm hfinds
      obtain ⟨hpc', hacc⟩ := hm.of_push hr.fixed.output_ne (h.output_open hgoal.1) hcalm
      refine absurd ⟨sc.next, age, sc.now, hpc', ?_, ?_, hfinds.2, ?_⟩ hgoal'.2
      · have := hr.dutiful.notes
        rw [hpc] at this
        exact this
      · exact Int.le_of_sub_one_lt hnow
      · rw [hm.registry_eq.1, ← hindex]
        exact hacc
  · intro n hn hgoal hmine _
    rw [h.watchdog_eq hn hmine]

/-- A scan that has found a stall ends in a shutdown request, if it is to escalate. -/
theorem eventually_escalated (h : HangRun env r j t beat)
    (hesc : env.config.escalateToShutdown = true) {m : ℕ} (hm : m ≥ t) {now : Time}
    (halarmed : (r.state m).watchdog.Alarmed now) :
    ∃ k ≥ m, (r.state k).shared.token = true := by
  have hall : ∀ n ≥ m, (r.state n).shared.token = true ∨ (r.state n).watchdog.Alarmed now := by
    intro n hn
    induction n, hn using Nat.le_induction with
    | base => exact .inr halarmed
    | succ n hn ih =>
      rcases ih with htoken | hin
      · exact .inl (trace_move r n |>.token htoken)
      · by_cases hmine : (r.label n).1 = .watchdog
        · obtain ⟨sh, pc, hmove, hs⟩ := (trace_move r n).of_watchdog hmine
          have hcalm := h.calm (n + 1)
          rw [hs] at hcalm ⊢
          exact (hmove.alarmed hin hesc hcalm).symm
        · rw [h.watchdog_eq (le_trans hm hn) hmine]
          exact .inr hin
  refine r.eventually h.fair (fun n => (r.state n).shared.token = true)
    (fun s => s.watchdog.distance j now (initialRegistry N).size) ?_ ?_
    fun n hn hb => h.token_of_blocked (le_trans hm hn) hb
  · intro n hn hgoal hmine hgoal'
    obtain ⟨sh, pc, hmove, hs⟩ := (trace_move r n).of_watchdog hmine
    have hin := (hall n hn).resolve_left hgoal
    have hsize := h.size_eq n
    have hcalm := h.calm (n + 1)
    have hfinds := (trace_reachable h.reachable n).describable.watchdog
    rw [hs] at hgoal' hcalm ⊢
    rw [← hsize] at hfinds ⊢
    -- no scan of this run is later than itself
    have hsame : ∀ sc : Scan, (r.state n).watchdog = .loadState sc ∨
        (r.state n).watchdog = .loadTimestamp sc ∨ (∃ age, (r.state n).watchdog = .push sc age) →
        ¬ now < sc.now := by
      rintro sc (hpc | hpc | ⟨age, hpc⟩) <;> rw [hpc] at hin <;> exact not_lt.mpr hin.1.le
    rcases hmove.distance_lt j now (by rw [hsize]; exact h.registered) hfinds hcalm
      (by simpa using hgoal') (fun hpc => by rw [hpc] at hin; cases hin)
      (fun sc hpc hlt _ => absurd hlt (hsame sc (hpc.imp_right .inl))) with
      hlt | ⟨sc, age, hpc, hlt, -⟩
    · exact hlt
    · exact absurd hlt (hsame sc (.inr (.inr ⟨age, hpc⟩)))
  · intro n hn hgoal hmine _
    rw [h.watchdog_eq (le_trans hm hn) hmine]

end HangRun

/-- A heartbeat that shows `Running`, is overdue and is never renewed is reported by a scan that
began no earlier than now: its record, with an age over the timeout, is accepted by the output
queue, unless a shutdown has been requested. With `escalateToShutdown` a shutdown is requested. -/
theorem hang_reported {r : Lts.Trace (step (N := N) env)} {j t : ℕ} {beat : Time}
    (h : HangRun env r j t beat) :
    (∃ m ≥ t, (r.state m).shared.token = true ∨ ∃ age now, (r.state t).shared.clock ≤ now ∧
      env.timeout < age ∧ stallRecord ((r.state m).shared.registry.names.getD j "") age now ∈
        (r.state m).shared.output.accepted) ∧
    (env.config.escalateToShutdown = true → ∃ m ≥ t, (r.state m).shared.token = true) := by
  obtain ⟨m, hm, htoken | ⟨sc, age, now, hpc, hdetected, hnow, hage, hacc⟩⟩ :=
    h.eventually_reported
  · exact ⟨⟨m, hm, .inl htoken⟩, fun _ => ⟨m, hm, htoken⟩⟩
  · refine ⟨⟨m, hm, .inr ⟨age, now, hnow, hage, hacc⟩⟩, ?_⟩
    intro hesc
    have halarmed : (r.state m).watchdog.Alarmed sc.now := by
      rw [hpc]
      exact ⟨rfl, hdetected⟩
    obtain ⟨k, hk, htoken⟩ := h.eventually_escalated hesc hm halarmed
    exact ⟨k, le_trans hm hk, htoken⟩

/-! ## Such runs exist -/

/-- The watchdog scans on, if it is not to escalate and nobody has requested a shutdown. -/
structure ScansOn (s : State F N) : Prop where
  token : s.shared.token = false
  joined : s.watchdog.joined = false
  threw : s.watchdog.threw = false
  escalate : s.watchdog ≠ .escalate

theorem WatchdogMove.scansOn {s : State F N} {sh : Shared F} {pc : WatchdogPc}
    (h : WatchdogMove env o s.shared s.watchdog sh pc) (hs : ScansOn s) (ho : o.throws = false)
    (hesc : env.config.escalateToShutdown = false) :
    ScansOn { s with shared := sh, watchdog := pc } := by
  obtain ⟨ht, -, hthrew, hne⟩ := hs
  generalize s.watchdog = pc₀ at h hthrew hne
  generalize s.shared = sh₀ at h ht
  have hno : ¬ o.throws = true := by simp [ho]
  cases h with
  | waitStop hstop =>
    rw [ht] at hstop
    cases hstop
  | escalating _ _ hyes =>
    rw [hesc] at hyes
    cases hyes
  | waitFailed hyes | pushThrew hyes | pushFailed hyes => exact absurd hyes hno
  | escalate => exact absurd rfl hne
  | recordThreadException | requestShutdown => cases hthrew
  | _ => exact ⟨ht, rfl, rfl, fun he => by cases he⟩

/-- The watchdog alone, its timed wait running out at once. -/
def scanAlone (s : State ℕ N) : Action ℕ N :=
  (.watchdog, { elapsed := true, now := s.shared.clock, samples := fun _ => 0 })

theorem exists_scanning {env : Env ℕ} (hesc : env.config.escalateToShutdown = false)
    {s : State ℕ N} (hreach : Reachable env s) (hs : ScansOn s) :
    ∃ r : Lts.Trace (step (N := N) env), r.state 0 = s ∧
      (∀ n, ScansOn (r.state n) ∧ (r.state n).shared.registry = s.shared.registry) ∧
      ∀ n, (r.label n).1 = .watchdog := by
  have hstrategy : ∀ u : State ℕ N,
      (Reachable env u ∧ ScansOn u ∧ u.shared.registry = s.shared.registry) →
      ∃ u', step env u (scanAlone u) = some u' ∧
        (Reachable env u' ∧ ScansOn u' ∧ u'.shared.registry = s.shared.registry) := by
    rintro u ⟨hu, hscans, hregistry⟩
    cases hstep : step env u (scanAlone u) with
    | none =>
      -- the watchdog would have ended
      have hnone : watchdogStep env (scanAlone u).2 u.shared u.watchdog = none := by
        simpa [step, scanAlone] using hstep
      have := WatchdogPc.blocked ⟨rfl, le_rfl⟩ rfl hu.fixed.output hnone
      rw [hscans.joined] at this
      cases this
    | some u' =>
      obtain ⟨sh, pc, hm, rfl⟩ := (step_move hstep).of_watchdog rfl
      obtain ⟨t₀, hreaches⟩ := hu
      exact ⟨_, rfl, ⟨t₀, hreaches.trans (.single hstep)⟩, hm.scansOn hscans rfl hesc,
        hm.registry_eq.1.trans hregistry⟩
  obtain ⟨r, hzero, hinv, hlabel⟩ :=
    Lts.Trace.exists_strategic scanAlone hstrategy ⟨hreach, hs, rfl⟩
  exact ⟨r, hzero, fun n => (hinv n).2, fun n => by rw [hlabel n]; rfl⟩

/-- A worker hangs right after `markRunning` and a second goes by: its stall is reported. -/
theorem hang_reported_worker :
    ∃ r : Lts.Trace (step (N := 1) silentDefaults), HangRun silentDefaults r 1 0 0 ∧
      ∃ m age now, silentDefaults.timeout < age ∧
        stallRecord ((r.state m).shared.registry.names.getD 1 "") age now ∈
          (r.state m).shared.output.accepted := by
  obtain ⟨s, hrun, htoken, hpc, hbeat, hclock⟩ := Lts.exists_run
    (step silentDefaults) (initial silentDefaults 1 0)
    (plainly 5 0 .main ++ plainly 13 0 .producer ++ plainly 8 0 (.worker 0) ++
      [elapsing .producer] ++ plainly 2 1000000000 .producer)
    (fun s => s.shared.token = false ∧ s.watchdog = .configure ∧
      s.shared.registry.heartbeats 1 = ⟨0, .running⟩ ∧ s.shared.clock = 1000000000)
    (by decide +kernel)
  have hscans : ScansOn s := by
    refine ⟨htoken, ?_, ?_, ?_⟩ <;> rw [hpc]
    · rfl
    · rfl
    · exact fun he => by cases he
  obtain ⟨r, hzero, hinv, hlabel⟩ := exists_scanning rfl (reachable_of_run hrun) hscans
  have hhang : HangRun silentDefaults r 1 0 0 := by
    refine ⟨by rw [hzero]; exact reachable_of_run hrun, by decide, ?_, ?_, ?_, ?_, ?_⟩
    · rw [hzero, hpc]
      exact fun he => by cases he
    · intro n _
      rw [(hinv n).2, hbeat]
    · rw [hzero, hclock]
      decide
    · exact fun n => ⟨n, le_rfl, .inl (hlabel n)⟩
    · exact fun n => (hinv n).1.threw
  obtain ⟨⟨m, -, htoken' | ⟨age, now, -, hage, hacc⟩⟩, -⟩ := hang_reported hhang
  · rw [(hinv m).1.token] at htoken'
    cases htoken'
  · exact ⟨r, hhang, m, age, now, hage, hacc⟩

end RadarRT
