import Mathlib.Data.List.Induction
import RadarRT.System.Schedules
import RadarRT.Watchdog.Monitored

/-!
# The verdicts of the watchdog

What a scan reports, and what it must report, when its loads interleave with the stores of the
monitored threads. `reported` in a `Scan` is the list of heartbeats `reportStall` was called for
in that scan.
-/

namespace RadarRT.Watch

variable {F : Type} {env : Env F}

/-! ## From the timestamp load back to the state load -/

/-- A watchdog about to load a timestamp loaded the state of that heartbeat before, found it
`Running`, and has not moved since. -/
theorem state_load_before {s₀ w : State F} (h₀ : Initial s₀) {as : List (Action F)}
    (hrun : Lts.run (step env) s₀ as = some w) {sc : Scan}
    (hw : w.watchdog = .loadTimestamp sc) :
    ∃ as₁ o as₂ u, as = as₁ ++ (.watchdog, o) :: as₂ ∧ (∀ b ∈ as₂, b.1 ≠ .watchdog) ∧
      Lts.run (step env) s₀ as₁ = some u ∧ u.watchdog = .loadState sc ∧
      (u.shared.registry.heartbeats sc.index).state = .running ∧
      Lts.run (step env) { u with watchdog := .loadTimestamp sc } as₂ = some w := by
  induction as using List.reverseRecOn generalizing w with
  | nil =>
    cases hrun
    rw [h₀.watchdog] at hw
    cases hw
  | append_singleton as a ih =>
    obtain ⟨t, ht, hstep⟩ := Lts.run_concat.mp hrun
    rcases step_cases hstep with ⟨o, sh, pc, rfl, hm, rfl⟩ | ⟨hne, he⟩
    · -- the last step was the watchdog's: it was the state load
      cases hw
      obtain ⟨hpc, hstate, rfl⟩ : t.watchdog = .loadState sc ∧
          (t.shared.registry.heartbeats sc.index).state = .running ∧ sh = t.shared := by
        cases hpc : t.watchdog <;> rw [hpc] at hm <;> cases hm
        exact ⟨rfl, by assumption, rfl⟩
      exact ⟨as, o, [], t, rfl, by simp, ht, hpc, hstate, rfl⟩
    · -- the last step was somebody else's, so the load lies further back
      have htw : t.watchdog = .loadTimestamp sc := by
        rcases he.watchdog with heq | ⟨-, heq⟩
        · rw [← heq, hw]
        · rw [hw] at heq
          cases heq
      obtain ⟨as₁, o, as₂, u, rfl, hquiet, hu, hpc, hstate, hrest⟩ := ih ht htw
      refine ⟨as₁, o, as₂ ++ [a], u, by simp, fun b hb => ?_, hu, hpc, hstate,
        Lts.run_concat.mpr ⟨t, hrest, hstep⟩⟩
      rcases List.mem_append.mp hb with hb | hb
      · exact hquiet b hb
      · rw [List.mem_singleton.mp hb]
        exact hne

/-- While the watchdog does not move, a floor under a heartbeat stays one. -/
theorem floor_run {s t : State F} {as : List (Action F)}
    (hrun : Lts.run (step env) s as = some t) (hquiet : ∀ b ∈ as, b.1 ≠ .watchdog) {i : ℕ}
    {c : Time} (hs : Floor c s.shared i (s.threads i).view) :
    Floor c t.shared i (t.threads i).view := by
  refine Lts.run_invariant_along (I := fun s => Floor c s.shared i (s.threads i).view)
    (P := fun _ b => b.1 ≠ .watchdog) (fun s a s' hstep hne hf => ?_) hrun
    (Lts.along_of_forall hquiet s) hs
  rcases step_cases hstep with ⟨o, sh, pc, rfl, -, -⟩ | ⟨-, he⟩
  · exact absurd rfl hne
  · exact he.floors i c hf

/-- If a scan reports a heartbeat, then at the instant `u` of its state load the heartbeat was
`Running`, its timestamp of that instant was older than the timeout, and its thread was not inside
a legitimate wait. -/
def ReportsSound (env : Env F) (s₀ : State F) : Prop :=
  ∀ as w o x sc age, Lts.run (step env) s₀ as = some w →
    step env w (.watchdog, o) = some x → x.watchdog = .recordWatchdogStall sc age →
    ∃ as₁ o₁ as₂ u sc₁, as = as₁ ++ (.watchdog, o₁) :: as₂ ∧ (∀ b ∈ as₂, b.1 ≠ .watchdog) ∧
      Lts.run (step env) s₀ as₁ = some u ∧ u.watchdog = .loadState sc₁ ∧
      sc = sc₁.report ∧
      (u.shared.registry.heartbeats sc.index).state = .running ∧
      (u.shared.registry.heartbeats sc.index).timestamp < sc.now - env.timeout ∧
      (u.threads sc.index).view.waiting = false

theorem reports_sound {s₀ : State F} (h₀ : Initial s₀) : ReportsSound env s₀ := by
  intro as w o x sc age hrun hstep hx
  obtain ⟨sc₁, hw, rfl, hlt⟩ : ∃ sc₁, w.watchdog = .loadTimestamp sc₁ ∧ sc = sc₁.report ∧
      env.timeout < sc₁.now - (w.shared.registry.heartbeats sc₁.index).timestamp := by
    rcases step_cases hstep with ⟨o', sh, pc, -, hm, rfl⟩ | ⟨hne, -⟩
    · cases hx
      cases hpc : w.watchdog <;> rw [hpc] at hm <;> cases hm
      exact ⟨_, rfl, rfl, by assumption⟩
    · exact absurd rfl hne
  obtain ⟨as₁, o₁, as₂, u, has, hquiet, hu, hpc, hstate, hrest⟩ := state_load_before h₀ hrun hw
  have hbeat : BeatOk u.shared sc₁.index (u.threads sc₁.index).view :=
    Lts.run_invariant (I := Beating) (fun _ _ _ => beating_step) hu h₀.beating sc₁.index
  -- between the two loads the timestamp can only have grown
  have hfloor := floor_run (i := sc₁.index) hrest hquiet (hbeat.floor hstate)
  refine ⟨as₁, o₁, as₂, u, sc₁, has, hquiet, hu, hpc, rfl, hstate, ?_, ?_⟩
  · exact lt_sub_comm.mp (hlt.trans_le (sub_le_sub_left hfloor.timestamp _))
  · by_contra hwait
    have := hbeat.waiting (by simpa [Scan.report] using hwait)
    rw [hstate] at this
    cases this

/-! ## A scan from its clock reading to its end -/

/-- A scan that read the clock at `n`, when the count of stalls was `k`: it reports in the order
of the registry, and each report is counted once. -/
structure ScanOk (n : Time) (k : ℕ) (s : State F) (p : Progress) : Prop where
  now : p.scan.now = n
  ordered : p.scan.reported.Pairwise (· < ·)
  judged : ∀ i ∈ p.scan.reported, i < p.bound
  counted : s.shared.metrics.watchdogStalls + p.uncounted = k + p.scan.reported.length

/-- Within a scan, a step of the system is a step of the scan or happens elsewhere. -/
theorem scan_cases {s s' : State F} {a : Action F} (h : step env s a = some s') {p p' : Progress}
    (hp : s.watchdog.progress = some p) (hp' : s'.watchdog.progress = some p') :
    (p'.scan.now = p.scan.now ∧ ScanStep env s.shared s'.shared p p') ∨
      (p' = p ∧ s'.shared.metrics.watchdogStalls = s.shared.metrics.watchdogStalls) := by
  rcases step_cases h with ⟨o, sh, pc, -, hm, rfl⟩ | ⟨-, he⟩
  · rcases hm.scanStep hp with hnone | ⟨p'', hp'', hnow, hstep⟩
    · rw [hnone] at hp'
      cases hp'
    · rw [hp''] at hp'
      cases hp'
      exact .inl ⟨hnow, hstep⟩
  · rcases he.watchdog with heq | ⟨hns, -⟩
    · rw [heq, hp] at hp'
      cases hp'
      exact .inr ⟨rfl, he.stalls⟩
    · rw [hns] at hp
      cases hp

theorem scanOk_step {n : Time} {k : ℕ} {s s' : State F} {a : Action F}
    (h : step env s a = some s') {p p' : Progress} (hp : s.watchdog.progress = some p)
    (hp' : s'.watchdog.progress = some p') (hs : ScanOk n k s p) : ScanOk n k s' p' := by
  rcases scan_cases h hp hp' with ⟨hnow, hstep⟩ | ⟨rfl, hstalls⟩
  · cases hstep with
    | report hrep _ hb hcount =>
      refine ⟨hnow.trans hs.now, ?_, ?_, ?_⟩
      · rw [hrep, List.pairwise_append]
        refine ⟨hs.ordered, by simp, ?_⟩
        intro i hi j hj
        rw [List.mem_singleton.mp hj]
        exact hs.judged i hi
      · intro i hi
        rw [hrep, List.mem_append, List.mem_singleton] at hi
        rw [hb]
        rcases hi with hi | rfl
        · exact (hs.judged i hi).trans (Nat.lt_succ_self _)
        · exact Nat.lt_succ_self _
      · rw [hcount, hs.counted, hrep, List.length_append]
        rfl
    | pass hrep _ hb hcount =>
      refine ⟨hnow.trans hs.now, hrep ▸ hs.ordered, ?_, ?_⟩
      · intro i hi
        rw [hrep] at hi
        have := hs.judged i hi
        omega
      · rw [hcount, hs.counted, hrep]
  · exact ⟨hs.now, hs.ordered, hs.judged, by rw [hstalls]; exact hs.counted⟩

/-- The scan has reported heartbeat `i`, if it has judged it. -/
def Judged (i : ℕ) (p : Progress) : Prop := i < p.bound → i ∈ p.scan.reported

theorem judged_step {i : ℕ} {s s' : State F} {a : Action F} (h : step env s a = some s')
    {p p' : Progress} (hp : s.watchdog.progress = some p)
    (hp' : s'.watchdog.progress = some p')
    (hrun : (s.shared.registry.heartbeats i).state = .running)
    (hold : (s.shared.registry.heartbeats i).timestamp < p.scan.now - env.timeout)
    (hs : Judged i p) : Judged i p' := by
  rcases scan_cases h hp hp' with ⟨-, hstep⟩ | ⟨rfl, -⟩
  · cases hstep with
    | report hrep _ hb _ =>
      intro hi
      rw [hrep, List.mem_append, List.mem_singleton]
      by_cases hlt : i < p.bound
      · exact .inl (hs hlt)
      · exact .inr (by omega)
    | pass hrep _ hb _ =>
      intro hi
      rw [hrep]
      rcases hb with hb | ⟨hb, hnot⟩
      · exact hs (hb ▸ hi)
      · by_cases hlt : i < p.bound
        · exact hs hlt
        · have heq : i = p.bound := by omega
          subst heq
          exact absurd ⟨hrun, hold⟩ hnot
  · exact hs

/-- Every completed scan reports in registration order and counts each report once; a heartbeat
that is `Running` and older than the timeout, and not updated during the scan, is among the
reported ones exactly once. -/
def ScansComplete (env : Env F) : Prop :=
  ∀ u n as w sc, u.watchdog = .loadState { now := n } → Lts.run (step env) u as = some w →
    Lts.Along (step env) (fun s _ => s.watchdog.progress.isSome = true) u as →
    w.watchdog = .loadState sc → w.shared.registry.size ≤ sc.index →
    sc.now = n ∧ sc.reported.Pairwise (· < ·) ∧
    w.shared.metrics.watchdogStalls =
      u.shared.metrics.watchdogStalls + sc.reported.length ∧
    ∀ i hb, i < w.shared.registry.size → hb.state = .running →
      hb.timestamp < n - env.timeout →
      Lts.Along (step env) (fun s _ => s.shared.registry.heartbeats i = hb) u as →
      sc.reported.count i = 1

/-- A scan up to any of its points, from its clock reading on. -/
theorem scanOk_run {u w : State F} {n : Time} {as : List (Action F)} {p : Progress}
    (hu : u.watchdog = .loadState { now := n }) (hrun : Lts.run (step env) u as = some w)
    (hscan : Lts.Along (step env) (fun s _ => s.watchdog.progress.isSome = true) u as)
    (hp : w.watchdog.progress = some p) : ScanOk n u.shared.metrics.watchdogStalls w p := by
  refine Lts.run_invariant_along
    (I := fun s => ∀ p, s.watchdog.progress = some p →
      ScanOk n u.shared.metrics.watchdogStalls s p) ?_ hrun hscan ?_ p hp
  · intro s a s' hstep hsome hI p' hp'
    obtain ⟨p, hp⟩ := Option.isSome_iff_exists.mp hsome
    exact scanOk_step hstep hp hp' (hI p hp)
  · intro p hp
    rw [hu] at hp
    cases hp
    exact ⟨rfl, .nil, by simp, rfl⟩

/-- A heartbeat that shows an old `Running` throughout is reported as soon as it is judged. -/
theorem judged_run {u w : State F} {n : Time} {as : List (Action F)} {p : Progress} {i : ℕ}
    {hb : Heartbeat} (hu : u.watchdog = .loadState { now := n })
    (hrun : Lts.run (step env) u as = some w)
    (hscan : Lts.Along (step env) (fun s _ => s.watchdog.progress.isSome = true) u as)
    (hsame : Lts.Along (step env) (fun s _ => s.shared.registry.heartbeats i = hb) u as)
    (hrunning : hb.state = .running) (hold : hb.timestamp < n - env.timeout)
    (hp : w.watchdog.progress = some p) : Judged i p := by
  have hall : ∀ p, w.watchdog.progress = some p → p.scan.now = n ∧ Judged i p := by
    refine Lts.run_invariant_along
      (I := fun s => ∀ p, s.watchdog.progress = some p → p.scan.now = n ∧ Judged i p) ?_ hrun
      (hscan.and hsame) ?_
    · intro s a s' hstep hP hI p' hp'
      obtain ⟨hsome, hbeat⟩ := hP
      obtain ⟨p, hp⟩ := Option.isSome_iff_exists.mp hsome
      obtain ⟨hnow, hj⟩ := hI p hp
      refine ⟨?_, judged_step hstep hp hp' (by rw [hbeat, hrunning])
        (by rw [hbeat, hnow]; exact hold) hj⟩
      rcases scan_cases hstep hp hp' with ⟨heq, -⟩ | ⟨rfl, -⟩
      · exact heq.trans hnow
      · exact hnow
    · intro p hp
      rw [hu] at hp
      cases hp
      exact ⟨rfl, fun h => absurd h (Nat.not_lt_zero i)⟩
  exact (hall p hp).2

theorem scans_complete (env : Env F) : ScansComplete env := by
  intro u n as w sc hu hrun hscan hw hsize
  have hwp : w.watchdog.progress = some ⟨sc, sc.index, 0⟩ := by rw [hw]; rfl
  have hok := scanOk_run hu hrun hscan hwp
  refine ⟨hok.now, hok.ordered, hok.counted, ?_⟩
  intro i hb hi hrunning hold hsame
  have hjudged := judged_run hu hrun hscan hsame hrunning hold hwp
  have hmem : i ∈ sc.reported := hjudged (hi.trans_le hsize)
  have hnodup : sc.reported.Nodup := hok.ordered.imp fun h => Nat.ne_of_lt h
  exact List.count_eq_one_of_mem hnodup hmem

/-! ## Escalation -/

/-- `stallDetected` says whether the scan under way has reported anything. -/
def Detected (s : State F) : Prop :=
  ∀ p, s.watchdog.progress = some p → (p.scan.stallDetected = true ↔ p.scan.reported ≠ [])

theorem detected_step {s s' : State F} {a : Action F} (h : step env s a = some s')
    (hs : Detected s) : Detected s' := by
  intro p' hp'
  cases hp : s.watchdog.progress with
  | some p =>
    rcases scan_cases h hp hp' with ⟨-, hstep⟩ | ⟨rfl, -⟩
    · cases hstep with
      | report hrep hdet => simp [hrep, hdet]
      | pass hrep hdet => rw [hrep, hdet]; exact hs p hp
    · exact hs p' hp
  | none =>
    -- the only way into a scan is its clock reading
    rcases step_cases h with ⟨o, sh, pc, -, hm, rfl⟩ | ⟨-, he⟩
    · cases hpc : s.watchdog <;> rw [hpc] at hm hp <;> cases hm <;> cases hp' <;> cases hp
      simp
    · rcases he.watchdog with heq | ⟨-, heq⟩
      · rw [heq, hp] at hp'
        cases hp'
      · rw [heq] at hp'
        cases hp'

/-- A scan ends by requesting shutdown if it has reported a heartbeat and escalation is
configured, and by going back to its wait otherwise; before that it does not touch the token. -/
def ScansEscalate (env : Env F) (s₀ : State F) : Prop :=
  ∀ w, Lts.Reaches (step env) s₀ w →
    (∀ sc o x, w.watchdog = .loadState sc → w.shared.registry.size ≤ sc.index →
      step env w (.watchdog, o) = some x → x.shared = w.shared ∧
        (sc.reported ≠ [] ∧ env.config.escalateToShutdown = true → x.watchdog = .escalate) ∧
        (¬ (sc.reported ≠ [] ∧ env.config.escalateToShutdown = true) →
          x.watchdog = .waitFor)) ∧
    (∀ o x, w.watchdog = .escalate → step env w (.watchdog, o) = some x →
      x.shared.token = true ∧ x.watchdog = .waitFor) ∧
    (∀ o x, w.watchdog.progress.isSome = true → step env w (.watchdog, o) = some x →
      x.shared.token = w.shared.token)

theorem scans_escalate {s₀ : State F} (h₀ : Initial s₀) : ScansEscalate env s₀ := by
  intro w hw
  have hdet : Detected w := by
    refine hw.invariant (fun _ _ _ => detected_step) ?_
    intro p hp
    rw [h₀.watchdog] at hp
    cases hp
  refine ⟨?_, ?_, ?_⟩
  · intro sc o x hpc hsize hstep
    have hiff := hdet ⟨sc, sc.index, 0⟩ (by rw [hpc]; rfl)
    obtain ⟨⟨sh, pc⟩, hr, rfl⟩ := Option.map_eq_some_iff.mp hstep
    have hm := watchdogStep_cases hr
    rw [hpc] at hm
    cases hm with
    | skip hi | running hi => exact absurd hi (not_lt_of_ge hsize)
    | escalating _ hstall hesc =>
      exact ⟨rfl, fun _ => rfl, fun hnot => absurd ⟨hiff.mp hstall, hesc⟩ hnot⟩
    | scanned _ hnot =>
      refine ⟨rfl, fun ⟨hrep, hesc⟩ => ?_, fun _ => rfl⟩
      rw [hiff.mpr hrep, hesc] at hnot
      cases hnot
  · intro o x hpc hstep
    obtain ⟨⟨sh, pc⟩, hr, rfl⟩ := Option.map_eq_some_iff.mp hstep
    have hm := watchdogStep_cases hr
    rw [hpc] at hm
    cases hm
    exact ⟨rfl, rfl⟩
  · intro o x hscan hstep
    obtain ⟨⟨sh, pc⟩, hr, rfl⟩ := Option.map_eq_some_iff.mp hstep
    exact (watchdogStep_cases hr).token_eq hscan

/-- The verdicts of the watchdog are sound and complete, for every registry, clock and
interleaving of the loads and stores. -/
theorem watchdog_verdicts {s₀ : State F} (h₀ : Initial s₀) :
    ReportsSound env s₀ ∧ ScansComplete env ∧ ScansEscalate env s₀ :=
  ⟨reports_sound h₀, scans_complete env, scans_escalate h₀⟩

/-- One producer, not started yet, and nothing else. -/
def lone : State ℕ where
  threads := fun _ => .producer .notStarted
  watchdog := .notStarted
  shared := (initial silentDefaults 0 0).shared

/-- A step in which nothing throws and no timed wait runs out, the clock showing `now`. -/
def plain (now : Time) (a : Actor) : Action ℕ := (a, { now := now, samples := fun _ => 0 })

/-- The producer beats at time 0; a scan a second later reports it. -/
theorem watchdog_verdicts_slow_producer :
    ∃ (w x : State ℕ) (sc : Scan) (age : Duration), Lts.Reaches (step silentDefaults) lone w ∧
      step silentDefaults w (plain 0 .watchdog) = some x ∧
      x.watchdog = .recordWatchdogStall sc age ∧ sc.reported = [0] ∧
      ∃ u : State ℕ, Lts.Reaches (step silentDefaults) lone u ∧
        (u.shared.registry.heartbeats 0).state = .running ∧
        (u.shared.registry.heartbeats 0).timestamp < sc.now - silentDefaults.timeout ∧
        (u.threads 0).view.waiting = false := by
  have hinit : Initial lone := ⟨fun _ => rfl, fun _ => rfl, rfl⟩
  obtain ⟨x, hrun, hx⟩ := Lts.exists_run (step silentDefaults) lone
    ([plain 0 (.start 0)] ++ List.replicate 5 (plain 0 (.thread 0)) ++
      [plain 0 .startWatchdog, plain 0 .watchdog,
        (.watchdog, { elapsed := true, samples := fun _ => 0 }),
        plain 1000000000 .watchdog, plain 0 .watchdog] ++ [plain 0 .watchdog])
    (fun x => x.watchdog =
      .recordWatchdogStall ⟨1000000000, 0, true, [0]⟩ 1000000000)
    (by decide +kernel)
  obtain ⟨w, hw, hstep⟩ := Lts.run_concat.mp hrun
  obtain ⟨as₁, o, as₂, u, sc, -, -, hu, -, -, hrunning, hold, hwait⟩ :=
    (watchdog_verdicts hinit).1 _ w _ x _ _ hw hstep hx
  exact ⟨w, x, _, _, ⟨_, hw⟩, hstep, hx, rfl, u, ⟨_, hu⟩, hrunning, hold, hwait⟩

end RadarRT.Watch
