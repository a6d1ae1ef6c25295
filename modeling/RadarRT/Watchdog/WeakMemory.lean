import RadarRT.Lib.Lts
import RadarRT.Lib.ReleaseAcquire
import RadarRT.System.Shared

/-!
# Heartbeats under release/acquire

The heartbeats once more, on the memory the code asks for instead of an interleaved one: the two
atomics of a `Heartbeat` are written by release stores and read by acquire loads, so `scanOnce` may
load old values, and nothing orders the state of a heartbeat with its timestamp but the order in
which `markRunning` stores them and `scanOnce` loads them. Each monitored thread beats in any
order it likes and reads the clock for itself; threads may synchronise in any other way at any time.

A verdict remembers which store of `Running` the watchdog saw, and each thread keeps the clock
reading behind each of its `Running` stores, so that the two can be compared.
-/

namespace RadarRT.Weak

open ReleaseAcquire

/-- The atomics of the heartbeats, by registration number. -/
inductive Cell where
  | timestamp (i : ℕ)
  | state (i : ℕ)
deriving DecidableEq

abbrev Cell.Value : Cell → Type
  | .timestamp _ => Time
  | .state _ => HeartbeatState

/-- `timestamp_{0}` and `state_{HeartbeatState::WaitingForInput}`. -/
def Cell.init : ∀ x : Cell, x.Value
  | .timestamp _ => (0 : Int)
  | .state _ => HeartbeatState.waitingForInput

inductive Party where
  | monitored (i : ℕ)
  | watchdog
deriving DecidableEq

/-- Where a monitored thread is in `markRunning(now)`. -/
inductive BeatPc where
  | outside
  | storeTimestamp (now : Time)
  | storeRunning (now : Time)
deriving DecidableEq

structure Beater where
  pc : BeatPc := .outside
  /-- The last clock reading of the thread. -/
  clock : Time
  /-- The place of each `Running` it has stored, with the reading it stored before it. -/
  beats : List (ℕ × Time) := []

/-- Where the watchdog is in `scanOnce`. -/
inductive ScanPc where
  | outside
  | loadState (now : Time) (i : ℕ)
  /-- The state loaded was `Running`, from place `k`. -/
  | loadTimestamp (now : Time) (i k : ℕ)

/-- A call of `reportStall`. -/
structure Verdict where
  now : Time
  index : ℕ
  /-- The place of the `Running` that was loaded. -/
  place : ℕ
  timestamp : Time

structure State where
  memory : Machine Party Cell Cell.Value
  beaters : ℕ → Beater
  scan : ScanPc := .outside
  verdicts : List Verdict := []

inductive Action where
  /-- The clock is read for `markRunning(now)`. -/
  | markRunning (i : ℕ) (now : Time)
  | storeTimestamp (i k : ℕ)
  | storeRunning (i k : ℕ)
  | markWaiting (i k : ℕ)
  | scanOnce (now : Time)
  | loadState (k : ℕ)
  | loadTimestamp (k : ℕ)
  | sync (p q : Party) (w : View Cell)

/-- Nobody has beaten yet; `t₀ i` is the first possible clock reading of thread `i`. -/
def initial (t₀ : ℕ → Time) : State where
  memory := .initial Cell.init
  beaters := fun i => { clock := t₀ i }

namespace State

def setBeater (s : State) (i : ℕ) (b : Beater) : State :=
  { s with beaters := Function.update s.beaters i b }

/-- An access of `p` to the heartbeats. -/
def access (s : State) (p : Party) (a : Access Party Cell Cell.Value) : Option State :=
  (s.memory.access p a).map fun m => { s with memory := m }

end State

/-- One access of a monitored thread or of `scanOnce`, over a registry of `n` heartbeats. -/
def step (n : ℕ) (timeout : Duration) (s : State) : Action → Option State
  | .markRunning i now =>
    match (s.beaters i).pc with
    | .outside =>
      if (s.beaters i).clock ≤ now then
        some (s.setBeater i { s.beaters i with pc := .storeTimestamp now, clock := now })
      else none
    | _ => none
  | .storeTimestamp i k =>
    match (s.beaters i).pc with
    | .storeTimestamp now =>
      (s.access (.monitored i) (.store (.timestamp i) now k)).map
        fun s => s.setBeater i { s.beaters i with pc := .storeRunning now }
    | _ => none
  | .storeRunning i k =>
    match (s.beaters i).pc with
    | .storeRunning now =>
      (s.access (.monitored i) (.store (.state i) HeartbeatState.running k)).map
        fun s => s.setBeater i { s.beaters i with
          pc := .outside
          beats := (s.beaters i).beats ++ [(k, now)] }
    | _ => none
  | .markWaiting i k =>
    match (s.beaters i).pc with
    | .outside => s.access (.monitored i) (.store (.state i) HeartbeatState.waitingForInput k)
    | _ => none
  | .scanOnce now =>
    match s.scan with
    | .outside => some { s with scan := .loadState now 0 }
    | _ => none
  | .loadState k =>
    match s.scan with
    | .loadState now i =>
      if i < n then
        match s.memory.memory (.state i) k with
        | some msg => (s.access .watchdog (.load (.state i) k)).map fun s => { s with
            scan := if msg.value = HeartbeatState.running then .loadTimestamp now i k
              else .loadState now (i + 1) }
        | none => none
      else some { s with scan := .outside }
    | _ => none
  | .loadTimestamp k =>
    match s.scan with
    | .loadTimestamp now i place =>
      match s.memory.memory (.timestamp i) k with
      | some msg => (s.access .watchdog (.load (.timestamp i) k)).map fun s => { s with
          scan := .loadState now (i + 1)
          verdicts := if now - msg.value ≤ timeout then s.verdicts
            else s.verdicts ++ [⟨now, i, place, msg.value⟩] }
      | none => none
    | _ => none
  | .sync p q w => s.access p (.sync q w)

/-! ## What a step can do -/

variable {n : ℕ} {timeout : Duration} {s s' : State} {a : Action}

inductive Move (n : ℕ) (timeout : Duration) (s : State) : Action → State → Prop
  | markRunning {i now} : (s.beaters i).pc = .outside → (s.beaters i).clock ≤ now →
    Move n timeout s (.markRunning i now)
      (s.setBeater i { s.beaters i with pc := .storeTimestamp now, clock := now })
  | storeTimestamp {i k now m} : (s.beaters i).pc = .storeTimestamp now →
    s.memory.Effect (.monitored i) (.store (.timestamp i) now k) m →
    Move n timeout s (.storeTimestamp i k)
      ({ s with memory := m }.setBeater i { s.beaters i with pc := .storeRunning now })
  | storeRunning {i k now m} : (s.beaters i).pc = .storeRunning now →
    s.memory.Effect (.monitored i) (.store (.state i) HeartbeatState.running k) m →
    Move n timeout s (.storeRunning i k)
      ({ s with memory := m }.setBeater i { s.beaters i with
        pc := .outside
        beats := (s.beaters i).beats ++ [(k, now)] })
  | markWaiting {i k m} : (s.beaters i).pc = .outside →
    s.memory.Effect (.monitored i) (.store (.state i) HeartbeatState.waitingForInput k) m →
    Move n timeout s (.markWaiting i k) { s with memory := m }
  | scanOnce {now} : s.scan = .outside →
    Move n timeout s (.scanOnce now) { s with scan := .loadState now 0 }
  | running {now i k m msg} : s.scan = .loadState now i → i < n →
    s.memory.memory (.state i) k = some msg → msg.value = HeartbeatState.running →
    s.memory.Effect .watchdog (.load (.state i) k) m →
    Move n timeout s (.loadState k) { s with memory := m, scan := .loadTimestamp now i k }
  | waiting {now i k m} : s.scan = .loadState now i →
    s.memory.Effect .watchdog (.load (.state i) k) m →
    Move n timeout s (.loadState k) { s with memory := m, scan := .loadState now (i + 1) }
  | scanned {now i k} : s.scan = .loadState now i → n ≤ i →
    Move n timeout s (.loadState k) { s with scan := .outside }
  | fresh {now i place k m} : s.scan = .loadTimestamp now i place →
    s.memory.Effect .watchdog (.load (.timestamp i) k) m →
    Move n timeout s (.loadTimestamp k) { s with memory := m, scan := .loadState now (i + 1) }
  | stalled {now i place k m msg} : s.scan = .loadTimestamp now i place →
    s.memory.memory (.timestamp i) k = some msg → timeout < now - msg.value →
    s.memory.Effect .watchdog (.load (.timestamp i) k) m →
    Move n timeout s (.loadTimestamp k) { s with
      memory := m
      scan := .loadState now (i + 1)
      verdicts := s.verdicts ++ [⟨now, i, place, msg.value⟩] }
  | sync {p q w m} : s.memory.Effect p (.sync q w) m →
    Move n timeout s (.sync p q w) { s with memory := m }

theorem State.access_effect {p : Party} {a : Access Party Cell Cell.Value}
    (h : s.access p a = some s') : ∃ m, s.memory.Effect p a m ∧ s' = { s with memory := m } := by
  obtain ⟨m, hm, rfl⟩ := Option.map_eq_some_iff.mp h
  exact ⟨m, Machine.access_effect hm, rfl⟩

theorem step_move (h : step n timeout s a = some s') : Move n timeout s a s' := by
  cases a with
  | markRunning i now =>
    simp only [step] at h
    split at h
    · next hpc =>
      obtain ⟨hle, ⟨⟩⟩ := Option.ite_none_right_eq_some.mp h
      exact .markRunning hpc hle
    · cases h
  | storeTimestamp i k =>
    simp only [step] at h
    split at h
    · next hpc =>
      obtain ⟨t, ht, rfl⟩ := Option.map_eq_some_iff.mp h
      obtain ⟨m, hm, rfl⟩ := State.access_effect ht
      exact .storeTimestamp hpc hm
    · cases h
  | storeRunning i k =>
    simp only [step] at h
    split at h
    · next hpc =>
      obtain ⟨t, ht, rfl⟩ := Option.map_eq_some_iff.mp h
      obtain ⟨m, hm, rfl⟩ := State.access_effect ht
      exact .storeRunning hpc hm
    · cases h
  | markWaiting i k =>
    simp only [step] at h
    split at h
    · next hpc =>
      obtain ⟨m, hm, rfl⟩ := State.access_effect h
      exact .markWaiting hpc hm
    · cases h
  | scanOnce now =>
    simp only [step] at h
    split at h
    · next hpc =>
      cases h
      exact .scanOnce hpc
    · cases h
  | loadState k =>
    simp only [step] at h
    split at h
    · next now i hpc =>
      split at h
      · next hi =>
        split at h
        · next msg hmsg =>
          obtain ⟨t, ht, rfl⟩ := Option.map_eq_some_iff.mp h
          obtain ⟨m, hm, rfl⟩ := State.access_effect ht
          split
          · next hrun => exact .running hpc hi hmsg hrun hm
          · exact .waiting hpc hm
        · cases h
      · next hi =>
        cases h
        exact .scanned hpc (by omega)
    · cases h
  | loadTimestamp k =>
    simp only [step] at h
    split at h
    · next now i place hpc =>
      split at h
      · next msg hmsg =>
        obtain ⟨t, ht, rfl⟩ := Option.map_eq_some_iff.mp h
        obtain ⟨m, hm, rfl⟩ := State.access_effect ht
        split
        · exact .fresh hpc hm
        · next hlt => exact .stalled hpc hmsg (lt_of_not_ge hlt) hm
      · cases h
    · cases h
  | sync p q w =>
    obtain ⟨m, hm, rfl⟩ := State.access_effect h
    exact .sync hm

/-! ## What the memory says of a heartbeat -/

section Published

variable {m m' : Machine Party Cell Cell.Value} {i k : ℕ} {b : Beater} {p : Party}
  {a : Access Party Cell Cell.Value} {now : Time}

/-- Place `k` of the timestamps of `i` holds a reading that was stored there. -/
def Stamp (m : Machine Party Cell Cell.Value) (i k : ℕ) (now : Time) : Prop :=
  0 < k ∧ ∃ msg, m.memory (.timestamp i) k = some msg ∧ msg.value = now

/-- Later timestamps are later readings, and every `Running` carries the timestamp of its beat. -/
structure Published (m : Machine Party Cell Cell.Value) (i : ℕ) (b : Beater) : Prop where
  owned : m.OwnedBy (.timestamp i) (.monitored i)
  ordered : ∀ k l t u, k ≤ l → Stamp m i k t → Stamp m i l u → t ≤ u
  past : ∀ k t, Stamp m i k t → t ≤ b.clock
  pending : ∀ now, b.pc = .storeTimestamp now → now = b.clock
  stamped : ∀ now, b.pc = .storeRunning now → Stamp m i (m.views (.monitored i) (.timestamp i)) now
  running : ∀ k msg, m.memory (.state i) k = some msg → msg.value = HeartbeatState.running →
    ∃ now, (k, now) ∈ b.beats ∧ Stamp m i (msg.view (.timestamp i)) now

theorem published_initial (i : ℕ) (t₀ : Time) :
    Published (.initial Cell.init) i { clock := t₀ } := by
  have hstamp : ∀ k t, ¬ Stamp (.initial Cell.init) i k t := by
    rintro k t ⟨hk, msg, hmsg, -⟩
    obtain ⟨rfl, -⟩ := Option.ite_none_right_eq_some.mp hmsg
    omega
  refine ⟨Machine.within_initial _ _, fun k l t u _ ht => absurd ht (hstamp k t),
    fun k t ht => absurd ht (hstamp k t), fun _ h => (by cases h), fun _ h => (by cases h), ?_⟩
  intro k msg hmsg hrun
  obtain ⟨-, ⟨⟩⟩ := Option.ite_none_right_eq_some.mp hmsg
  cases hrun

/-- A stamp stays, and an access that does not store a timestamp adds none. -/
theorem stamp_iff (h : m.Effect p a m') (ha : a.target ≠ some (.timestamp i)) :
    Stamp m' i k now ↔ Stamp m i k now := by
  rw [Stamp, Stamp, h.memory_eq ha]

/-- An access that is no store to the timestamp keeps what is published, if every `Running` it
stores comes from a beat. -/
theorem Published.keep (hp : Published m i b) (h : m.Effect p a m')
    (ha : a.target ≠ some (.timestamp i))
    (hrun : ∀ k msg, m'.memory (.state i) k = some msg → msg.value = HeartbeatState.running →
      ∃ now, (k, now) ∈ b.beats ∧ Stamp m i (msg.view (.timestamp i)) now) :
    Published m' i b := by
  obtain ⟨ho, hord, hpast, hpend, hst, -⟩ := hp
  refine ⟨ho.keep h ha, ?_, ?_, hpend, ?_, ?_⟩
  · intro k l t u hkl ht hu
    exact hord k l t u hkl ((stamp_iff h ha).mp ht) ((stamp_iff h ha).mp hu)
  · intro k t ht
    exact hpast k t ((stamp_iff h ha).mp ht)
  · intro now hpc
    rw [ho.view_eq h ha, stamp_iff h ha]
    exact hst now hpc
  · intro k msg hmsg hval
    obtain ⟨now, hmem, hnow⟩ := hrun k msg hmsg hval
    exact ⟨now, hmem, (stamp_iff h ha).mpr hnow⟩

/-- Accesses that store nothing in the heartbeat. -/
theorem Published.other (hp : Published m i b) (h : m.Effect p a m')
    (ht : a.target ≠ some (.timestamp i)) (hs : a.target ≠ some (.state i)) :
    Published m' i b := by
  refine hp.keep h ht ?_
  rw [h.memory_eq hs]
  exact hp.running

/-- The messages of a location after a store to it. -/
theorem store_cases {x : Cell} {v : x.Value} {msg : Message Cell x.Value} {l : ℕ}
    (h : m.Effect p (.store x v k) m') (hmsg : m'.memory x l = some msg) :
    l = k ∧ msg = ⟨v, Function.update (m.views p) x k⟩ ∨ m.memory x l = some msg := by
  cases h with
  | store =>
    by_cases hl : l = k
    · subst hl
      rw [Machine.write_self] at hmsg
      cases hmsg
      exact .inl ⟨rfl, rfl⟩
    · rw [Machine.write_of_ne _ _ hl] at hmsg
      exact .inr hmsg

theorem Published.markWaiting (hp : Published m i b)
    (h : m.Effect p (.store (.state i) HeartbeatState.waitingForInput k) m') :
    Published m' i b := by
  refine hp.keep h (fun ht => by cases ht) ?_
  intro l msg hmsg hval
  obtain ⟨-, rfl⟩ | hold := store_cases h hmsg
  · cases hval
  · exact hp.running l msg hold hval

/-- The new `Running` carries what its thread knows: the timestamp stored just before. -/
theorem Published.storeRunning (hp : Published m i b) (hpc : b.pc = .storeRunning now)
    (h : m.Effect (.monitored i) (.store (.state i) HeartbeatState.running k) m') :
    Published m' i { b with pc := .outside, beats := b.beats ++ [(k, now)] } := by
  have hkeep : Published m i { b with pc := .outside, beats := b.beats ++ [(k, now)] } := by
    refine ⟨hp.owned, hp.ordered, hp.past, fun _ h => (by cases h), fun _ h => (by cases h), ?_⟩
    intro l msg hmsg hval
    obtain ⟨t, hmem, ht⟩ := hp.running l msg hmsg hval
    exact ⟨t, List.mem_append_left _ hmem, ht⟩
  refine hkeep.keep h (fun ht => by cases ht) ?_
  intro l msg hmsg hval
  obtain ⟨rfl, rfl⟩ | hold := store_cases h hmsg
  · refine ⟨now, List.mem_append_right _ (List.mem_singleton.mpr rfl), ?_⟩
    dsimp only
    rw [Function.update_of_ne fun hx => by cases hx]
    exact hp.stamped now hpc
  · exact hkeep.running l msg hold hval

/-- The thread takes the last place of its timestamps and a reading not smaller than the others. -/
theorem Published.storeTimestamp (hp : Published m i b) (hpc : b.pc = .storeTimestamp now)
    (h : m.Effect (.monitored i) (.store (.timestamp i) now k) m') :
    Published m' i { b with pc := .storeRunning now } := by
  obtain ⟨hlt, hw, hk⟩ := Machine.Within.store hp.owned h
  have hclock : now = b.clock := hp.pending now hpc
  have hnew : Stamp m' i k now := by
    cases h with
    | store => exact ⟨by omega, _, Machine.write_self .., rfl⟩
  have hstamp : ∀ l t, Stamp m' i l t → l = k ∧ t = now ∨ Stamp m i l t := by
    rintro l t ⟨hl, msg, hmsg, rfl⟩
    obtain ⟨rfl, rfl⟩ | hold := store_cases h hmsg
    · exact .inl ⟨rfl, rfl⟩
    · exact .inr ⟨hl, msg, hold, rfl⟩
  have hkeep : ∀ l t, Stamp m i l t → Stamp m' i l t := by
    rintro l t ⟨hl, msg, hmsg, hval⟩
    exact ⟨hl, msg, h.memory_mono hmsg, hval⟩
  refine ⟨hp.owned.store h, ?_, ?_, fun _ h => (by cases h), ?_, ?_⟩
  · intro l l' t u hll ht hu
    obtain ⟨rfl, rfl⟩ | ht := hstamp l t ht
    · obtain ⟨-, rfl⟩ | hu := hstamp l' u hu
      · exact le_rfl
      · -- an old place would come after the new one
        obtain ⟨-, msg, hmsg, -⟩ := hu
        have := hp.owned.places l' msg hmsg
        omega
    · obtain ⟨-, rfl⟩ | hu := hstamp l' u hu
      · rw [hclock]
        exact hp.past l t ht
      · exact hp.ordered l l' t u hll ht hu
  · intro l t ht
    obtain ⟨-, rfl⟩ | ht := hstamp l t ht
    · exact hclock.le
    · exact hp.past l t ht
  · intro t ht
    cases ht
    rw [hk]
    exact hnew
  · intro l msg hmsg hval
    rw [h.memory_eq fun hx => by cases hx] at hmsg
    obtain ⟨t, hmem, ht⟩ := hp.running l msg hmsg hval
    exact ⟨t, hmem, hkeep _ _ ht⟩

theorem Published.markRunning (hp : Published m i b) (hle : b.clock ≤ now) :
    Published m i { b with pc := .storeTimestamp now, clock := now } := by
  refine ⟨hp.owned, hp.ordered, fun k t ht => (hp.past k t ht).trans hle, ?_,
    fun _ h => (by cases h), hp.running⟩
  intro t ht
  cases ht
  rfl

end Published

/-! ## Runs -/

theorem forall_setBeater {P : ℕ → Beater → Prop} {i : ℕ} {b : Beater} (hi : P i b)
    (hj : ∀ j ≠ i, P j (s.beaters j)) (j : ℕ) : P j ((s.setBeater i b).beaters j) := by
  unfold State.setBeater
  by_cases h : j = i
  · subst h
    simpa using hi
  · simpa [h] using hj j h

theorem published_move (h : Move n timeout s a s')
    (hs : ∀ i, Published s.memory i (s.beaters i)) (j : ℕ) :
    Published s'.memory j (s'.beaters j) := by
  cases h with
  | markRunning _ hle =>
    exact forall_setBeater (P := Published s.memory) ((hs _).markRunning hle) (fun j _ => hs j) j
  | storeTimestamp hpc hm =>
    refine forall_setBeater (P := Published _) ((hs _).storeTimestamp hpc hm) ?_ j
    intro j hj
    exact (hs j).other hm (fun h => hj (by cases h; rfl)) (fun h => by cases h)
  | storeRunning hpc hm =>
    refine forall_setBeater (P := Published _) ((hs _).storeRunning hpc hm) ?_ j
    intro j hj
    exact (hs j).other hm (fun h => by cases h) (fun h => hj (by cases h; rfl))
  | @markWaiting i _ _ _ hm =>
    by_cases hj : j = i
    · subst hj
      exact (hs j).markWaiting hm
    · exact (hs j).other hm (fun h => by cases h) (fun h => hj (by cases h; rfl))
  | running _ _ _ _ hm | waiting _ hm | fresh _ hm | stalled _ _ _ hm | sync hm =>
    exact (hs j).other hm (fun h => by cases h) (fun h => by cases h)
  | scanOnce | scanned => exact hs j

/-- The watchdog has loaded `Running`, and all that this `Running` carries. -/
def State.Scanning (n : ℕ) (s : State) : Prop :=
  ∀ now i k, s.scan = .loadTimestamp now i k → i < n ∧ ∃ msg,
    s.memory.memory (.state i) k = some msg ∧ msg.value = HeartbeatState.running ∧
      msg.view ≤ s.memory.views .watchdog

theorem State.Scanning.keep {p : Party} {a : Access Party Cell Cell.Value}
    {m : Machine Party Cell Cell.Value} (hs : s.Scanning n) (h : s.memory.Effect p a m)
    (hm : s'.memory = m) (hscan : s'.scan = s.scan) : s'.Scanning n := by
  intro now i k hpc
  obtain ⟨hi, msg, hmsg, hval, hview⟩ := hs now i k (hscan ▸ hpc)
  rw [hm]
  exact ⟨hi, msg, h.memory_mono hmsg, hval, hview.trans (h.views_le _)⟩

theorem scanning_move (h : Move n timeout s a s') (hs : s.Scanning n) : s'.Scanning n := by
  cases h with
  | markRunning => exact hs
  | storeTimestamp _ hm | storeRunning _ hm | markWaiting _ hm | sync hm => exact hs.keep hm rfl rfl
  | running _ hi hmsg hval hm =>
    intro now i k hpc
    cases hpc
    exact ⟨hi, _, hm.memory_mono hmsg, hval, hm.load_view hmsg⟩
  | scanOnce | waiting | scanned | fresh | stalled =>
    intro now i k hpc
    cases hpc

/-- The verdict is about a beat of its thread: its timestamp is the one of that beat or a newer
one, and is older than the timeout. -/
def Verdict.Justified (v : Verdict) (n : ℕ) (timeout : Duration) (s : State) : Prop :=
  v.index < n ∧ ∃ reading, (v.place, reading) ∈ (s.beaters v.index).beats ∧
    reading ≤ v.timestamp ∧ v.timestamp ≤ (s.beaters v.index).clock ∧
    timeout < v.now - v.timestamp

/-- Beats are kept and clocks go on. -/
structure Beater.Continues (b b' : Beater) : Prop where
  beats : b.beats ⊆ b'.beats
  clock : b.clock ≤ b'.clock

theorem Move.continues (h : Move n timeout s a s') (j : ℕ) :
    (s.beaters j).Continues (s'.beaters j) := by
  have hrefl : ∀ j, (s.beaters j).Continues (s.beaters j) := fun j => ⟨fun _ h => h, le_rfl⟩
  cases h with
  | markRunning _ hle =>
    refine forall_setBeater (P := fun j => (s.beaters j).Continues) ?_ (fun j _ => hrefl j) j
    exact ⟨fun _ h => h, hle⟩
  | storeTimestamp =>
    refine forall_setBeater (P := fun j => (s.beaters j).Continues) ?_ (fun j _ => hrefl j) j
    exact ⟨fun _ h => h, le_rfl⟩
  | storeRunning =>
    refine forall_setBeater (P := fun j => (s.beaters j).Continues) ?_ (fun j _ => hrefl j) j
    exact ⟨List.subset_append_left _ _, le_rfl⟩
  | _ => exact hrefl j

theorem justified_move (h : Move n timeout s a s')
    (hpub : ∀ i, Published s.memory i (s.beaters i)) (hscan : s.Scanning n)
    (hs : ∀ v ∈ s.verdicts, v.Justified n timeout s) :
    ∀ v ∈ s'.verdicts, v.Justified n timeout s' := by
  have hkeep : ∀ v : Verdict, v.Justified n timeout s → v.Justified n timeout s' := by
    rintro v ⟨hi, r, hmem, hle, hpast, hlt⟩
    obtain ⟨hbeats, hclock⟩ := h.continues v.index
    exact ⟨hi, r, hbeats hmem, hle, hpast.trans hclock, hlt⟩
  intro v hv
  cases h with
  | @stalled now i place k m msg hpc hmsg hlt hm =>
    obtain hv | hv := List.mem_append.mp hv
    · exact hkeep v (hs v hv)
    · obtain rfl := List.mem_singleton.mp hv
      refine hkeep _ ?_
      -- the load of the timestamp starts at the one the loaded `Running` carries
      obtain ⟨hi, run, hrun, hval, hview⟩ := hscan _ _ _ hpc
      obtain ⟨r, hbeat, hstamp⟩ := (hpub i).running _ _ hrun hval
      have hk : run.view (.timestamp i) ≤ k := by
        cases hm with
        | load _ hle => exact (hview _).trans hle
      have hnew : Stamp s.memory i k msg.value := by
        have hpos := hstamp.1
        exact ⟨by omega, msg, hmsg, rfl⟩
      exact ⟨hi, r, hbeat, (hpub i).ordered _ _ _ _ hk hstamp hnew, (hpub i).past _ _ hnew, hlt⟩
  | _ => exact hkeep v (hs v hv)

/-- Whatever old values the watchdog loads, every stall it reports is of a beat of that thread
whose clock reading is older than the timeout: it never pairs a `Running` with a timestamp from
before it. -/
theorem weak_verdicts_justified {t₀ : ℕ → Time} {as : List Action}
    (h : Lts.run (step n timeout) (initial t₀) as = some s) :
    ∀ v ∈ s.verdicts, v.Justified n timeout s := by
  refine (Lts.run_invariant (I := fun s => (∀ i, Published s.memory i (s.beaters i)) ∧
    s.Scanning n ∧ ∀ v ∈ s.verdicts, v.Justified n timeout s) ?_ h ⟨?_, ?_, ?_⟩).2.2
  · intro s a s' hs ⟨hpub, hscan, hj⟩
    have hm := step_move hs
    exact ⟨published_move hm hpub, scanning_move hm hscan, justified_move hm hpub hscan hj⟩
  · intro i
    exact published_initial i (t₀ i)
  · intro now i k hpc
    cases hpc
  · intro v hv
    cases hv

/-- Two beats, at 3 and 4; a scan at 10 loads the first `Running` and the second timestamp. -/
def lateScan : List Action :=
  [.markRunning 0 3, .storeTimestamp 0 1, .storeRunning 0 1, .markRunning 0 4,
    .storeTimestamp 0 3, .scanOnce 10, .loadState 1, .loadTimestamp 3]

theorem weak_verdicts_justified_lateScan : ∃ s,
    Lts.run (step 1 5) (initial fun _ => 0) lateScan = some s ∧ s.verdicts.length = 1 ∧
      ∀ v ∈ s.verdicts, v.Justified 1 5 s := by
  obtain ⟨s, hrun, hlen⟩ := Lts.exists_run (step 1 5) (initial fun _ => 0) lateScan
    (fun s => s.verdicts.length = 1) (by decide +kernel)
  exact ⟨s, hrun, hlen, weak_verdicts_justified hrun⟩

/-! ## Waits the watchdog has heard of -/

theorem stateOwned_move {i : ℕ} (h : Move n timeout s a s')
    (hs : s.memory.OwnedBy (.state i) (.monitored i)) :
    s'.memory.OwnedBy (.state i) (.monitored i) := by
  cases h with
  | markRunning | scanOnce | scanned => exact hs
  | @storeTimestamp j _ _ _ _ hm => exact hs.keep hm fun h => by cases h
  | @storeRunning j _ _ _ _ hm | @markWaiting j _ _ _ hm =>
    by_cases hj : j = i
    · subst hj
      exact hs.store hm
    · exact hs.keep hm fun h => hj (by cases h; rfl)
  | running _ _ _ _ hm | waiting _ hm | fresh _ hm | stalled _ _ _ hm | sync hm =>
    exact hs.keep hm fun h => by cases h

/-- All that the watchdog may still load as the state of `i` is `WaitingForInput`. -/
structure State.SeesWait (s : State) (i : ℕ) : Prop where
  loads : ∀ k msg, s.memory.views .watchdog (.state i) ≤ k →
    s.memory.memory (.state i) k = some msg → msg.value = HeartbeatState.waitingForInput
  scan : ∀ now k, s.scan ≠ .loadTimestamp now i k

theorem State.SeesWait.effect {i : ℕ} {p : Party} {a : Access Party Cell Cell.Value}
    {m : Machine Party Cell Cell.Value} (hs : s.SeesWait i) (h : s.memory.Effect p a m)
    (ha : a.target ≠ some (.state i)) (k : ℕ) (msg : Message Cell HeartbeatState)
    (hk : m.views .watchdog (.state i) ≤ k) (hmsg : m.memory (.state i) k = some msg) :
    msg.value = HeartbeatState.waitingForInput := by
  rw [h.memory_eq ha] at hmsg
  exact hs.loads k msg ((h.views_le _ _).trans hk) hmsg

theorem seesWait_move {i : ℕ} (h : Move n timeout s a s') (ha : ∀ k, a ≠ .storeRunning i k)
    (hs : s.SeesWait i) : s'.SeesWait i := by
  cases h with
  | markRunning => exact ⟨hs.loads, hs.scan⟩
  | storeTimestamp _ hm | sync hm =>
    refine ⟨hs.effect hm ?_, hs.scan⟩
    intro h
    cases h
  | @storeRunning j k _ _ _ hm =>
    refine ⟨hs.effect hm ?_, hs.scan⟩
    intro h
    cases h
    exact ha k rfl
  | @markWaiting j _ _ _ hm =>
    by_cases hj : j = i
    · subst hj
      refine ⟨fun k msg hk hmsg => ?_, hs.scan⟩
      obtain ⟨-, rfl⟩ | hold := store_cases hm hmsg
      · rfl
      · exact hs.loads k msg ((hm.views_le _ _).trans hk) hold
    · refine ⟨hs.effect hm ?_, hs.scan⟩
      intro h
      cases h
      exact hj rfl
  | scanOnce | scanned => exact ⟨hs.loads, fun _ _ h => by cases h⟩
  | @running _ j k _ msg _ _ hmsg hval hm =>
    refine ⟨hs.effect hm (fun h => by cases h), fun now k' hpc => ?_⟩
    cases hpc
    have hle : s.memory.views .watchdog (.state i) ≤ k := by
      cases hm with
      | load _ hle => exact hle
    rw [hs.loads k msg hle hmsg] at hval
    cases hval
  | waiting _ hm | fresh _ hm | stalled _ _ _ hm =>
    exact ⟨hs.effect hm (fun h => by cases h), fun _ _ h => by cases h⟩

/-- A thread whose last word is `WaitingForInput` is not reported from the moment this has reached
the watchdog until its next `Running`, however long it waits; unless a scan has by then loaded
`Running` from it and not yet its timestamp, for such a scan may still report it. -/
theorem weak_wait_never_flagged {t₀ : ℕ → Time} {as bs : List Action} {i : ℕ}
    {msg : Message Cell HeartbeatState} (h : Lts.run (step n timeout) (initial t₀) as = some s)
    (hlast : s.memory.memory (.state i) (s.memory.views (.monitored i) (.state i)) = some msg)
    (hwait : msg.value = .waitingForInput)
    (hheard : s.memory.views (.monitored i) (.state i) ≤ s.memory.views .watchdog (.state i))
    (hscan : ∀ now k, s.scan ≠ .loadTimestamp now i k)
    (hrun : Lts.run (step n timeout) s bs = some s') (hbeat : ∀ k, .storeRunning i k ∉ bs) :
    ∀ v ∈ s'.verdicts, v.index = i → v ∈ s.verdicts := by
  have howned : s.memory.OwnedBy (.state i) (.monitored i) :=
    Lts.run_invariant (I := fun s => s.memory.OwnedBy (.state i) (.monitored i))
      (fun _ _ _ hs => stateOwned_move (step_move hs)) h (Machine.within_initial _ _)
  have hstart : s.SeesWait i := by
    refine ⟨fun k u hk hu => ?_, hscan⟩
    obtain rfl : k = s.memory.views (.monitored i) (.state i) :=
      le_antisymm (howned.places k u hu) (hheard.trans hk)
    rw [hlast] at hu
    cases hu
    exact hwait
  refine (Lts.run_invariant_along (P := fun _ a => ∀ k, a ≠ .storeRunning i k)
    (I := fun u => u.SeesWait i ∧ ∀ v ∈ u.verdicts, v.index = i → v ∈ s.verdicts)
    ?_ hrun ?_ ⟨hstart, fun v hv _ => hv⟩).2
  · intro u a u' hu ha ⟨hsees, hv⟩
    have hm := step_move hu
    refine ⟨seesWait_move hm ha hsees, fun v hmem hi => ?_⟩
    cases hm with
    | stalled hpc =>
      obtain hmem | hmem := List.mem_append.mp hmem
      · exact hv v hmem hi
      · obtain rfl := List.mem_singleton.mp hmem
        subst hi
        exact absurd hpc (hsees.scan _ _)
    | _ => exact hv v hmem hi
  · refine Lts.along_of_forall (fun a ha k hk => ?_) s
    subst hk
    exact hbeat k ha

/-- A beat and a wait, of which the watchdog then hears. -/
def heardWait : List Action :=
  [.markRunning 0 3, .storeTimestamp 0 1, .storeRunning 0 1, .markWaiting 0 2,
    .sync .watchdog (.monitored 0) fun _ => 2]

theorem weak_wait_never_flagged_heardWait : ∃ s s',
    Lts.run (step 1 5) (initial fun _ => 0) heardWait = some s ∧
      Lts.run (step 1 5) s [.scanOnce 100, .loadState 2, .loadState 0] = some s' ∧
      ∀ v ∈ s'.verdicts, v.index = 0 → v ∈ s.verdicts := by
  obtain ⟨s, hrun, hlast, hheard, hscan, hsome⟩ := Lts.exists_run (step 1 5) (initial fun _ => 0)
    heardWait (fun s => (s.memory.memory (.state 0)
        (s.memory.views (.monitored 0) (.state 0))).map Message.value =
          some HeartbeatState.waitingForInput ∧
      s.memory.views (.monitored 0) (.state 0) ≤ s.memory.views .watchdog (.state 0) ∧
      (match s.scan with | .outside => true | _ => false) = true ∧
      (Lts.run (step 1 5) s [.scanOnce 100, .loadState 2, .loadState 0]).isSome = true)
    (by decide +kernel)
  obtain ⟨msg, hmsg, hwait⟩ := Option.map_eq_some_iff.mp hlast
  obtain ⟨s', hrun'⟩ := Option.isSome_iff_exists.mp hsome
  refine ⟨s, s', hrun, hrun', weak_wait_never_flagged hrun hmsg hwait hheard ?_ hrun' (by simp)⟩
  intro now k hpc
  rw [hpc] at hscan
  cases hscan

end RadarRT.Weak
