import Mathlib.Algebra.Group.Nat.Defs
import RadarRT.Lib.Lts
import RadarRT.Lib.ReleaseAcquire

/-!
# Metrics under release/acquire

The atomics of `Metrics` on release/acquire memory: the counters move by `fetch_add` with release
ordering, the gauges by release stores, all readers use acquire loads. Any number of threads record
and read in any order, each until it finishes; the main thread joins them one after another and
then prints the summary, as `Application::run` does.
-/

namespace RadarRT.WeakMetrics

open ReleaseAcquire

inductive Counter where
  | signalsProduced
  | signalsProcessed
  | deadlineMisses
  | watchdogStalls
  | threadExceptions
deriving DecidableEq

inductive Gauge where
  | inputDrops
  | logDrops
  | inputQueueDepth
  | outputQueueDepth
  | lastProcessingLatencyTicks
deriving DecidableEq

inductive Cell where
  | counter (c : Counter)
  | gauge (g : Gauge)
deriving DecidableEq

/-- `std::uint64_t` and `std::size_t`; the latency is a signed `Clock::Duration::rep`. -/
abbrev Cell.Value : Cell → Type
  | .gauge .lastProcessingLatencyTicks => Int64
  | _ => UInt64

def Cell.init : ∀ x : Cell, x.Value
  | .counter _ => (0 : UInt64)
  | .gauge .lastProcessingLatencyTicks => (0 : Int64)
  | .gauge .inputDrops | .gauge .logDrops | .gauge .inputQueueDepth | .gauge .outputQueueDepth =>
    (0 : UInt64)

/-- The main thread and `N` others. -/
inductive Party (N : ℕ) where
  | main
  | thread (i : Fin N)
deriving DecidableEq

instance (N : ℕ) : Nonempty (Party N) := ⟨.main⟩

/-- A counter as a thread read it. -/
structure Reading (N : ℕ) where
  party : Party N
  counter : Counter
  value : UInt64
  /-- How many increments the value counts. -/
  place : ℕ
  /-- How many increments the reader itself, and how many all threads, had made by then. -/
  own : ℕ
  total : ℕ

structure State (N : ℕ) where
  memory : Machine (Party N) Cell Cell.Value
  finished : Fin N → Bool
  /-- How many threads the main thread has joined. -/
  joined : ℕ
  /-- The increments each thread has made. -/
  made : Fin N → Counter → ℕ
  total : Counter → ℕ
  readings : List (Reading N)
  summary : Option String

variable {N : ℕ}

def initial (N : ℕ) : State N where
  memory := .initial Cell.init
  finished := fun _ => false
  joined := 0
  made := fun _ _ => 0
  total := fun _ => 0
  readings := []
  summary := none

namespace State

/-- The increments a thread has made itself; the main thread makes none. -/
def own (s : State N) : Party N → Counter → ℕ
  | .main, _ => 0
  | .thread i, c => s.made i c

def alive (s : State N) : Party N → Bool
  | .main => true
  | .thread i => !s.finished i

def access (s : State N) (p : Party N) (a : Access (Party N) Cell Cell.Value) :
    Option (State N) :=
  (s.memory.access p a).map fun m => { s with memory := m }

/-- An acquire load, which reads place `k`. -/
def load (s : State N) (p : Party N) (x : Cell) (k : ℕ) : Option (x.Value × State N) := do
  let msg ← s.memory.memory x k
  let s ← s.access p (.load x k)
  some (msg.value, s)

end State

/-- What `fetch_add(1, ...)` does to a counter; it wraps. -/
def increment (v : UInt64) : UInt64 := v + 1

/-- What `Application::reportSummary` prints. -/
def summaryText (signalsProduced signalsProcessed inputDrops logDrops deadlineMisses watchdogStalls
    threadExceptions : UInt64) : String :=
  "[radar] shutdown summary:\n" ++
    "  signals produced  : " ++ toString signalsProduced ++ "\n" ++
    "  signals processed : " ++ toString signalsProcessed ++ "\n" ++
    "  input drops       : " ++ toString inputDrops ++ "\n" ++
    "  log-record drops  : " ++ toString logDrops ++ "\n" ++
    "  deadline misses   : " ++ toString deadlineMisses ++ "\n" ++
    "  watchdog stalls   : " ++ toString watchdogStalls ++ "\n" ++
    "  thread exceptions : " ++ toString threadExceptions ++ "\n"

/-- `Application::reportSummary`: seven loads of the main thread, each of the place `k` names. -/
def reportSummary (s : State N) (k : Cell → ℕ) : Option (State N) := do
  let (produced, s) ← s.load .main (.counter .signalsProduced) (k (.counter .signalsProduced))
  let (processed, s) ← s.load .main (.counter .signalsProcessed) (k (.counter .signalsProcessed))
  let (inputDrops, s) ← s.load .main (.gauge .inputDrops) (k (.gauge .inputDrops))
  let (logDrops, s) ← s.load .main (.gauge .logDrops) (k (.gauge .logDrops))
  let (misses, s) ← s.load .main (.counter .deadlineMisses) (k (.counter .deadlineMisses))
  let (stalls, s) ← s.load .main (.counter .watchdogStalls) (k (.counter .watchdogStalls))
  let (exceptions, s) ← s.load .main (.counter .threadExceptions) (k (.counter .threadExceptions))
  some { s with
    summary := some (summaryText produced processed inputDrops logDrops misses stalls exceptions) }

inductive Action (N : ℕ) where
  /-- `fetch_add(1, release)` on a counter, which reads place `k`. -/
  | record (i : Fin N) (c : Counter) (k : ℕ)
  /-- A release store to a gauge. -/
  | set (i : Fin N) (g : Gauge) (v : (Cell.gauge g).Value) (k : ℕ)
  | read (p : Party N) (c : Counter) (k : ℕ)
  | readGauge (p : Party N) (g : Gauge) (k : ℕ)
  | sync (p q : Party N) (w : View Cell)
  | finish (i : Fin N)
  /-- The main thread joins the next thread. -/
  | join
  | reportSummary (k : Cell → ℕ)

def step (s : State N) : Action N → Option (State N)
  | .record i c k =>
    if s.finished i then none
    else (s.access (.thread i) (.fetch (.counter c) increment k)).map fun s => { s with
      made := Function.update s.made i (Function.update (s.made i) c (s.made i c + 1))
      total := Function.update s.total c (s.total c + 1) }
  | .set i g v k =>
    if s.finished i then none else s.access (.thread i) (.store (.gauge g) v k)
  | .read p c k =>
    if s.alive p then (s.load p (.counter c) k).map fun r => { r.2 with
      readings := s.readings ++ [⟨p, c, r.1, k, s.own p c, s.total c⟩] }
    else none
  | .readGauge p g k => if s.alive p then (s.load p (.gauge g) k).map Prod.snd else none
  | .sync p q w => if s.alive p then s.access p (.sync q w) else none
  | .finish i => if s.finished i then none
    else some { s with finished := Function.update s.finished i true }
  | .join =>
    if h : s.joined < N then
      let i : Fin N := ⟨s.joined, h⟩
      if s.finished i then
        (s.access .main (.sync (.thread i) (s.memory.views (.thread i)))).map fun s =>
          { s with joined := s.joined + 1 }
      else none
    else none
  | .reportSummary k => if s.joined = N ∧ s.summary = none then reportSummary s k else none

/-! ## What a step can do -/

variable {s s' : State N} {a : Action N}

inductive Move (s : State N) : Action N → State N → Prop
  | record {i c k m} : s.finished i = false →
    s.memory.Effect (.thread i) (.fetch (.counter c) increment k) m →
    Move s (.record i c k) { s with
      memory := m
      made := Function.update s.made i (Function.update (s.made i) c (s.made i c + 1))
      total := Function.update s.total c (s.total c + 1) }
  | set {i g v k m} : s.finished i = false →
    s.memory.Effect (.thread i) (.store (.gauge g) v k) m →
    Move s (.set i g v k) { s with memory := m }
  | read {p c k m msg} : s.alive p = true → s.memory.memory (.counter c) k = some msg →
    s.memory.Effect p (.load (.counter c) k) m →
    Move s (.read p c k) { s with
      memory := m
      readings := s.readings ++ [⟨p, c, msg.value, k, s.own p c, s.total c⟩] }
  | readGauge {p g k m} : s.alive p = true → s.memory.Effect p (.load (.gauge g) k) m →
    Move s (.readGauge p g k) { s with memory := m }
  | sync {p q w m} : s.alive p = true → s.memory.Effect p (.sync q w) m →
    Move s (.sync p q w) { s with memory := m }
  | finish {i} : s.finished i = false →
    Move s (.finish i) { s with finished := Function.update s.finished i true }
  | join {m} (h : s.joined < N) : s.finished ⟨s.joined, h⟩ = true →
    s.memory.Effect .main
      (.sync (.thread ⟨s.joined, h⟩) (s.memory.views (.thread ⟨s.joined, h⟩))) m →
    Move s .join { s with memory := m, joined := s.joined + 1 }
  | reportSummary {k s'} : s.joined = N → s.summary = none → reportSummary s k = some s' →
    Move s (.reportSummary k) s'

theorem State.access_effect {p : Party N} {a : Access (Party N) Cell Cell.Value}
    (h : s.access p a = some s') : ∃ m, s.memory.Effect p a m ∧ s' = { s with memory := m } := by
  obtain ⟨m, hm, rfl⟩ := Option.map_eq_some_iff.mp h
  exact ⟨m, Machine.access_effect hm, rfl⟩

theorem State.load_effect {p : Party N} {x : Cell} {k : ℕ} {v : x.Value}
    (h : s.load p x k = some (v, s')) : ∃ msg m, s.memory.memory x k = some msg ∧ msg.value = v ∧
      s.memory.Effect p (.load x k) m ∧ s' = { s with memory := m } := by
  obtain ⟨msg, hmsg, h⟩ := Option.bind_eq_some_iff.mp h
  obtain ⟨t, ht, ⟨⟩⟩ := Option.bind_eq_some_iff.mp h
  obtain ⟨m, hm, rfl⟩ := State.access_effect ht
  exact ⟨msg, m, hmsg, rfl, hm, rfl⟩

theorem step_move (h : step s a = some s') : Move s a s' := by
  cases a with
  | record i c k =>
    obtain ⟨hfin, h⟩ := Option.ite_none_left_eq_some.mp h
    obtain ⟨t, ht, rfl⟩ := Option.map_eq_some_iff.mp h
    obtain ⟨m, hm, rfl⟩ := State.access_effect ht
    exact .record (by simpa using hfin) hm
  | set i g v k =>
    obtain ⟨hfin, h⟩ := Option.ite_none_left_eq_some.mp h
    obtain ⟨m, hm, rfl⟩ := State.access_effect h
    exact .set (by simpa using hfin) hm
  | read p c k =>
    obtain ⟨hp, h⟩ := Option.ite_none_right_eq_some.mp h
    obtain ⟨⟨v, t⟩, ht, rfl⟩ := Option.map_eq_some_iff.mp h
    obtain ⟨msg, m, hmsg, rfl, hm, rfl⟩ := State.load_effect ht
    exact .read hp hmsg hm
  | readGauge p g k =>
    obtain ⟨hp, h⟩ := Option.ite_none_right_eq_some.mp h
    obtain ⟨⟨v, t⟩, ht, rfl⟩ := Option.map_eq_some_iff.mp h
    obtain ⟨msg, m, -, -, hm, rfl⟩ := State.load_effect ht
    exact .readGauge hp hm
  | sync p q w =>
    obtain ⟨hp, h⟩ := Option.ite_none_right_eq_some.mp h
    obtain ⟨m, hm, rfl⟩ := State.access_effect h
    exact .sync hp hm
  | finish i =>
    obtain ⟨hfin, ⟨⟩⟩ := Option.ite_none_left_eq_some.mp h
    exact .finish (by simpa using hfin)
  | join =>
    simp only [step] at h
    split at h
    · next hN =>
      obtain ⟨hfin, h⟩ := Option.ite_none_right_eq_some.mp h
      obtain ⟨t, ht, rfl⟩ := Option.map_eq_some_iff.mp h
      obtain ⟨m, hm, rfl⟩ := State.access_effect ht
      exact .join hN hfin hm
    · cases h
  | reportSummary k =>
    obtain ⟨⟨hN, hnone⟩, h⟩ := Option.ite_none_right_eq_some.mp h
    exact .reportSummary hN hnone h

/-! ## The last value of a cell -/

/-- `v` is last in the modification order of `x`. -/
def LastValue (m : Machine (Party N) Cell Cell.Value) (x : Cell) (v : x.Value) : Prop :=
  ∃ k msg, m.memory x k = some msg ∧ msg.value = v ∧
    ∀ l msg', m.memory x l = some msg' → l ≤ k

/-- The main thread has seen all that any thread has seen. -/
structure CaughtUp (m : Machine (Party N) Cell Cell.Value) : Prop where
  known : m.Known
  views : ∀ p, m.views p ≤ m.views .main

/-- The same state, but that some thread has seen more. -/
structure State.Seen (s s' : State N) : Prop where
  memory : s'.memory.memory = s.memory.memory
  views : ∀ p, s.memory.views p ≤ s'.memory.views p
  rest : s' = { s with memory := s'.memory }

theorem State.Seen.trans {s₁ s₂ s₃ : State N} (h : s₁.Seen s₂) (h' : s₂.Seen s₃) : s₁.Seen s₃ := by
  refine ⟨h'.memory.trans h.memory, fun p => (h.views p).trans (h'.views p), ?_⟩
  rw [h'.rest, h.rest]

theorem State.Seen.lastValue (h : s.Seen s') {x : Cell} {v : x.Value}
    (hv : LastValue s'.memory x v) : LastValue s.memory x v := by
  unfold LastValue at hv
  rwa [h.memory] at hv

theorem increment_iterate (k : ℕ) : increment^[k] 0 = UInt64.ofNat k := by
  induction k with
  | zero => rfl
  | succ k ih =>
    rw [Function.iterate_succ_apply', ih, increment]
    simp

/-- A counter that has only been incremented ends in the number of increments. -/
theorem lastValue_chain {m : Machine (Party N) Cell Cell.Value} {c : Counter} {total : ℕ}
    (hc : m.Chain (.counter c) increment 0 total) {v : UInt64}
    (hv : LastValue m (.counter c) v) : v = UInt64.ofNat total := by
  obtain ⟨k, msg, hmsg, rfl, hlast⟩ := hv
  obtain ⟨top, htop, -⟩ := Option.map_eq_some_iff.mp (hc.filled total le_rfl)
  obtain ⟨hk, hval⟩ := hc.value hmsg
  rw [hval, increment_iterate, le_antisymm hk (hlast total top htop)]

/-! ## Invariants -/

/-- No increment is lost, every thread knows its own, and the main thread knows all of those it
has joined. -/
structure Sound (s : State N) : Prop where
  chain : ∀ c, s.memory.Chain (.counter c) increment 0 (s.total c)
  placed : s.memory.Placed
  known : s.memory.Known
  own : ∀ i c, s.made i c ≤ s.memory.views (.thread i) (.counter c)
  joined : ∀ i : Fin N, i < s.joined →
    s.finished i = true ∧ s.memory.views (.thread i) ≤ s.memory.views .main

theorem sound_initial : Sound (initial N) where
  chain := fun c => Machine.chain_initial Cell.init (.counter c) increment
  placed := Machine.placed_initial _
  known := Machine.known_initial _
  own := fun _ _ => le_rfl
  joined := fun _ h => absurd h (Nat.not_lt_zero _)

/-- A thread that still runs has not been joined, so what the main thread has taken over stays. -/
theorem Sound.joined_effect (hs : Sound s) {p : Party N} {a : Access (Party N) Cell Cell.Value}
    {m : Machine (Party N) Cell Cell.Value} (h : s.memory.Effect p a m) (hp : s.alive p = true)
    (i : Fin N) (hi : i < s.joined) :
    s.finished i = true ∧ m.views (.thread i) ≤ m.views .main := by
  obtain ⟨hfin, hview⟩ := hs.joined i hi
  have hne : Party.thread i ≠ p := by
    rintro rfl
    simp [State.alive, hfin] at hp
  rw [h.views_of_ne hne]
  exact ⟨hfin, hview.trans (h.views_le _)⟩

/-- Accesses that increment nothing. -/
theorem Sound.effect (hs : Sound s) {p : Party N} {a : Access (Party N) Cell Cell.Value}
    {m : Machine (Party N) Cell Cell.Value} (h : s.memory.Effect p a m) (hp : s.alive p = true)
    (ha : ∀ c, a.target ≠ some (.counter c)) : Sound { s with memory := m } where
  chain := fun c => (hs.chain c).keep h (ha c)
  placed := hs.placed.keep h
  known := hs.known.keep h
  own := fun i c => (hs.own i c).trans (h.views_le _ _)
  joined := hs.joined_effect h hp

theorem Sound.record (hs : Sound s) {i : Fin N} {c : Counter} {k : ℕ}
    {m : Machine (Party N) Cell Cell.Value} (hfin : s.finished i = false)
    (h : s.memory.Effect (.thread i) (.fetch (.counter c) increment k) m) :
    Sound { s with
      memory := m
      made := Function.update s.made i (Function.update (s.made i) c (s.made i c + 1))
      total := Function.update s.total c (s.total c + 1) } := by
  obtain ⟨rfl, hchain⟩ := (hs.chain c).fetch h
  have hview : s.memory.views (.thread i) (.counter c) ≤ s.total c ∧
      m.views (.thread i) (.counter c) = s.total c + 1 := by
    cases h with
    | fetch _ hle => exact ⟨hle, by simp⟩
  refine ⟨fun d => ?_, hs.placed.keep h, hs.known.keep h, fun j d => ?_,
    hs.joined_effect h (by simp [State.alive, hfin])⟩
  · by_cases hd : d = c
    · subst hd
      simpa using hchain
    · simp only [Function.update_of_ne hd]
      exact (hs.chain d).keep h fun hx => hd (by cases hx; rfl)
  · have hold := (hs.own j d).trans (h.views_le _ _)
    by_cases hj : j = i
    · subst hj
      by_cases hd : d = c
      · subst hd
        have hown := hs.own j d
        simp only [Function.update_self]
        omega
      · simpa [hd] using hold
    · simpa [hj] using hold

theorem Sound.join (hs : Sound s) {m : Machine (Party N) Cell Cell.Value} (hN : s.joined < N)
    (hfin : s.finished ⟨s.joined, hN⟩ = true)
    (h : s.memory.Effect .main
      (.sync (.thread ⟨s.joined, hN⟩) (s.memory.views (.thread ⟨s.joined, hN⟩))) m) :
    Sound { s with memory := m, joined := s.joined + 1 } := by
  obtain ⟨hc, hp, hk, ho, hj⟩ := hs.effect h rfl fun c hx => by cases hx
  refine ⟨hc, hp, hk, ho, fun i hi => ?_⟩
  by_cases heq : i = ⟨s.joined, hN⟩
  · subst heq
    refine ⟨hfin, ?_⟩
    rw [h.views_of_ne fun hx => by cases hx]
    exact h.sync_view
  · refine hj i (lt_of_le_of_ne (Nat.le_of_lt_succ hi) fun hx => heq (Fin.ext hx))

/-- All threads are joined: the main thread knows everything there is. -/
theorem Sound.caughtUp (hs : Sound s) (hN : s.joined = N) : CaughtUp s.memory := by
  refine ⟨hs.known, fun p => ?_⟩
  cases p with
  | main => exact le_rfl
  | thread i => exact (hs.joined i (by omega)).2

/-- A load of the main thread after the joins returns the last value. -/
theorem Sound.load (hs : Sound s) (hN : s.joined = N) {x : Cell} {k : ℕ} {v : x.Value}
    (h : s.load .main x k = some (v, s')) :
    LastValue s.memory x v ∧ Sound s' ∧ s'.joined = N ∧ s.Seen s' := by
  obtain ⟨msg, m, hmsg, hval, hm, rfl⟩ := State.load_effect h
  have hup := hs.caughtUp hN
  refine ⟨⟨k, msg, hmsg, hval, fun l msg' => hm.load_last hup.known hup.views⟩,
    hs.effect hm rfl (fun c hx => by cases hx), hN, ⟨?_, hm.views_le, rfl⟩⟩
  funext y
  exact hm.memory_eq fun h => by cases h

/-! ## The summary -/

/-- `text` shows every counter as the number of its increments, modulo 2^64, and the two drop
gauges as they were last set. -/
def Exact (s : State N) (text : String) : Prop :=
  ∃ inputDrops logDrops, LastValue s.memory (.gauge .inputDrops) inputDrops ∧
    LastValue s.memory (.gauge .logDrops) logDrops ∧
    text = summaryText (.ofNat (s.total .signalsProduced)) (.ofNat (s.total .signalsProcessed))
      inputDrops logDrops (.ofNat (s.total .deadlineMisses)) (.ofNat (s.total .watchdogStalls))
      (.ofNat (s.total .threadExceptions))

theorem reportSummary_exact (hs : Sound s) (hN : s.joined = N) {k : Cell → ℕ}
    (h : reportSummary s k = some s') :
    ∃ s₁ text, Sound s₁ ∧ s.Seen s₁ ∧ Exact s text ∧ s' = { s₁ with summary := some text } := by
  have hcounter : ∀ c v, LastValue s.memory (.counter c) v → v = UInt64.ofNat (s.total c) :=
    fun c v => lastValue_chain (hs.chain c)
  unfold reportSummary at h
  obtain ⟨⟨produced, s₁⟩, h₁, h⟩ := Option.bind_eq_some_iff.mp h
  obtain ⟨⟨processed, s₂⟩, h₂, h⟩ := Option.bind_eq_some_iff.mp h
  obtain ⟨⟨inputDrops, s₃⟩, h₃, h⟩ := Option.bind_eq_some_iff.mp h
  obtain ⟨⟨logDrops, s₄⟩, h₄, h⟩ := Option.bind_eq_some_iff.mp h
  obtain ⟨⟨misses, s₅⟩, h₅, h⟩ := Option.bind_eq_some_iff.mp h
  obtain ⟨⟨stalls, s₆⟩, h₆, h⟩ := Option.bind_eq_some_iff.mp h
  obtain ⟨⟨exceptions, s₇⟩, h₇, ⟨⟩⟩ := Option.bind_eq_some_iff.mp h
  obtain ⟨v₁, hs₁, hN₁, e₁⟩ := hs.load hN h₁
  obtain ⟨v₂, hs₂, hN₂, e₂⟩ := hs₁.load hN₁ h₂
  obtain ⟨v₃, hs₃, hN₃, e₃⟩ := hs₂.load hN₂ h₃
  obtain ⟨v₄, hs₄, hN₄, e₄⟩ := hs₃.load hN₃ h₄
  obtain ⟨v₅, hs₅, hN₅, e₅⟩ := hs₄.load hN₄ h₅
  obtain ⟨v₆, hs₆, hN₆, e₆⟩ := hs₅.load hN₅ h₆
  obtain ⟨v₇, hs₇, -, e₇⟩ := hs₆.load hN₆ h₇
  have f₂ := e₁.trans e₂
  have f₃ := f₂.trans e₃
  have f₄ := f₃.trans e₄
  have f₅ := f₄.trans e₅
  have f₆ := f₅.trans e₆
  refine ⟨s₇, _, hs₇, f₆.trans e₇, ?_, rfl⟩
  refine ⟨inputDrops, logDrops, f₂.lastValue v₃, f₃.lastValue v₄, ?_⟩
  rw [hcounter _ _ v₁, hcounter _ _ (e₁.lastValue v₂), hcounter _ _ (f₄.lastValue v₅),
    hcounter _ _ (f₅.lastValue v₆), hcounter _ _ (f₆.lastValue v₇)]

theorem sound_move (h : Move s a s') (hs : Sound s) : Sound s' := by
  cases h with
  | record hfin hm => exact hs.record hfin hm
  | set hfin hm =>
    exact hs.effect hm (by simp [State.alive, hfin]) fun c hx => by cases hx
  | read hp _ hm =>
    obtain ⟨hc, hpl, hk, ho, hj⟩ := hs.effect hm hp fun c hx => by cases hx
    exact ⟨hc, hpl, hk, ho, hj⟩
  | readGauge hp hm | sync hp hm => exact hs.effect hm hp fun c hx => by cases hx
  | @finish i hfin =>
    refine ⟨hs.chain, hs.placed, hs.known, hs.own, fun j hj => ⟨?_, (hs.joined j hj).2⟩⟩
    by_cases hji : j = i
    · simp [hji]
    · simpa [hji] using (hs.joined j hj).1
  | join hN hfin hm => exact hs.join hN hfin hm
  | reportSummary hN _ h =>
    obtain ⟨s₁, text, ⟨hc, hpl, hk, ho, hj⟩, -, -, rfl⟩ := reportSummary_exact hs hN h
    exact ⟨hc, hpl, hk, ho, hj⟩

/-- A summary is printed after the joins, and is exact then and later. -/
structure Summarised (s : State N) : Prop where
  joined : s.summary ≠ none → s.joined = N
  exact : ∀ text, s.summary = some text → Exact s text

theorem Exact.congr {text : String} (h : Exact s text) (hmem : s'.memory.memory = s.memory.memory)
    (htotal : s'.total = s.total) : Exact s' text := by
  unfold Exact LastValue at h ⊢
  rwa [hmem, htotal]

theorem summarised_move (h : Move s a s') (hsound : Sound s) (hs : Summarised s) :
    Summarised s' := by
  -- after the summary no thread is left that could change anything
  have hdone : s.summary ≠ none → ∀ i, s.finished i = true := by
    intro hsum i
    have hN := hs.joined hsum
    exact (hsound.joined i (by omega)).1
  have hquiet : ∀ {p a m}, s.memory.Effect p a m → a.target = none →
      m.memory = s.memory.memory := by
    intro p a m hm ha
    funext y
    exact hm.memory_eq (by rw [ha]; exact (Option.some_ne_none y).symm)
  cases h with
  | @record i _ _ _ hfin | @set i _ _ _ _ hfin | @finish i hfin =>
    refine ⟨fun h => hs.joined h, fun text htext => ?_⟩
    have hi := hdone (ne_of_eq_of_ne htext (Option.some_ne_none text)) i
    rw [hi] at hfin
    cases hfin
  | read _ _ hm | readGauge _ hm | sync _ hm =>
    exact ⟨hs.joined, fun text htext => (hs.exact text htext).congr (hquiet hm rfl) rfl⟩
  | join hN =>
    refine ⟨fun hsum => ?_, fun text htext => ?_⟩
    · have := hs.joined hsum
      omega
    · have := hs.joined (ne_of_eq_of_ne htext (Option.some_ne_none text))
      omega
  | reportSummary hN _ h =>
    obtain ⟨s₁, text, -, hseen, hexact, rfl⟩ := reportSummary_exact hsound hN h
    refine ⟨fun _ => ?_, fun text' htext => ?_⟩
    · rw [hseen.rest]
      exact hN
    · cases htext
      exact hexact.congr hseen.memory (by rw [hseen.rest])

/-- The summary `reportSummary` prints is exact, whatever the threads did and in whatever order
their increments and stores became visible. -/
theorem summary_exact {as : List (Action N)} {text : String}
    (h : Lts.run step (initial N) as = some s) (htext : s.summary = some text) : Exact s text := by
  refine (Lts.run_invariant (I := fun s => Sound s ∧ Summarised s) ?_ h
    ⟨sound_initial, ⟨fun h => absurd rfl h, fun _ h => by cases h⟩⟩).2.exact text htext
  intro s a s' hs ⟨hsound, hsum⟩
  exact ⟨sound_move (step_move hs) hsound, summarised_move (step_move hs) hsound hsum⟩

/-- One thread counts and finishes, the main thread joins it and prints the summary. -/
def countAndReport : List (Action 1) :=
  [.record ⟨0, Nat.one_pos⟩ .signalsProduced 0, .set ⟨0, Nat.one_pos⟩ .logDrops (2 : UInt64) 4,
    .record ⟨0, Nat.one_pos⟩ .signalsProduced 1, .finish ⟨0, Nat.one_pos⟩, .join,
    .reportSummary fun x => if x = .counter .signalsProduced then 2
      else if x = .gauge .logDrops then 4 else 0]

theorem summary_exact_countAndReport : ∃ s text,
    Lts.run step (initial 1) countAndReport = some s ∧ s.summary = some text ∧
      s.total .signalsProduced = 2 ∧ Exact s text := by
  obtain ⟨s, hrun, hsome, htotal⟩ := Lts.exists_run step (initial 1) countAndReport
    (fun s => s.summary.isSome = true ∧ s.total .signalsProduced = 2) (by decide +kernel)
  obtain ⟨text, htext⟩ := Option.isSome_iff_exists.mp hsome
  exact ⟨s, text, hrun, htext, htotal, summary_exact hrun htext⟩

/-! ## Readings while the threads run -/

/-- The value counts at least the reader's own increments, and none that has not been made. -/
structure Reading.Ok (r : Reading N) : Prop where
  value : r.value = UInt64.ofNat r.place
  own : r.own ≤ r.place
  total : r.place ≤ r.total

/-- Later readings of one counter by one thread are not older. -/
def Reading.Before (r r' : Reading N) : Prop :=
  r.party = r'.party → r.counter = r'.counter → r.place ≤ r'.place

structure Readings (s : State N) : Prop where
  ok : ∀ r ∈ s.readings, r.Ok
  ordered : s.readings.Pairwise Reading.Before
  seen : ∀ r ∈ s.readings, r.place ≤ s.memory.views r.party (.counter r.counter)

theorem Readings.effect (hs : Readings s) {p : Party N} {a : Access (Party N) Cell Cell.Value}
    {m : Machine (Party N) Cell Cell.Value} (h : s.memory.Effect p a m)
    (hm : s'.memory = m) (hr : s'.readings = s.readings) : Readings s' := by
  refine ⟨by rw [hr]; exact hs.ok, by rw [hr]; exact hs.ordered, ?_⟩
  rw [hr, hm]
  intro r hmem
  exact (hs.seen r hmem).trans (h.views_le _ _)

theorem Sound.own_le (hs : Sound s) (p : Party N) (c : Counter) :
    s.own p c ≤ s.memory.views p (.counter c) := by
  cases p with
  | main => exact Nat.zero_le _
  | thread i => exact hs.own i c

theorem Readings.read (hr : Readings s) (hs : Sound s) {p : Party N} {c : Counter} {k : ℕ}
    {m : Machine (Party N) Cell Cell.Value} {msg : Message Cell UInt64}
    (hmsg : s.memory.memory (.counter c) k = some msg)
    (h : s.memory.Effect p (.load (.counter c) k) m) :
    Readings { s with
      memory := m
      readings := s.readings ++ [⟨p, c, msg.value, k, s.own p c, s.total c⟩] } := by
  obtain ⟨hle, hseen⟩ := h.load_le hs.placed
  obtain ⟨htotal, hval⟩ := (hs.chain c).value hmsg
  refine ⟨fun r hmem => ?_, ?_, fun r hmem => ?_⟩
  · obtain hmem | hmem := List.mem_append.mp hmem
    · exact hr.ok r hmem
    · obtain rfl := List.mem_singleton.mp hmem
      exact ⟨hval.trans (increment_iterate k), (hs.own_le p c).trans hle, htotal⟩
  · refine List.pairwise_append.mpr ⟨hr.ordered, List.pairwise_singleton _ _, ?_⟩
    intro r hmem r' hmem' hp hc
    obtain rfl := List.mem_singleton.mp hmem'
    -- the view of the reader has grown from the one reading to the other
    have hold := hr.seen r hmem
    rw [show r.party = p from hp, show r.counter = c from hc] at hold
    exact hold.trans hle
  · obtain hmem | hmem := List.mem_append.mp hmem
    · exact (hr.seen r hmem).trans (h.views_le _ _)
    · obtain rfl := List.mem_singleton.mp hmem
      exact hseen

theorem readings_move (h : Move s a s') (hs : Sound s) (hr : Readings s) : Readings s' := by
  cases h with
  | record _ hm | set _ hm | readGauge _ hm | sync _ hm | join _ _ hm =>
    exact hr.effect hm rfl rfl
  | read _ hmsg hm => exact hr.read hs hmsg hm
  | finish => exact ⟨hr.ok, hr.ordered, hr.seen⟩
  | reportSummary hN _ h =>
    obtain ⟨s₁, text, -, hseen, -, rfl⟩ := reportSummary_exact hs hN h
    have hlog : s₁.readings = s.readings := by
      rw [hseen.rest]
    refine ⟨by rw [hlog]; exact hr.ok, by rw [hlog]; exact hr.ordered, ?_⟩
    rw [hlog]
    intro r hmem
    exact (hr.seen r hmem).trans (hseen.views _ _)

/-- Counters read while the threads run: never more than has been counted, never less than the
reader has counted itself, and for one reader never going back. And no increment is lost: the
values of a counter, in their order, are those after none, one, two and so on of all that were
made. -/
theorem readings_coherent {as : List (Action N)} (h : Lts.run step (initial N) as = some s) :
    (∀ r ∈ s.readings, r.Ok) ∧ s.readings.Pairwise Reading.Before ∧
      ∀ c, s.memory.Chain (.counter c) increment 0 (s.total c) := by
  have hinv := Lts.run_invariant (I := fun s => Sound s ∧ Readings s)
    (fun s a s' hs hI => ⟨sound_move (step_move hs) hI.1, readings_move (step_move hs) hI.1 hI.2⟩)
    h ⟨sound_initial, ⟨fun _ h => (by cases h), .nil, fun _ h => (by cases h)⟩⟩
  exact ⟨hinv.2.ok, hinv.2.ordered, hinv.1.chain⟩

/-- Two threads count; one of them reads, and reads again after it has heard of the other. -/
def countAndRead : List (Action 2) :=
  let first : Fin 2 := ⟨0, Nat.two_pos⟩
  let second : Fin 2 := ⟨1, Nat.one_lt_two⟩
  [.record first .signalsProcessed 0, .record second .signalsProcessed 1,
    .read (.thread first) .signalsProcessed 1, .sync (.thread first) (.thread second) fun _ => 2,
    .read (.thread first) .signalsProcessed 2]

theorem readings_coherent_countAndRead : ∃ s,
    Lts.run step (initial 2) countAndRead = some s ∧ s.readings.map Reading.value = [1, 2] ∧
      (∀ r ∈ s.readings, r.Ok) ∧ s.readings.Pairwise Reading.Before ∧
      ∀ c, s.memory.Chain (.counter c) increment 0 (s.total c) := by
  obtain ⟨s, hrun, hval⟩ := Lts.exists_run step (initial 2) countAndRead
    (fun s => s.readings.map Reading.value = [1, 2]) (by decide +kernel)
  exact ⟨s, hrun, hval, readings_coherent hrun⟩

end RadarRT.WeakMetrics
