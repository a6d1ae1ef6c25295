import Mathlib.Data.Finset.Card
import Mathlib.Data.Fintype.Card
import Mathlib.Order.Interval.Finset.Nat
import RadarRT.System.WeakMetrics

/-!
# The backlog as a lock-free reader sees it

The two counters of the input stage on release/acquire memory: the producer pushes a signal and then
counts it as produced, a worker pops a signal and then counts it as processed. Only the mutex of the
input queue orders the two; readers take no lock and load the counters with acquire loads, in any
order and as stale as the memory allows.

The signals are numbered from 1 in the order they are accepted, so the queue, being first in first
out, holds the numbers `popped + 1` to `pushed`. A critical section of the queue is one step: the
thread takes over what the mutex carries and leaves what it knows with it.
-/

namespace RadarRT.WeakBacklog

open ReleaseAcquire WeakMetrics

inductive Party (N : ℕ) where
  | producer
  | worker (i : Fin N)
  | reader (j : ℕ)
  | inputMutex
deriving DecidableEq

inductive ProducerPc where
  | push
  | recordSignalProduced
deriving DecidableEq

/-- A worker holds the signal it has popped until it has counted it, or dies with it. -/
inductive WorkerPc where
  | waitAndPop
  | recordSignalProcessed (x : ℕ)
  | dead
deriving DecidableEq

/-- The memory of the two counters. -/
abbrev Memory (N : ℕ) := Machine (Party N) Counter fun _ => UInt64

structure Reading where
  reader : ℕ
  counter : Counter
  value : UInt64
  place : ℕ
deriving DecidableEq

structure State (N : ℕ) where
  memory : Memory N
  pushed : ℕ
  popped : ℕ
  producer : ProducerPc
  workers : Fin N → WorkerPc
  /-- The signal each worker popped last. -/
  last : Fin N → Option ℕ
  /-- The signals in the order they were counted as processed. -/
  processed : List ℕ
  readings : List Reading

variable {N : ℕ}

def initial (N : ℕ) : State N where
  memory := .initial fun _ => 0
  pushed := 0
  popped := 0
  producer := .push
  workers := fun _ => .waitAndPop
  last := fun _ => none
  processed := []
  readings := []

namespace State

def access (s : State N) (p : Party N) (a : Access (Party N) Counter fun _ => UInt64) :
    Option (State N) :=
  (s.memory.access p a).map fun m => { s with memory := m }

/-- `p` locks the mutex of the input queue and unlocks it again. -/
def locked (s : State N) (p : Party N) : Option (State N) := do
  let s ← s.access p (.sync .inputMutex (s.memory.views .inputMutex))
  s.access .inputMutex (.sync p (s.memory.views p))

end State

inductive Action (N : ℕ) where
  | push
  | recordSignalProduced (k : ℕ)
  | waitAndPop (i : Fin N)
  | recordSignalProcessed (i : Fin N) (k : ℕ)
  /-- An exception ends a worker. -/
  | die (i : Fin N)
  | read (j : ℕ) (c : Counter) (k : ℕ)
  | sync (p q : Party N) (w : View Counter)

/-- The input stage over a queue of capacity `C`. -/
def step (C : ℕ) (s : State N) : Action N → Option (State N)
  | .push =>
    if s.producer = .push ∧ s.pushed < s.popped + C then (s.locked .producer).map fun s => { s with
      pushed := s.pushed + 1
      producer := .recordSignalProduced }
    else none
  | .recordSignalProduced k =>
    if s.producer = .recordSignalProduced then
      (s.access .producer (.fetch .signalsProduced increment k)).map fun s => { s with
        producer := .push }
    else none
  | .waitAndPop i =>
    if s.workers i = .waitAndPop ∧ s.popped < s.pushed then
      (s.locked (.worker i)).map fun s => { s with
        popped := s.popped + 1
        workers := Function.update s.workers i (.recordSignalProcessed (s.popped + 1))
        last := Function.update s.last i (some (s.popped + 1)) }
    else none
  | .recordSignalProcessed i k =>
    match s.workers i with
    | .recordSignalProcessed x =>
      (s.access (.worker i) (.fetch .signalsProcessed increment k)).map fun s => { s with
        workers := Function.update s.workers i .waitAndPop
        processed := s.processed ++ [x] }
    | _ => none
  | .die i =>
    if s.workers i = .dead then none
    else some { s with workers := Function.update s.workers i .dead }
  | .read j c k =>
    match s.memory.memory c k with
    | some msg => (s.access (.reader j) (.load c k)).map fun s => { s with
        readings := s.readings ++ [⟨j, c, msg.value, k⟩] }
    | none => none
  | .sync p q w => s.access p (.sync q w)

/-! ## What a step can do -/

variable {C : ℕ} {s s' : State N} {a : Action N}

/-- The same messages, and nobody has forgotten anything. -/
structure Grown (m m' : Memory N) : Prop where
  memory : m'.memory = m.memory
  views : ∀ p, m.views p ≤ m'.views p

theorem grown_of_effect {m m' : Memory N} {p : Party N}
    {a : Access (Party N) Counter fun _ => UInt64} (h : m.Effect p a m') (ha : a.target = none) :
    Grown m m' := by
  refine ⟨?_, h.views_le⟩
  funext x
  exact h.memory_eq (by rw [ha]; exact (Option.some_ne_none x).symm)

/-- What a critical section of `p` on the input queue does to the memory. -/
structure Locked (m m' : Memory N) (p : Party N) : Prop extends Grown m m' where
  taken : m.views .inputMutex ≤ m'.views p
  left : m'.views p ≤ m'.views .inputMutex

inductive Move (C : ℕ) (s : State N) : Action N → State N → Prop
  | push {m} : s.producer = .push → s.pushed < s.popped + C → Locked s.memory m .producer →
    Move C s .push { s with
      memory := m
      pushed := s.pushed + 1
      producer := .recordSignalProduced }
  | recordSignalProduced {k m} : s.producer = .recordSignalProduced →
    s.memory.Effect .producer (.fetch .signalsProduced increment k) m →
    Move C s (.recordSignalProduced k) { s with memory := m, producer := .push }
  | waitAndPop {i m} : s.workers i = .waitAndPop → s.popped < s.pushed →
    Locked s.memory m (.worker i) →
    Move C s (.waitAndPop i) { s with
      memory := m
      popped := s.popped + 1
      workers := Function.update s.workers i (.recordSignalProcessed (s.popped + 1))
      last := Function.update s.last i (some (s.popped + 1)) }
  | recordSignalProcessed {i x k m} : s.workers i = .recordSignalProcessed x →
    s.memory.Effect (.worker i) (.fetch .signalsProcessed increment k) m →
    Move C s (.recordSignalProcessed i k) { s with
      memory := m
      workers := Function.update s.workers i .waitAndPop
      processed := s.processed ++ [x] }
  | die {i} : Move C s (.die i) { s with workers := Function.update s.workers i .dead }
  | read {j c k m msg} : s.memory.memory c k = some msg →
    s.memory.Effect (.reader j) (.load c k) m →
    Move C s (.read j c k) { s with
      memory := m
      readings := s.readings ++ [⟨j, c, msg.value, k⟩] }
  | sync {p q w m} : Grown s.memory m → Move C s (.sync p q w) { s with memory := m }

theorem State.access_effect {p : Party N} {a : Access (Party N) Counter fun _ => UInt64}
    (h : s.access p a = some s') : ∃ m, s.memory.Effect p a m ∧ s' = { s with memory := m } := by
  obtain ⟨m, hm, rfl⟩ := Option.map_eq_some_iff.mp h
  exact ⟨m, Machine.access_effect hm, rfl⟩

theorem State.locked_spec {p : Party N} (hp : p ≠ .inputMutex) (h : s.locked p = some s') :
    ∃ m, Locked s.memory m p ∧ s' = { s with memory := m } := by
  unfold State.locked at h
  obtain ⟨t, ht, hs'⟩ := Option.bind_eq_some_iff.mp h
  obtain ⟨m₁, h₁, rfl⟩ := State.access_effect ht
  obtain ⟨m₂, h₂, rfl⟩ := State.access_effect hs'
  have hg₁ := grown_of_effect h₁ rfl
  have hg₂ := grown_of_effect h₂ rfl
  have hview : m₂.views p = m₁.views p := h₂.views_of_ne hp
  have hgrown : Grown s.memory m₂ :=
    ⟨hg₂.memory.trans hg₁.memory, fun q => (hg₁.views q).trans (hg₂.views q)⟩
  refine ⟨m₂, ⟨hgrown, ?_, ?_⟩, rfl⟩
  · rw [hview]
    exact h₁.sync_view
  · rw [hview]
    exact h₂.sync_view

theorem step_move (h : step C s a = some s') : Move C s a s' := by
  cases a with
  | push =>
    obtain ⟨⟨hpc, hroom⟩, h⟩ := Option.ite_none_right_eq_some.mp h
    obtain ⟨t, ht, rfl⟩ := Option.map_eq_some_iff.mp h
    obtain ⟨m, hm, rfl⟩ := State.locked_spec (fun h => by cases h) ht
    exact .push hpc hroom hm
  | recordSignalProduced k =>
    obtain ⟨hpc, h⟩ := Option.ite_none_right_eq_some.mp h
    obtain ⟨t, ht, rfl⟩ := Option.map_eq_some_iff.mp h
    obtain ⟨m, hm, rfl⟩ := State.access_effect ht
    exact .recordSignalProduced hpc hm
  | waitAndPop i =>
    obtain ⟨⟨hpc, hitem⟩, h⟩ := Option.ite_none_right_eq_some.mp h
    obtain ⟨t, ht, rfl⟩ := Option.map_eq_some_iff.mp h
    obtain ⟨m, hm, rfl⟩ := State.locked_spec (fun h => by cases h) ht
    exact .waitAndPop hpc hitem hm
  | recordSignalProcessed i k =>
    simp only [step] at h
    split at h
    · next x hpc =>
      obtain ⟨t, ht, rfl⟩ := Option.map_eq_some_iff.mp h
      obtain ⟨m, hm, rfl⟩ := State.access_effect ht
      exact .recordSignalProcessed hpc hm
    · cases h
  | die i =>
    obtain ⟨-, ⟨⟩⟩ := Option.ite_none_left_eq_some.mp h
    exact .die
  | read j c k =>
    simp only [step] at h
    split at h
    · next msg hmsg =>
      obtain ⟨t, ht, rfl⟩ := Option.map_eq_some_iff.mp h
      obtain ⟨m, hm, rfl⟩ := State.access_effect ht
      exact .read hmsg hm
    · cases h
  | sync p q w =>
    obtain ⟨m, hm, rfl⟩ := State.access_effect h
    exact .sync (grown_of_effect hm rfl)

/-! ## Counting the signals -/

/-- What the counters and the queue have to do with each other, whatever anybody knows of it: which
signals are out, each of them held by one worker or counted once. -/
structure Counted (s : State N) : Prop where
  produced : s.memory.Chain .signalsProduced increment 0
    (if s.producer = .push then s.pushed else s.pushed - 1)
  pushed_pos : s.producer ≠ .push → 0 < s.pushed
  processed : s.memory.Chain .signalsProcessed increment 0 s.processed.length
  popped_le : s.popped ≤ s.pushed
  nodup : s.processed.Nodup
  out : ∀ x ∈ s.processed, 0 < x ∧ x ≤ s.popped
  held : ∀ i x, s.workers i = .recordSignalProcessed x →
    0 < x ∧ x ≤ s.popped ∧ x ∉ s.processed ∧ s.last i = some x
  alone : ∀ i j x, s.workers i = .recordSignalProcessed x → s.workers j = .recordSignalProcessed x →
    i = j

theorem counted_initial : Counted (initial N) where
  produced := Machine.chain_initial (fun _ : Counter => (0 : UInt64)) _ increment
  pushed_pos := fun h => absurd rfl h
  processed := Machine.chain_initial (fun _ : Counter => (0 : UInt64)) _ increment
  popped_le := le_rfl
  nodup := .nil
  out := fun _ h => by cases h
  held := fun _ _ h => by cases h
  alone := fun _ _ _ h => by cases h

theorem Grown.chain {m m' : Memory N} (h : Grown m m') {c : Counter} {n : ℕ}
    (hc : m.Chain c increment 0 n) : m'.Chain c increment 0 n := by
  refine ⟨?_, ?_⟩
  · rw [h.memory]
    exact hc.filled
  · rw [h.memory]
    exact hc.free

theorem update_eq_or {w : Fin N → WorkerPc} {i j : Fin N} {pc pc' : WorkerPc}
    (h : Function.update w i pc j = pc') : j = i ∧ pc = pc' ∨ j ≠ i ∧ w j = pc' := by
  by_cases hj : j = i
  · subst hj
    rw [Function.update_self] at h
    exact .inl ⟨rfl, h⟩
  · rw [Function.update_of_ne hj] at h
    exact .inr ⟨hj, h⟩

/-- A worker's program point after it has changed to one that holds nothing. -/
theorem holds_of_update {w : Fin N → WorkerPc} {i j : Fin N} {pc : WorkerPc} {x : ℕ}
    (hpc : ∀ x, pc ≠ .recordSignalProcessed x)
    (h : Function.update w i pc j = .recordSignalProcessed x) :
    j ≠ i ∧ w j = .recordSignalProcessed x := by
  obtain ⟨-, h⟩ | h := update_eq_or h
  · exact absurd h (hpc x)
  · exact h

theorem counted_move (h : Move C s a s') (hs : Counted s) : Counted s' := by
  obtain ⟨hprod, hpos, hproc, hle, hnd, hout, hheld, halone⟩ := hs
  cases h with
  | push hpc _ hm =>
    refine ⟨?_, fun _ => Nat.succ_pos _, hm.chain hproc, Nat.le_succ_of_le hle, hnd, hout, hheld,
      halone⟩
    rw [if_pos hpc] at hprod
    exact hm.chain hprod
  | recordSignalProduced hpc hm =>
    have hlast := hpos (by rw [hpc]; intro h; cases h)
    rw [if_neg (by rw [hpc]; intro h; cases h)] at hprod
    obtain ⟨-, hchain⟩ := hprod.fetch hm
    rw [Nat.sub_add_cancel hlast] at hchain
    exact ⟨hchain, fun h => absurd rfl h, hproc.keep hm (fun h => by cases h), hle, hnd, hout,
      hheld, halone⟩
  | @waitAndPop i _ hpc hitem hm =>
    refine ⟨hm.chain hprod, hpos, hm.chain hproc, hitem, hnd, ?_, ?_, ?_⟩
    · intro x hx
      exact ⟨(hout x hx).1, (hout x hx).2.trans (Nat.le_succ _)⟩
    · intro j x hj
      obtain ⟨rfl, h⟩ | ⟨hji, hj⟩ := update_eq_or hj
      · cases h
        refine ⟨Nat.succ_pos _, le_rfl, fun hmem => ?_, Function.update_self ..⟩
        exact absurd (hout _ hmem).2 (Nat.not_succ_le_self _)
      · obtain ⟨h0, hx, hnot, hlast⟩ := hheld j x hj
        exact ⟨h0, hx.trans (Nat.le_succ _), hnot, (Function.update_of_ne hji ..).trans hlast⟩
    · -- the popped signal is newer than any that is held
      have hnew : ∀ j x, s.workers j = .recordSignalProcessed x →
          WorkerPc.recordSignalProcessed (s.popped + 1) ≠ .recordSignalProcessed x := by
        intro j x hw h
        cases h
        exact absurd (hheld j _ hw).2.1 (Nat.not_succ_le_self _)
      intro j l x hj hl
      obtain ⟨rfl, hj'⟩ | ⟨-, hj'⟩ := update_eq_or hj
      · obtain ⟨rfl, -⟩ | ⟨-, hl'⟩ := update_eq_or hl
        · rfl
        · exact absurd hj' (hnew l x hl')
      · obtain ⟨-, hl'⟩ | ⟨-, hl'⟩ := update_eq_or hl
        · exact absurd hl' (hnew j x hj')
        · exact halone j l x hj' hl'
  | @recordSignalProcessed i x _ _ hpc hm =>
    obtain ⟨h0, hx, hnot, -⟩ := hheld i x hpc
    obtain ⟨-, hchain⟩ := hproc.fetch hm
    have hidle : ∀ y, WorkerPc.waitAndPop ≠ .recordSignalProcessed y := fun y h => by cases h
    refine ⟨hprod.keep hm (fun h => by cases h), hpos, ?_, hle, ?_, ?_, ?_, ?_⟩
    · rw [List.length_append]
      exact hchain
    · exact List.nodup_append.mpr ⟨hnd, List.nodup_singleton x, fun y hy z hz hyz => by
        obtain rfl := List.mem_singleton.mp hz
        exact hnot (hyz ▸ hy)⟩
    · intro y hy
      obtain hy | hy := List.mem_append.mp hy
      · exact hout y hy
      · obtain rfl := List.mem_singleton.mp hy
        exact ⟨h0, hx⟩
    · intro j y hj
      obtain ⟨hji, hj'⟩ := holds_of_update hidle hj
      obtain ⟨hy0, hy, hynot, hylast⟩ := hheld j y hj'
      refine ⟨hy0, hy, fun hmem => ?_, hylast⟩
      obtain hmem | hmem := List.mem_append.mp hmem
      · exact hynot hmem
      · obtain rfl := List.mem_singleton.mp hmem
        exact hji (halone j i y hj' hpc)
    · intro j l y hj hl
      exact halone j l y (holds_of_update hidle hj).2 (holds_of_update hidle hl).2
  | @die i =>
    have hdead : ∀ y, WorkerPc.dead ≠ .recordSignalProcessed y := fun y h => by cases h
    exact ⟨hprod, hpos, hproc, hle, hnd, hout,
      fun j y hj => hheld j y (holds_of_update hdead hj).2,
      fun j l y hj hl => halone j l y (holds_of_update hdead hj).2 (holds_of_update hdead hl).2⟩
  | read _ hm =>
    exact ⟨hprod.keep hm (fun h => by cases h), hpos, hproc.keep hm (fun h => by cases h), hle, hnd,
      hout, hheld, halone⟩
  | sync hm => exact ⟨hm.chain hprod, hpos, hm.chain hproc, hle, hnd, hout, hheld, halone⟩

/-- `x` is among the first `k` of `l`. -/
def Among (l : List ℕ) (k x : ℕ) : Prop := ∃ j < k, l[j]? = some x

theorem Among.mono {l : List ℕ} {k k' x : ℕ} (h : Among l k x) (hk : k ≤ k') : Among l k' x := by
  obtain ⟨j, hj, hx⟩ := h
  exact ⟨j, by omega, hx⟩

theorem Among.append {l : List ℕ} {k x : ℕ} (h : Among l k x) (y : ℕ) : Among (l ++ [y]) k x := by
  obtain ⟨j, hj, hx⟩ := h
  have hlt : j < l.length := (List.getElem?_eq_some_iff.mp hx).1
  exact ⟨j, hj, by rw [List.getElem?_append_left hlt]; exact hx⟩

theorem among_append {l : List ℕ} {k x y : ℕ} (h : Among (l ++ [y]) k x) :
    Among l k x ∨ l.length < k ∧ x = y := by
  obtain ⟨j, hj, hx⟩ := h
  by_cases hlt : j < l.length
  · rw [List.getElem?_append_left hlt] at hx
    exact .inl ⟨j, hj, hx⟩
  · rw [List.getElem?_append_right (by omega), List.getElem?_singleton] at hx
    split at hx
    · cases hx
      exact .inr ⟨by omega, rfl⟩
    · cases hx

theorem among_iff {l : List ℕ} {k x : ℕ} : Among l k x ↔ x ∈ l.take k := by
  rw [List.mem_iff_getElem?]
  refine ⟨fun ⟨j, hj, hx⟩ => ⟨j, ?_⟩, fun ⟨j, hx⟩ => ⟨j, ?_, ?_⟩⟩
  · rw [List.getElem?_take_of_lt hj]
    exact hx
  · by_contra hj
    rw [List.getElem?_take_eq_none (by omega)] at hx
    cases hx
  · by_cases hj : j < k
    · rwa [List.getElem?_take_of_lt hj] at hx
    · rw [List.getElem?_take_eq_none (by omega)] at hx
      cases hx

/-- `k` different positive numbers are not all below `k`. -/
theorem le_of_among {l : List ℕ} {k b : ℕ} (hnd : l.Nodup) (hk : k ≤ l.length)
    (hpos : ∀ x ∈ l, 0 < x) (hb : ∀ x, Among l k x → x ≤ b) : k ≤ b := by
  have hsub : (l.take k).toFinset ⊆ Finset.Icc 1 b := by
    intro x hx
    rw [List.mem_toFinset] at hx
    exact Finset.mem_Icc.mpr ⟨hpos x (List.mem_of_mem_take hx), hb x (among_iff.mpr hx)⟩
  have hcard := Finset.card_le_card hsub
  rw [List.toFinset_card_of_nodup (hnd.sublist (List.take_sublist k l)), List.length_take,
    Nat.card_Icc] at hcard
  omega

/-- Numbers up to `b` that are all among the first `k`, but for one for each worker. -/
theorem le_add_of_among {l : List ℕ} {k b : ℕ} {last : Fin N → Option ℕ}
    (h : ∀ x, 0 < x → x ≤ b → Among l k x ∨ ∃ i, last i = some x) : b ≤ k + N := by
  have hsub : Finset.Icc 1 b ⊆ (l.take k).toFinset ∪
      Finset.univ.image fun i => (last i).getD 0 := by
    intro x hx
    obtain ⟨h1, hb⟩ := Finset.mem_Icc.mp hx
    refine Finset.mem_union.mpr ?_
    obtain hx | ⟨i, hi⟩ := h x h1 hb
    · exact .inl (List.mem_toFinset.mpr (among_iff.mp hx))
    · exact .inr (Finset.mem_image.mpr ⟨i, Finset.mem_univ i, by rw [hi]; rfl⟩)
  have htake : (l.take k).toFinset.card ≤ k :=
    (List.toFinset_card_le _).trans (List.length_take_le k l)
  have himage : (Finset.univ.image fun i => (last i).getD 0).card ≤ N :=
    Finset.card_image_le.trans_eq (Finset.card_fin N)
  have hcard := (Finset.card_le_card hsub).trans (Finset.card_union_le _ _)
  rw [Nat.card_Icc] at hcard
  omega

theorem chain_place {m : Memory N} {c : Counter} {n k : ℕ} (hc : m.Chain c increment 0 n)
    {msg : Message Counter UInt64} (hmsg : m.memory c k = some msg) :
    msg.value = UInt64.ofNat k ∧ k ≤ n := by
  obtain ⟨hk, hval⟩ := hc.value hmsg
  exact ⟨hval.trans (increment_iterate k), hk⟩

/-- The message a read-modify-write adds at the end of a chain. -/
theorem fetch_message {m m' : Memory N} {c : Counter} {p : Party N} {n k l : ℕ}
    (hc : m.Chain c increment 0 n) (h : m.Effect p (.fetch c increment k) m')
    {msg : Message Counter UInt64} (hmsg : m'.memory c l = some msg) :
    l ≤ n ∧ m.memory c l = some msg ∨
      l = n + 1 ∧ m.views p ≤ msg.view ∧ ∃ old, m.memory c n = some old ∧ old.view ≤ msg.view := by
  obtain ⟨rfl, hnext⟩ := hc.fetch h
  by_cases hl : l = k + 1
  · subst hl
    refine .inr ⟨rfl, ?_⟩
    cases h with
    | fetch hmem hle =>
      rw [Machine.write_self] at hmsg
      cases hmsg
      exact ⟨le_sup_of_le_left (Machine.le_update_view (Nat.le_succ_of_le hle)), _, hmem,
        le_sup_right⟩
  · have hle : l ≤ k := by
      by_contra hlt
      rw [hnext.free l (by omega)] at hmsg
      cases hmsg
    refine .inl ⟨hle, ?_⟩
    cases h with
    | fetch => rwa [Machine.write_of_ne _ _ hl] at hmsg

/-! ## Processed signals carry their production -/

/-- Whoever has heard of a processed signal has heard of the production of all before it. -/
structure Forward (s : State N) : Prop where
  producer : s.producer = .push → s.pushed ≤ s.memory.views .producer .signalsProduced
  mutex : s.pushed ≤ s.memory.views .inputMutex .signalsProduced + 1
  worker : ∀ i x, s.workers i = .recordSignalProcessed x →
    x ≤ s.memory.views (.worker i) .signalsProduced + 1
  message : ∀ k msg, s.memory.memory .signalsProcessed k = some msg →
    ∀ x, Among s.processed k x → x ≤ msg.view .signalsProduced + 1

theorem forward_initial : Forward (initial N) where
  producer := fun _ => Nat.zero_le _
  mutex := Nat.zero_le _
  worker := fun _ _ h => by cases h
  message := by
    rintro k msg - x ⟨j, -, hx⟩
    cases hx

theorem Forward.grown (hs : Forward s) {m : Memory N} (h : Grown s.memory m) :
    Forward { s with memory := m } where
  producer := fun hpc => (hs.producer hpc).trans (h.views _ _)
  mutex := hs.mutex.trans (Nat.add_le_add_right (h.views _ _) 1)
  worker := fun i x hi => (hs.worker i x hi).trans (Nat.add_le_add_right (h.views _ _) 1)
  message := by
    intro k msg hmsg
    rw [h.memory] at hmsg
    exact hs.message k msg hmsg

theorem forward_move (h : Move C s a s') (hc : Counted s) (hs : Forward s) : Forward s' := by
  cases h with
  | push hpc _ hm =>
    obtain ⟨-, hmutex, hworker, hmessage⟩ := hs.grown hm.toGrown
    refine ⟨fun h => (by cases h), ?_, hworker, hmessage⟩
    have hknown := ((hs.producer hpc).trans (hm.views _ _)).trans (hm.left _)
    exact Nat.add_le_add_right hknown 1
  | @recordSignalProduced k m hpc hm =>
    have hpos := hc.pushed_pos (by rw [hpc]; intro h; cases h)
    have hchain := hc.produced
    rw [if_neg (by rw [hpc]; intro h; cases h)] at hchain
    obtain ⟨rfl, -⟩ := hchain.fetch hm
    have hview := hm.views_le
    refine ⟨fun _ => ?_, ?_, ?_, ?_⟩
    · have hself : s.pushed - 1 + 1 ≤ m.views .producer .signalsProduced := by
        cases hm with
        | fetch => simp
      dsimp only
      omega
    · exact hs.mutex.trans (Nat.add_le_add_right (hview _ _) 1)
    · intro i x hi
      exact (hs.worker i x hi).trans (Nat.add_le_add_right (hview _ _) 1)
    · intro k msg hmsg
      rw [hm.memory_eq fun h => by cases h] at hmsg
      exact hs.message k msg hmsg
  | @waitAndPop i _ hpc hitem hm =>
    obtain ⟨hproducer, hmutex, hworker, hmessage⟩ := hs.grown hm.toGrown
    refine ⟨hproducer, hmutex, ?_, hmessage⟩
    intro j x hj
    obtain ⟨rfl, hx⟩ | ⟨-, hj'⟩ := update_eq_or hj
    · cases hx
      have hknown := hs.mutex.trans (Nat.add_le_add_right (hm.taken _) 1)
      exact (Nat.succ_le_of_lt hitem).trans hknown
    · exact hworker j x hj'
  | @recordSignalProcessed i x k m hpc hm =>
    have hview := hm.views_le
    refine ⟨fun h => (hs.producer h).trans (hview _ _),
      hs.mutex.trans (Nat.add_le_add_right (hview _ _) 1), ?_, ?_⟩
    · intro j y hj
      have hj' := (holds_of_update (fun y h => by cases h) hj).2
      exact (hs.worker j y hj').trans (Nat.add_le_add_right (hview _ _) 1)
    · intro l msg hmsg y hy
      obtain ⟨hl, hold⟩ | ⟨rfl, hown, old, hold, hle⟩ := fetch_message hc.processed hm hmsg
      · obtain hy | ⟨hlt, -⟩ := among_append hy
        · exact hs.message l msg hold y hy
        · omega
      · -- the message passes on what the one before it carried, and adds what its thread knows
        obtain hy | ⟨-, rfl⟩ := among_append hy
        · have hfirst : Among s.processed s.processed.length y := by
            obtain ⟨j, -, hj⟩ := hy
            exact ⟨j, (List.getElem?_eq_some_iff.mp hj).1, hj⟩
          exact (hs.message _ old hold y hfirst).trans (Nat.add_le_add_right (hle _) 1)
        · exact (hs.worker i y hpc).trans (Nat.add_le_add_right (hown _) 1)
  | @die i =>
    refine ⟨hs.producer, hs.mutex, fun j y hj => ?_, hs.message⟩
    exact hs.worker j y (holds_of_update (fun y h => by cases h) hj).2
  | read _ hm =>
    obtain ⟨hproducer, hmutex, hworker, hmessage⟩ := hs.grown (grown_of_effect hm rfl)
    exact ⟨hproducer, hmutex, hworker, hmessage⟩
  | sync hm => exact hs.grown hm

/-- A message of the processed counter carries all productions but one. -/
theorem Forward.place_le (hs : Forward s) (hc : Counted s) {k : ℕ} {msg : Message Counter UInt64}
    (hmsg : s.memory.memory .signalsProcessed k = some msg) :
    k ≤ msg.view .signalsProduced + 1 := by
  have hk : k ≤ s.processed.length := by
    by_contra hlt
    rw [hc.processed.free k (by omega)] at hmsg
    cases hmsg
  exact le_of_among hc.nodup hk (fun x hx => (hc.out x hx).1) (hs.message k msg hmsg)

/-! ## Produced signals carry the processing before them -/

/-- Whoever has heard of a produced signal has heard of the processing of all signals that had to
leave the queue for it, but for one for each worker. -/
structure Backward (C : ℕ) (s : State N) : Prop where
  idle : ∀ i y, s.workers i = .waitAndPop → s.last i = some y →
    Among s.processed (s.memory.views (.worker i) .signalsProcessed) y
  mutex : ∀ x, 0 < x → x ≤ s.popped →
    Among s.processed (s.memory.views .inputMutex .signalsProcessed) x ∨ ∃ i, s.last i = some x
  producer : s.pushed ≤ s.memory.views .producer .signalsProcessed + C + N
  message : ∀ k msg, s.memory.memory .signalsProduced k = some msg →
    k ≤ msg.view .signalsProcessed + C + N

theorem backward_initial : Backward C (initial N) where
  idle := fun _ _ _ h => by cases h
  mutex := fun x h0 hx => absurd h0 (Nat.not_lt.mpr hx)
  producer := Nat.zero_le _
  message := by
    intro k msg hmsg
    obtain ⟨rfl, -⟩ := Option.ite_none_right_eq_some.mp hmsg
    exact Nat.zero_le _

theorem Backward.grown (hs : Backward C s) {m : Memory N} (h : Grown s.memory m) :
    Backward C { s with memory := m } where
  idle := fun i y hi hy => (hs.idle i y hi hy).mono (h.views _ _)
  mutex := fun x h0 hx => (hs.mutex x h0 hx).imp_left fun h' => h'.mono (h.views _ _)
  producer := by
    have hview : s.memory.views .producer .signalsProcessed ≤
      m.views .producer .signalsProcessed := h.views _ _
    have hold := hs.producer
    dsimp only
    omega
  message := by
    intro k msg hmsg
    rw [h.memory] at hmsg
    exact hs.message k msg hmsg

theorem backward_move (h : Move C s a s') (hc : Counted s) (hs : Backward C s) :
    Backward C s' := by
  cases h with
  | @push m hpc hroom hm =>
    obtain ⟨hidle, hmutex, -, hmessage⟩ := hs.grown hm.toGrown
    refine ⟨hidle, hmutex, ?_, hmessage⟩
    have hpopped : s.popped ≤ s.memory.views .inputMutex .signalsProcessed + N :=
      le_add_of_among hs.mutex
    have htaken : s.memory.views .inputMutex .signalsProcessed ≤
      m.views .producer .signalsProcessed := hm.taken _
    dsimp only
    omega
  | @recordSignalProduced k m hpc hm =>
    have hpos := hc.pushed_pos (by rw [hpc]; intro h; cases h)
    have hchain := hc.produced
    rw [if_neg (by rw [hpc]; intro h; cases h)] at hchain
    have hview := hm.views_le
    refine ⟨fun i y hi hy => (hs.idle i y hi hy).mono (hview _ _),
      fun x h0 hx => (hs.mutex x h0 hx).imp_left fun h' => h'.mono (hview _ _), ?_, ?_⟩
    · have hown : s.memory.views .producer .signalsProcessed ≤
        m.views .producer .signalsProcessed := hview _ _
      have hold := hs.producer
      dsimp only
      omega
    · intro l msg hmsg
      obtain ⟨-, hold⟩ | ⟨rfl, hown, -⟩ := fetch_message hchain hm hmsg
      · exact hs.message l msg hold
      · have hknown : s.memory.views .producer .signalsProcessed ≤ msg.view .signalsProcessed :=
          hown _
        have hold := hs.producer
        omega
  | @waitAndPop i m hpc hitem hm =>
    obtain ⟨hidle, hmutex, hproducer, hmessage⟩ := hs.grown hm.toGrown
    refine ⟨?_, ?_, hproducer, hmessage⟩
    · intro j y hj hy
      obtain ⟨-, hx⟩ | ⟨hji, hj'⟩ := update_eq_or hj
      · cases hx
      · exact hidle j y hj' ((Function.update_of_ne hji ..).symm.trans hy)
    · intro x h0 hx
      obtain hlt | rfl := Nat.lt_or_eq_of_le hx
      · obtain hx' | ⟨j, hj⟩ := hmutex x h0 (Nat.le_of_lt_succ hlt)
        · exact .inl hx'
        · by_cases hji : j = i
          · -- the worker had counted its last signal, and leaves this with the mutex
            subst hji
            exact .inl ((hidle j x hpc hj).mono (hm.left _))
          · exact .inr ⟨j, (Function.update_of_ne hji ..).trans hj⟩
      · exact .inr ⟨i, Function.update_self ..⟩
  | @recordSignalProcessed i x k m hpc hm =>
    have hview := hm.views_le
    obtain ⟨rfl, -⟩ := hc.processed.fetch hm
    refine ⟨?_, ?_, ?_, ?_⟩
    · intro j y hj hy
      obtain ⟨rfl, -⟩ | ⟨-, hj'⟩ := update_eq_or hj
      · have hlast := (hc.held j x hpc).2.2.2
        rw [show s.last j = some y from hy] at hlast
        cases hlast
        refine ⟨s.processed.length, ?_, by simp⟩
        cases hm with
        | fetch => simp
      · exact ((hs.idle j y hj' hy).mono (hview _ _)).append x
    · intro y h0 hy
      exact (hs.mutex y h0 hy).imp_left fun h' => (h'.mono (hview _ _)).append x
    · have hown : s.memory.views .producer .signalsProcessed ≤
        m.views .producer .signalsProcessed := hview _ _
      have hold := hs.producer
      dsimp only
      omega
    · intro l msg hmsg
      rw [hm.memory_eq fun h => by cases h] at hmsg
      exact hs.message l msg hmsg
  | @die i =>
    refine ⟨fun j y hj hy => ?_, hs.mutex, hs.producer, hs.message⟩
    obtain ⟨-, hx⟩ | ⟨-, hj'⟩ := update_eq_or hj
    · cases hx
    · exact hs.idle j y hj' hy
  | read _ hm =>
    obtain ⟨hidle, hmutex, hproducer, hmessage⟩ := hs.grown (grown_of_effect hm rfl)
    exact ⟨hidle, hmutex, hproducer, hmessage⟩
  | sync hm => exact hs.grown hm

/-! ## Readers -/

/-- What a reader of one counter has heard of the other. -/
def Reading.Heard (C : ℕ) (m : Memory N) (r : Reading) : Prop :=
  match r.counter with
  | .signalsProcessed => r.place ≤ m.views (.reader r.reader) .signalsProduced + 1
  | .signalsProduced => r.place ≤ m.views (.reader r.reader) .signalsProcessed + C + N
  | _ => True

/-- Two readings of one reader, `r` before `r'`: what was processed had been produced, but for the
signal a worker may have overtaken the producer with, and what was produced had been processed, but
for the queue and one signal for each worker. -/
def Reading.Bounded (C N : ℕ) (r r' : Reading) : Prop :=
  r.reader = r'.reader →
    (r.counter = .signalsProcessed → r'.counter = .signalsProduced → r.place ≤ r'.place + 1) ∧
    (r.counter = .signalsProduced → r'.counter = .signalsProcessed → r.place ≤ r'.place + C + N)

/-- The counters a value of which is read here. -/
def Reading.Counts (r : Reading) : Prop :=
  r.counter = .signalsProduced ∨ r.counter = .signalsProcessed → r.value = UInt64.ofNat r.place

structure Read (C : ℕ) (s : State N) : Prop where
  counts : ∀ r ∈ s.readings, r.Counts
  heard : ∀ r ∈ s.readings, r.Heard C s.memory
  bounded : s.readings.Pairwise (Reading.Bounded C N)

theorem Reading.Heard.mono {m m' : Memory N} {r : Reading} (h : r.Heard C m)
    (hview : ∀ p, m.views p ≤ m'.views p) : r.Heard C m' := by
  have hreader : ∀ c, m.views (.reader r.reader) c ≤ m'.views (.reader r.reader) c := hview _
  unfold Reading.Heard at h ⊢
  split at h
  · have := hreader .signalsProduced
    omega
  · have := hreader .signalsProcessed
    omega
  · trivial

theorem Read.grown (hr : Read C s) (hview : ∀ p, s.memory.views p ≤ s'.memory.views p)
    (hlog : s'.readings = s.readings) : Read C s' := by
  refine ⟨by rw [hlog]; exact hr.counts, ?_, by rw [hlog]; exact hr.bounded⟩
  rw [hlog]
  exact fun r hmem => (hr.heard r hmem).mono hview

theorem Read.read (hr : Read C s) (hc : Counted s) (hf : Forward s) (hb : Backward C s) {j k : ℕ}
    {c : Counter} {m : Memory N} {msg : Message Counter UInt64}
    (hmsg : s.memory.memory c k = some msg) (h : s.memory.Effect (.reader j) (.load c k) m) :
    Read C { s with memory := m, readings := s.readings ++ [⟨j, c, msg.value, k⟩] } := by
  have hload : s.memory.views (.reader j) c ≤ k := by
    cases h with
    | load _ hle => exact hle
  have htaken : ∀ c, msg.view c ≤ m.views (.reader j) c := h.load_view hmsg
  refine ⟨fun r hmem => ?_, fun r hmem => ?_, ?_⟩
  · obtain hmem | hmem := List.mem_append.mp hmem
    · exact hr.counts r hmem
    · obtain rfl := List.mem_singleton.mp hmem
      rintro (rfl | rfl)
      · exact (chain_place hc.produced hmsg).1
      · exact (chain_place hc.processed hmsg).1
  · obtain hmem | hmem := List.mem_append.mp hmem
    · exact (hr.heard r hmem).mono h.views_le
    · obtain rfl := List.mem_singleton.mp hmem
      cases c with
      | signalsProduced =>
        have := hb.message k msg hmsg
        have := htaken .signalsProcessed
        show k ≤ m.views (.reader j) .signalsProcessed + C + N
        omega
      | signalsProcessed =>
        have := hf.place_le hc hmsg
        have := htaken .signalsProduced
        show k ≤ m.views (.reader j) .signalsProduced + 1
        omega
      | _ => trivial
  · refine List.pairwise_append.mpr ⟨hr.bounded, List.pairwise_singleton _ _, ?_⟩
    intro r hmem r' hmem' hj
    obtain rfl := List.mem_singleton.mp hmem'
    -- the second reading starts from what the first has made known
    have hheard := hr.heard r hmem
    have hj : r.reader = j := hj
    subst hj
    refine ⟨fun h₁ h₂ => ?_, fun h₁ h₂ => ?_⟩
    · have h₂ : c = .signalsProduced := h₂
      subst h₂
      rw [Reading.Heard, h₁] at hheard
      exact hheard.trans (Nat.add_le_add_right hload 1)
    · have h₂ : c = .signalsProcessed := h₂
      subst h₂
      rw [Reading.Heard, h₁] at hheard
      have hheard : r.place ≤ s.memory.views (.reader r.reader) .signalsProcessed + C + N := hheard
      dsimp only
      omega

theorem read_move (h : Move C s a s') (hc : Counted s) (hf : Forward s) (hb : Backward C s)
    (hr : Read C s) : Read C s' := by
  cases h with
  | push _ _ hm | waitAndPop _ _ hm => exact hr.grown hm.views rfl
  | sync hm => exact hr.grown hm.views rfl
  | recordSignalProduced _ hm | recordSignalProcessed _ hm => exact hr.grown hm.views_le rfl
  | die => exact ⟨hr.counts, hr.heard, hr.bounded⟩
  | read hmsg hm => exact hr.read hc hf hb hmsg hm

/-- Every processed signal has been pushed, and is counted once. -/
theorem Counted.processed_le (hc : Counted s) : s.processed.length ≤ s.pushed := by
  have hsub : s.processed.toFinset ⊆ Finset.Icc 1 s.popped := by
    intro x hx
    obtain ⟨hpos, hle⟩ := hc.out x (List.mem_toFinset.mp hx)
    exact Finset.mem_Icc.mpr ⟨hpos, hle⟩
  have hcard := Finset.card_le_card hsub
  rw [List.toFinset_card_of_nodup hc.nodup, Nat.card_Icc] at hcard
  have := hc.popped_le
  omega

/-- No reading is of an increment that has not been made. -/
def Reading.Made (pushed : ℕ) (r : Reading) : Prop :=
  r.counter = .signalsProduced ∨ r.counter = .signalsProcessed → r.place ≤ pushed

theorem made_move (h : Move C s a s') (hc : Counted s) (hr : ∀ r ∈ s.readings, r.Made s.pushed) :
    ∀ r ∈ s'.readings, r.Made s'.pushed := by
  cases h with
  | push => exact fun r hmem hcounter => (hr r hmem hcounter).trans (Nat.le_succ _)
  | @read j c k m msg hmsg =>
    intro r hmem
    obtain hmem | hmem := List.mem_append.mp hmem
    · exact hr r hmem
    · obtain rfl := List.mem_singleton.mp hmem
      rintro (rfl | rfl)
      · have hplace := (chain_place hc.produced hmsg).2
        show k ≤ s.pushed
        split at hplace <;> omega
      · exact (chain_place hc.processed hmsg).2.trans hc.processed_le
  | _ => exact hr

/-- The bounds between the two counters hold for readers that take no lock, in whatever order they
load the counters. They are bounds on the numbers of increments that the loaded values stand for,
and on the values themselves as long as the counters have not wrapped. -/
theorem weak_backlog_bounded {as : List (Action N)}
    (h : Lts.run (step C) (initial N) as = some s) :
    (∀ r ∈ s.readings, r.Counts) ∧ s.readings.Pairwise (Reading.Bounded C N) ∧
      (s.pushed < 2 ^ 64 → ∀ r ∈ s.readings,
        r.counter = .signalsProduced ∨ r.counter = .signalsProcessed →
          r.value.toNat = r.place) := by
  have hinv := Lts.run_invariant
    (I := fun s => Counted s ∧ Forward s ∧ Backward C s ∧ Read C s ∧
      ∀ r ∈ s.readings, r.Made s.pushed) ?_ h
    ⟨counted_initial, forward_initial, backward_initial,
      ⟨fun _ h => (by cases h), fun _ h => (by cases h), .nil⟩, fun _ h => by cases h⟩
  · obtain ⟨-, -, -, hread, hmade⟩ := hinv
    refine ⟨hread.counts, hread.bounded, fun hsmall r hmem hcounter => ?_⟩
    rw [hread.counts r hmem hcounter]
    exact UInt64.toNat_ofNat_of_lt' ((hmade r hmem hcounter).trans_lt hsmall)
  · intro s a s' hs ⟨hc, hf, hb, hr, hmade⟩
    have hm := step_move hs
    exact ⟨counted_move hm hc, forward_move hm hc hf, backward_move hm hc hb,
      read_move hm hc hf hb hr, made_move hm hc hmade⟩

/-- A worker counts a signal the producer has not counted yet, and a reader sees it. -/
def overtaken : List (Action 1) :=
  let worker : Fin 1 := ⟨0, Nat.one_pos⟩
  [.push, .recordSignalProduced 0, .push, .waitAndPop worker, .recordSignalProcessed worker 0,
    .waitAndPop worker, .recordSignalProcessed worker 1, .read 0 .signalsProcessed 2,
    .read 0 .signalsProduced 1]

theorem weak_backlog_bounded_overtaken : ∃ s, Lts.run (step 2) (initial 1) overtaken = some s ∧
    s.readings.map Reading.value = [2, 1] ∧ (∀ r ∈ s.readings, r.Counts) ∧
      s.readings.Pairwise (Reading.Bounded 2 1) ∧
      (s.pushed < 2 ^ 64 → ∀ r ∈ s.readings,
        r.counter = .signalsProduced ∨ r.counter = .signalsProcessed →
          r.value.toNat = r.place) := by
  obtain ⟨s, hrun, hval⟩ := Lts.exists_run (step 2) (initial 1) overtaken
    (fun s => s.readings.map Reading.value = [2, 1]) (by decide +kernel)
  exact ⟨s, hrun, hval, weak_backlog_bounded hrun⟩

end RadarRT.WeakBacklog
