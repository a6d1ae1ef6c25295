import RadarRT.System.Backlog
import RadarRT.System.LogFormat

/-!
# The end of the log is complete

The output queue is `DropOldest`: when the logger falls behind, records are lost. What is lost is
old, though. A record is evicted only from the front of a full buffer, so a whole capacity of newer
records has been accepted by then. Hence the records a reader of the log needs most after an
incident, the last ones before the drain, are never among the evicted.
-/

namespace RadarRT

variable {F : Type} {N : ℕ} {env : Env F} {beat : ℕ} {o : Outside F} {sh sh' : Shared F}

/-! ## The queue evicts old items only -/

namespace Ledger

variable {α : Type}

/-- The item in place `i` among those accepted was evicted only after the item `capacity - 1 + d`
places behind it was accepted. -/
def EvictsOld (l : Ledger α) (d : ℕ) : Prop :=
  ∀ i x, l.removed[i]? = some (x, .evicted) → i + l.queue.capacity + d ≤ l.accepted.length

theorem length_accepted (l : Ledger α) :
    l.accepted.length = l.removed.length + l.queue.queue.length := by
  rw [l.conserved, List.length_append, List.length_map]

/-- A full buffer, and one item that leaves it. -/
theorem evictedNow_getElem? {q : ThreadSafeQueue α} {i : ℕ} {p : α × Departure}
    (h : (evictedNow q)[i]? = some p) :
    i = 0 ∧ q.evicts = true ∧ q.capacity ≤ q.queue.length := by
  cases hev : q.evicts with
  | false =>
    rw [evictedNow_of_not hev] at h
    simp at h
  | true =>
    obtain ⟨x, rest, hq⟩ := ThreadSafeQueue.exists_front_of_evicts hev
    rw [evictedNow_cons hev hq] at h
    have hlt := (List.getElem?_eq_some_iff.mp h).1
    rw [List.length_singleton] at hlt
    simp only [ThreadSafeQueue.evicts, ThreadSafeQueue.full, Bool.and_eq_true,
      decide_eq_true_eq] at hev
    exact ⟨by omega, rfl, hev.1.2⟩

/-- A push that evicts and does not throw has accepted its item. -/
theorem returnedTrue_of_evicts {l : Ledger α} {v : α} {f b : Bool} (hev : l.queue.evicts = true)
    (h : (l.enqueue v f).1 = .ok b) : Except.returnedTrue (l.enqueue v f).1 = true := by
  have hret : (l.enqueue v f).1 = (l.queue.evict.store v f l.queue.evict_lt).1 :=
    congrArg Prod.fst (ThreadSafeQueue.enqueueLocked_evicts hev v f)
  rw [hret] at h ⊢
  cases f with
  | false => rfl
  | true => cases h

theorem EvictsOld.enqueue {l : Ledger α} {d : ℕ} (h : l.EvictsOld d) (v : α) (f : Bool)
    (hd : d = 0 ∨ d = 1 ∧ ∃ b, (l.enqueue v f).1 = .ok b) : (l.enqueue v f).2.EvictsOld d := by
  have hcap := (l.enqueue_alike v f).capacity
  have hacc : (l.enqueue v f).2.accepted.length =
      l.accepted.length + if Except.returnedTrue (l.enqueue v f).1 then 1 else 0 := by
    unfold Ledger.enqueue
    dsimp only
    split <;> simp
  intro i x hi
  have hrem : (l.enqueue v f).2.removed = l.removed ++ evictedNow l.queue := rfl
  rw [hrem] at hi
  by_cases hlt : i < l.removed.length
  · -- evicted earlier
    rw [List.getElem?_append_left hlt] at hi
    have := h i x hi
    omega
  · -- evicted for `v`, so the buffer was full
    rw [List.getElem?_append_right (by omega)] at hi
    obtain ⟨hzero, hev, hfull⟩ := evictedNow_getElem? hi
    have hlen := l.length_accepted
    rcases hd with rfl | ⟨rfl, b, hb⟩
    · omega
    · rw [returnedTrue_of_evicts hev hb, if_pos rfl] at hacc
      omega

theorem EvictsOld.tryPop {l : Ledger α} {d : ℕ} (h : l.EvictsOld d) : l.tryPop.2.EvictsOld d := by
  have hcap := l.tryPop_alike.capacity
  intro i x hi
  have hrem : l.tryPop.2.removed =
      l.removed ++ l.queue.tryPop.1.toList.map (·, Departure.popped) := rfl
  have hacc : l.tryPop.2.accepted = l.accepted := rfl
  rw [hrem] at hi
  rw [hcap, hacc]
  by_cases hlt : i < l.removed.length
  · rw [List.getElem?_append_left hlt] at hi
    exact h i x hi
  · -- what has just left was popped
    rw [List.getElem?_append_right (by omega)] at hi
    obtain ⟨y, -, hy⟩ := List.mem_map.mp (List.mem_of_getElem? hi)
    cases hy

theorem departed_popped_of_all {r : List (α × Departure)} (h : ∀ p ∈ r, p.2 = .popped) :
    departed .popped r = r.map Prod.fst := by
  unfold departed
  rw [← List.filterMap_eq_map]
  exact List.filterMap_congr fun p hp => by simp [h p hp]

/-- The last `m` items to be accepted, or all if there are fewer. -/
def latest (l : Ledger α) (m : ℕ) : List α := l.accepted.drop (l.accepted.length - m)

/-- The last items to be accepted have all been popped or are still buffered. -/
theorem EvictsOld.latest {l : Ledger α} {d m : ℕ} (h : l.EvictsOld d)
    (hm : m < l.queue.capacity + d) : l.latest m <:+ l.popped ++ l.queue.queue := by
  unfold Ledger.latest
  generalize hj : l.accepted.length - m = j
  have hall : ∀ p ∈ l.removed.drop j, p.2 = .popped := by
    rintro ⟨x, e⟩ hp
    obtain ⟨i, hi⟩ := List.mem_iff_getElem?.mp hp
    rw [List.getElem?_drop] at hi
    cases e with
    | popped => rfl
    | evicted =>
      have := h (j + i) x hi
      omega
  have hpop : l.popped =
      departed .popped (l.removed.take j) ++ (l.removed.drop j).map Prod.fst := by
    rw [← departed_popped_of_all hall, ← departed_append, List.take_append_drop]
    rfl
  rw [l.conserved, hpop, List.append_assoc, List.drop_append, List.map_drop]
  refine List.IsSuffix.trans ?_ (List.suffix_append _ _)
  by_cases hle : j ≤ (l.removed.map Prod.fst).length
  · rw [Nat.sub_eq_zero_of_le hle, List.drop_zero]
  · -- the buffer alone is longer
    rw [List.drop_eq_nil_of_le (by omega)]
    exact List.drop_suffix _ _

theorem EvictsOld.push {l q : Ledger α} {d : ℕ} (h : l.EvictsOld d) {v : α} {f : Bool}
    {r : Except QueueError Bool} (hp : l.push v f = some (r, q))
    (hd : d = 0 ∨ d = 1 ∧ ∃ b, r = .ok b) : q.EvictsOld d := by
  obtain ⟨rfl, rfl⟩ := push_result hp
  exact h.enqueue v f hd

theorem EvictsOld.waitAndPop {l q : Ledger α} {d : ℕ} (h : l.EvictsOld d) {r : Option α}
    (hp : l.waitAndPop = some (r, q)) : q.EvictsOld d := by
  have hq : q = l.tryPop.2 := congrArg Prod.snd (waitAndPop_some hp).2
  rw [hq]
  exact h.tryPop

end Ledger

/-! ## So does the output queue of the application -/

theorem WorkerMove.evictsOld {pc pc' : WorkerPc F} (h : WorkerMove env beat o sh pc sh' pc')
    {d : ℕ} (hd : d = 0 ∨ d = 1 ∧ pc'.threw = false) (hs : sh.output.EvictsOld d) :
    sh'.output.EvictsOld d := by
  cases h with
  | pushed hp => exact hs.push hp (hd.imp_right fun h => ⟨h.1, _, rfl⟩)
  | pushThrew _ hp =>
    rcases hd with hzero | ⟨-, hthrew⟩
    · exact hs.push hp (.inl hzero)
    · cases hthrew
  | _ => exact hs

theorem WatchdogMove.evictsOld {pc pc' : WatchdogPc} (h : WatchdogMove env o sh pc sh' pc')
    {d : ℕ} (hd : d = 0 ∨ d = 1 ∧ pc'.threw = false) (hs : sh.output.EvictsOld d) :
    sh'.output.EvictsOld d := by
  cases h with
  | pushed hp => exact hs.push hp (hd.imp_right fun h => ⟨h.1, _, rfl⟩)
  | pushThrew _ hp =>
    rcases hd with hzero | ⟨-, hthrew⟩
    · exact hs.push hp (.inl hzero)
    · cases hthrew
  | _ => exact hs

theorem LoggerMove.evictsOld {pc pc' : LoggerPc F} (h : LoggerMove env beat o sh pc sh' pc')
    {d : ℕ} (hs : sh.output.EvictsOld d) : sh'.output.EvictsOld d := by
  cases h with
  | ended hp | took hp => exact hs.waitAndPop hp
  | _ => exact hs

/-- In a run without an exception nothing is evicted for a record that is then not stored. -/
theorem evictsOld_move {s s' : State F N} {a : Action F N} (h : Move env s a s') {d : ℕ}
    (hd : d = 0 ∨ d = 1 ∧ s'.Calm) (hs : s.shared.output.EvictsOld d) :
    s'.shared.output.EvictsOld d := by
  cases h with
  | main hm => cases hm <;> exact hs
  | producer hm =>
    rw [hm.output_eq.1]
    exact hs
  | @worker i o sh pc hm =>
    exact hm.evictsOld (hd.imp_right fun h => ⟨h.1, by simpa using h.2.workers i⟩) hs
  | logger hm => exact hm.evictsOld hs
  | watchdog hm => exact hm.evictsOld (hd.imp_right fun h => ⟨h.1, h.2.watchdog⟩) hs

theorem outputCapacity_move {s s' : State F N} {a : Action F N} (h : Move env s a s') :
    s'.shared.output.queue.capacity = s.shared.output.queue.capacity := by
  cases h with
  | main hm => cases hm <;> rfl
  | producer hm => exact hm.extends.output.capacity
  | worker hm => exact hm.extends.output.capacity
  | logger hm => exact hm.extends.output.capacity
  | watchdog hm => exact hm.extends.output.capacity

/-- The output queue keeps the capacity it was configured with. -/
theorem Reachable.outputCapacity {s : State F N} (h : Reachable env s) :
    s.shared.output.queue.capacity = env.config.outputCapacity :=
  h.invariant (I := fun s => s.shared.output.queue.capacity = env.config.outputCapacity)
    (fun _ => rfl) fun _ _ _ hm hI => (outputCapacity_move hm).trans hI

theorem Reachable.evictsOld {s : State F N} (h : Reachable env s) :
    s.shared.output.EvictsOld 0 ∧ (s.Calm → s.shared.output.EvictsOld 1) := by
  refine ⟨?_, ?_⟩
  · exact h.invariant (I := fun s => s.shared.output.EvictsOld 0)
      (fun _ _ _ hi => by simp [initial, Ledger.opened] at hi)
      fun _ _ _ hm => evictsOld_move hm (.inl rfl)
  · exact h.calm_invariant (I := fun s => s.shared.output.EvictsOld 1)
      (fun _ _ _ hi => by simp [initial, Ledger.opened] at hi)
      fun _ _ _ hm _ hc => evictsOld_move hm (.inr ⟨rfl, hc⟩)

/-! ## What the logger leaves behind -/

/-- Once the logger has seen the end of the stream the output queue stays empty. -/
def Emptied (s : State F N) : Prop :=
  s.logger.drained = true → s.shared.output.queue.closed = true ∧ s.shared.output.queue.queue = []

theorem WorkerMove.output_of_closed {pc pc' : WorkerPc F}
    (h : WorkerMove env beat o sh pc sh' pc') (hc : sh.output.queue.closed = true) :
    sh'.output.queue = sh.output.queue := by
  cases h with
  | pushed hp | pushThrew _ hp => exact (Ledger.push_of_closed hc hp).2
  | _ => rfl

theorem WatchdogMove.output_of_closed {pc pc' : WatchdogPc}
    (h : WatchdogMove env o sh pc sh' pc') (hc : sh.output.queue.closed = true) :
    sh'.output.queue = sh.output.queue := by
  cases h with
  | pushed hp | pushThrew _ hp => exact (Ledger.push_of_closed hc hp).2
  | _ => rfl

theorem emptied_move {s s' : State F N} {a : Action F N} (h : Move env s a s')
    (hs : Emptied s) : Emptied s' := by
  intro hd
  cases h with
  | main hm =>
    cases hm with
    | startLogger => cases hd
    | closeOutput => exact ⟨rfl, (hs hd).2⟩
    | _ => exact hs hd
  | producer hm =>
    rw [hm.output_eq.1]
    exact hs hd
  | worker hm =>
    rw [hm.output_of_closed (hs hd).1]
    exact hs hd
  | logger hm =>
    rcases hm.output.drained hd with ⟨hd', heq⟩ | hempty
    · rw [heq]
      exact hs hd'
    · exact hempty
  | watchdog hm =>
    rw [hm.output_of_closed (hs hd).1]
    exact hs hd

/-- The last records to be accepted are never lost to an eviction. In every reachable state the
last `outputCapacity - 1` of them, and without an exception the last `outputCapacity`, have been
popped by the logger or are still buffered; once the logger has finished, whatever happened to
the other threads, their lines are the end of every sink. -/
theorem newest_records_survive {s : State F N} (h : Reachable env s) :
    s.shared.output.latest (env.config.outputCapacity - 1) <:+
      s.shared.output.popped ++ s.shared.output.queue.queue ∧
    (s.Calm → s.shared.output.latest env.config.outputCapacity <:+
      s.shared.output.popped ++ s.shared.output.queue.queue) ∧
    (s.logger = .finished false → ∀ k < env.sinkCount,
      linesOf env (s.shared.output.latest (env.config.outputCapacity - 1)) <:+
        writtenLines (s.shared.sinks k) ∧
      (s.Calm → linesOf env (s.shared.output.latest env.config.outputCapacity) <:+
        writtenLines (s.shared.sinks k))) := by
  obtain ⟨hold, hcalm⟩ := h.evictsOld
  have hcap := h.outputCapacity
  have hpos := env.outputCapacity_pos
  have hsome : s.shared.output.latest (env.config.outputCapacity - 1) <:+
      s.shared.output.popped ++ s.shared.output.queue.queue := hold.latest (by omega)
  have hall : s.Calm → s.shared.output.latest env.config.outputCapacity <:+
      s.shared.output.popped ++ s.shared.output.queue.queue :=
    fun hc => (hcalm hc).latest (by omega)
  refine ⟨hsome, hall, ?_⟩
  intro hl k hk
  obtain ⟨n, -, hlines, hn⟩ := h.given_all hk
  have hempty : Emptied s := h.invariant (fun _ hd => by cases hd) fun _ _ _ => emptied_move
  have hnil := (hempty (by rw [hl]; rfl)).2
  rw [hnil, List.append_nil] at hsome hall
  rw [hlines, List.take_of_length_le (hn hl)]
  exact ⟨hsome.map _, fun hc => (hall hc).map _⟩

/-- An output queue with room for one record. -/
def narrow : Env ℕ := silentEnv { outputCapacity := 1 } (Nat.succ_pos 255) Nat.one_pos

/-- Two records, the first evicted for the second while the logger was away: the second is on the
sink. -/
theorem newest_records_survive_evicted :
    ∃ s : State ℕ 1, Reachable narrow s ∧ s.shared.output.accepted.length = 2 ∧
      s.shared.output.queue.dropped = 1 ∧ (s.shared.output.latest 1).length = 1 ∧
      linesOf narrow (s.shared.output.latest 1) <:+ writtenLines (s.shared.sinks 0) := by
  obtain ⟨s, hrun, hdrained, hjoined, hacc, hdrop, hcp, hcw, hcl, hcd⟩ := Lts.exists_run
    (step narrow) (initial narrow 1 0)
    (plainly 5 0 .main ++ plainly 13 0 .producer ++ [elapsing .producer] ++
      plainly 12 1000000 .producer ++ plainly 31 1000000 (.worker 0) ++
      plainly 6 1000000 .main ++ plainly 1 1000000 .producer ++ plainly 2 1000000 (.worker 0) ++
      plainly 4 1000000 .main ++ plainly 15 1000000 .logger)
    (fun s => s.logger.drained = true ∧ s.logger.joined = true ∧
      s.shared.output.accepted.length = 2 ∧ s.shared.output.queue.dropped = 1 ∧
      s.producer.threw = false ∧ (∀ i, (s.workers i).threw = false) ∧ s.logger.threw = false ∧
      s.watchdog.threw = false)
    (by decide +kernel)
  have hl := LoggerPc.finished_of_drained hjoined hdrained
  have hreach := reachable_of_run hrun
  obtain ⟨-, -, hsinks⟩ := newest_records_survive hreach
  refine ⟨s, hreach, hacc, hdrop, ?_, (hsinks hl 0 Nat.one_pos).2 ⟨hcp, hcw, hcl, hcd⟩⟩
  simp [Ledger.latest, hacc]

end RadarRT
