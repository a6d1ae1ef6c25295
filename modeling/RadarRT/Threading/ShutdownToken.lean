import Mathlib.Data.List.Induction
import Mathlib.Logic.Function.Basic
import RadarRT.Lib.Lts

/-!
# `ShutdownToken` as a monitor

The token with its mutex, its condition variable and its atomic flag, shared by any number of
threads that call `requestShutdown`, `waitFor` and `shutdownRequested`, in any interleaving and
any number of times.

The condition variable is a wait set: the threads asleep on it. `wait_for` with a predicate is the
loop of the standard: evaluate the predicate under the lock; if it is false, release the lock and
sleep in one step; when woken, by a notification, spuriously or because the time is up, take the
lock again and evaluate the predicate again; if the time is up, that evaluation is the result.
`requestShutdown` stores the flag under the lock and notifies after the unlock, which are separate
steps; `shutdownRequested` is a load without the lock.
-/

namespace RadarRT.ShutdownToken

/-- What brought a waiting thread to the lock. -/
inductive Wake where
  /-- The call of `waitFor`. -/
  | entry
  /-- A notification, or nothing at all. -/
  | woken
  /-- The time is up. -/
  | expired
deriving DecidableEq, Repr

/-- Where a thread is. -/
inductive Pc where
  | idle
  | requestLocking
  /-- Holds the lock, before `requested_.store(true)`. -/
  | requestStore
  | requestUnlock
  /-- Before `cv_.notify_all()`. -/
  | notifyAll
  | waitLocking (wake : Wake)
  /-- Holds the lock and evaluates the predicate. -/
  | waitCheck (wake : Wake)
  /-- Found the flag unset, and is about to release the lock and sleep. -/
  | waitBlock
  /-- In the wait set, not notified. -/
  | asleep
  /-- Has the result and still holds the lock. -/
  | waitUnlock (result : Bool)
  /-- `waitFor` has returned. -/
  | returned (result : Bool)
  /-- `shutdownRequested` has returned. -/
  | observed (result : Bool)
deriving DecidableEq, Repr

/-- The kinds of steps: the three calls, taking the lock, the next statement, the two ways to
wake without a notification, and being done with a result. -/
inductive Kind where
  | requestShutdown
  | waitFor
  | shutdownRequested
  | acquire
  | next
  | spurious
  | timeout
  | leave
deriving DecidableEq, Repr

structure State (ι : Type) where
  requested : Bool
  mutex : Option ι
  threads : ι → Pc

variable {ι : Type}

/-- Nobody has called anything yet. -/
def initial : State ι := ⟨false, none, fun _ => .idle⟩

/-- What `notify_all` does to a thread. -/
def Pc.wake : Pc → Pc
  | .asleep => .waitLocking .woken
  | pc => pc

/-- The result of the predicate for a thread that evaluates it. -/
def Pc.checked (requested : Bool) (wake : Wake) : Pc :=
  if requested then .waitUnlock true
  else if wake = .expired then .waitUnlock false else .waitBlock

/-- A step of the thread `t`, on the flag, the mutex and its own program point. -/
def own (t : ι) (requested : Bool) (mutex : Option ι) : Kind → Pc → Option (Bool × Option ι × Pc)
  | .requestShutdown, .idle => some (requested, mutex, .requestLocking)
  | .waitFor, .idle => some (requested, mutex, .waitLocking .entry)
  | .shutdownRequested, .idle => some (requested, mutex, .observed requested)
  | .acquire, .requestLocking =>
    if mutex.isNone then some (requested, some t, .requestStore) else none
  | .acquire, .waitLocking wake =>
    if mutex.isNone then some (requested, some t, .waitCheck wake) else none
  | .next, .requestStore => some (true, mutex, .requestUnlock)
  | .next, .requestUnlock => some (requested, none, .notifyAll)
  | .next, .waitCheck wake => some (requested, mutex, .checked requested wake)
  | .next, .waitBlock => some (requested, none, .asleep)
  | .next, .waitUnlock result => some (requested, none, .returned result)
  | .spurious, .asleep => some (requested, mutex, .waitLocking .woken)
  -- the clock is read after the thread was woken
  | .timeout, .asleep => some (requested, mutex, .waitLocking .expired)
  | .timeout, .waitLocking .woken => some (requested, mutex, .waitLocking .expired)
  | .leave, .returned _ => some (requested, mutex, .idle)
  | .leave, .observed _ => some (requested, mutex, .idle)
  | _, _ => none

section
variable [DecidableEq ι]

/-- A step of the system: `notify_all` concerns every thread, all others only their own. -/
def step (s : State ι) (e : ι × Kind) : Option (State ι) :=
  if e.2 = .next ∧ s.threads e.1 = .notifyAll then
    some { s with threads := Function.update (fun u => (s.threads u).wake) e.1 .idle }
  else
    (own e.1 s.requested s.mutex e.2 (s.threads e.1)).map fun r =>
      ⟨r.1, r.2.1, Function.update s.threads e.1 r.2.2⟩

end

/-! ## What a step can do -/

/-- The steps of one thread, one constructor per kind and program point. -/
inductive Own (t : ι) (r : Bool) (m : Option ι) :
    Kind → Pc → Bool → Option ι → Pc → Prop where
  | requestShutdown : Own t r m .requestShutdown .idle r m .requestLocking
  | waitFor : Own t r m .waitFor .idle r m (.waitLocking .entry)
  | shutdownRequested : Own t r m .shutdownRequested .idle r m (.observed r)
  | lockRequest (hm : m = none) : Own t r m .acquire .requestLocking r (some t) .requestStore
  | lockWait (w : Wake) (hm : m = none) :
      Own t r m .acquire (.waitLocking w) r (some t) (.waitCheck w)
  | store : Own t r m .next .requestStore true m .requestUnlock
  | unlock : Own t r m .next .requestUnlock r none .notifyAll
  | checkSet (w : Wake) (hr : r = true) : Own t r m .next (.waitCheck w) r m (.waitUnlock true)
  | checkExpired (hr : r = false) : Own t r m .next (.waitCheck .expired) r m (.waitUnlock false)
  | checkUnset (w : Wake) (hr : r = false) (hw : w ≠ .expired) :
      Own t r m .next (.waitCheck w) r m .waitBlock
  | block : Own t r m .next .waitBlock r none .asleep
  | unlockWait (b : Bool) : Own t r m .next (.waitUnlock b) r none (.returned b)
  | spurious : Own t r m .spurious .asleep r m (.waitLocking .woken)
  | timeout (pc : Pc) (hpc : pc = .asleep ∨ pc = .waitLocking .woken) :
      Own t r m .timeout pc r m (.waitLocking .expired)
  | leave (pc : Pc) (b : Bool) (hpc : pc = .returned b ∨ pc = .observed b) :
      Own t r m .leave pc r m .idle

theorem own_cases {t : ι} {r r' : Bool} {m m' : Option ι} {k : Kind} {pc pc' : Pc}
    (h : own t r m k pc = some (r', m', pc')) : Own t r m k pc r' m' pc' := by
  unfold own at h
  split at h
  · cases h; exact .requestShutdown
  · cases h; exact .waitFor
  · cases h; exact .shutdownRequested
  · obtain ⟨hm, ⟨⟩⟩ := Option.ite_none_right_eq_some.mp h
    exact .lockRequest (Option.isNone_iff_eq_none.mp hm)
  · obtain ⟨hm, ⟨⟩⟩ := Option.ite_none_right_eq_some.mp h
    exact .lockWait _ (Option.isNone_iff_eq_none.mp hm)
  · cases h; exact .store
  · cases h; exact .unlock
  · next w =>
    cases h
    unfold Pc.checked
    cases r with
    | true => exact .checkSet w rfl
    | false =>
      cases w with
      | expired => exact .checkExpired rfl
      | entry => exact .checkUnset .entry rfl (by decide)
      | woken => exact .checkUnset .woken rfl (by decide)
  · cases h; exact .block
  · cases h; exact .unlockWait _
  · cases h; exact .spurious
  · cases h; exact .timeout _ (.inl rfl)
  · cases h; exact .timeout _ (.inr rfl)
  · cases h; exact .leave _ _ (.inl rfl)
  · cases h; exact .leave _ _ (.inr rfl)
  · cases h

/-! ## The invariant -/

/-- Program points at which the thread holds the mutex. -/
def Pc.holds : Pc → Bool
  | .requestStore | .requestUnlock | .waitCheck _ | .waitBlock | .waitUnlock _ => true
  | _ => false

/-- The flag is stored and `notify_all` is still to come. -/
def Pc.owesNotify : Pc → Bool
  | .requestUnlock | .notifyAll => true
  | _ => false

/-- The flag was seen set. -/
def Pc.sawRequest : Pc → Bool
  | .waitUnlock b | .returned b | .observed b => b
  | _ => false

structure Safe (s : State ι) : Prop where
  holds : ∀ t, (s.threads t).holds = true → s.mutex = some t
  /-- The flag cannot be set between the check of a waiter and its sleep. -/
  block : ∀ t, s.threads t = .waitBlock → s.requested = false
  pending : s.requested = true → ∀ t, s.threads t = .asleep → ∃ u, (s.threads u).owesNotify = true
  saw : ∀ t, (s.threads t).sawRequest = true → s.requested = true

theorem safe_initial : Safe (initial : State ι) := by
  refine ⟨?_, ?_, ?_, ?_⟩
  · intro t h
    cases h
  · intro t h
    cases h
  · intro h
    cases h
  · intro t h
    cases h

/-- What a step of a thread does to the mutex and the flag, and to its own duties. -/
structure Own.Effect (t : ι) (r : Bool) (m : Option ι) (pc : Pc) (r' : Bool) (m' : Option ι)
    (pc' : Pc) : Prop where
  mutex : m' = m ∨ (m = none ∧ m' = some t) ∨ (pc.holds = true ∧ m' = none)
  holds : (pc.holds = true → m = some t) → pc'.holds = true → m' = some t
  flag : r' = r ∨ (pc = .requestStore ∧ r' = true ∧ pc'.owesNotify = true)
  block : pc' = .waitBlock → r' = false
  asleep : pc' = .asleep → pc = .waitBlock ∧ r' = r
  owes : pc.owesNotify = true → pc'.owesNotify = true
  saw : (pc.sawRequest = true → r = true) → pc'.sawRequest = true → r' = true

theorem Own.effect {t : ι} {r r' : Bool} {m m' : Option ι} {k : Kind} {pc pc' : Pc}
    (h : Own t r m k pc r' m' pc') : Own.Effect t r m pc r' m' pc' := by
  cases h with
  | timeout _ hpc =>
    rcases hpc with rfl | rfl <;>
      constructor <;> simp [Pc.holds, Pc.owesNotify, Pc.sawRequest]
  | leave _ b hpc =>
    rcases hpc with rfl | rfl <;>
      constructor <;> simp [Pc.holds, Pc.owesNotify, Pc.sawRequest]
  | _ => constructor <;> simp_all [Pc.holds, Pc.owesNotify, Pc.sawRequest]

/-- A thread that holds the mutex keeps it while another one moves. -/
theorem Safe.mutex_kept {s : State ι} (hs : Safe s) {t u : ι} {r : Bool} {m : Option ι} {pc : Pc}
    (heff : Own.Effect t s.requested s.mutex (s.threads t) r m pc) (hut : u ≠ t)
    (hu : (s.threads u).holds = true) : m = some u ∧ s.threads t ≠ .requestStore := by
  have hmu := hs.holds u hu
  have hnot : ¬ (s.threads t).holds = true := by
    intro ht
    rw [hs.holds t ht] at hmu
    exact hut (Option.some.inj hmu).symm
  refine ⟨?_, ?_⟩
  · rcases heff.mutex with hm | ⟨hm, -⟩ | ⟨hpc, -⟩
    · exact hm.trans hmu
    · rw [hm] at hmu
      cases hmu
    · exact absurd hpc hnot
  · intro hstore
    rw [hstore] at hnot
    exact hnot rfl

theorem wake_ne_asleep (pc : Pc) : pc.wake ≠ .asleep := by
  cases pc <;> simp [Pc.wake]

/-- Only a thread that was asleep is concerned by a notification. -/
theorem wake_of_ne {pc : Pc} (h : pc ≠ .asleep) : pc.wake = pc := by
  cases pc <;> first | rfl | exact absurd rfl h

variable [DecidableEq ι]

theorem step_cases {s s' : State ι} {t : ι} {k : Kind} (h : step s (t, k) = some s') :
    (∃ r m pc, Own t s.requested s.mutex k (s.threads t) r m pc ∧
      s' = ⟨r, m, Function.update s.threads t pc⟩) ∨
    (k = .next ∧ s.threads t = .notifyAll ∧
      s' = { s with threads := Function.update (fun u => (s.threads u).wake) t .idle }) := by
  unfold step at h
  split at h
  · next hn =>
    cases h
    exact .inr ⟨hn.1, hn.2, rfl⟩
  · obtain ⟨⟨r, m, pc⟩, hown, rfl⟩ := Option.map_eq_some_iff.mp h
    exact .inl ⟨r, m, pc, own_cases hown, rfl⟩

theorem safe_own {s : State ι} {t : ι} {r : Bool} {m : Option ι} {pc : Pc}
    (heff : Own.Effect t s.requested s.mutex (s.threads t) r m pc) (hs : Safe s) :
    Safe ⟨r, m, Function.update s.threads t pc⟩ := by
  refine ⟨?_, ?_, ?_, ?_⟩
  · refine (Function.forall_update_iff s.threads fun u pc => pc.holds = true → m = some u).mpr
      ⟨heff.holds (hs.holds t), ?_⟩
    intro u hut hu
    exact (hs.mutex_kept heff hut hu).1
  · refine (Function.forall_update_iff s.threads fun _ pc => pc = .waitBlock → r = false).mpr
      ⟨heff.block, ?_⟩
    intro u hut hu
    rcases heff.flag with hr | ⟨hstore, -, -⟩
    · exact hr.trans (hs.block u hu)
    · -- the store needs the mutex, which the blocking thread holds
      exact absurd hstore (hs.mutex_kept heff hut (by rw [hu]; rfl)).2
  · intro hr
    refine (Function.forall_update_iff s.threads fun _ pc' => pc' = .asleep →
      ∃ u, (Function.update s.threads t pc u).owesNotify = true).mpr ⟨?_, ?_⟩
    · -- a thread that falls asleep saw the flag unset, and nobody set it since
      intro hpc
      obtain ⟨hblock, hsame⟩ := heff.asleep hpc
      have hunset := hs.block t hblock
      rw [← hsame, show r = true from hr] at hunset
      cases hunset
    · intro u _ hu
      rcases heff.flag with hsame | ⟨-, -, howes⟩
      · obtain ⟨v, hv⟩ := hs.pending (hsame.symm.trans hr) u hu
        by_cases hvt : v = t
        · subst hvt
          exact ⟨v, by rw [Function.update_self]; exact heff.owes hv⟩
        · exact ⟨v, by rw [Function.update_of_ne hvt, hv]⟩
      · exact ⟨t, by rw [Function.update_self, howes]⟩
  · refine (Function.forall_update_iff s.threads fun _ pc => pc.sawRequest = true → r = true).mpr
      ⟨heff.saw (hs.saw t), ?_⟩
    intro u _ hu
    rcases heff.flag with hsame | ⟨-, hset, -⟩
    · exact hsame.trans (hs.saw u hu)
    · exact hset

theorem safe_notify {s : State ι} {t : ι} (hs : Safe s) :
    Safe { s with threads := Function.update (fun u => (s.threads u).wake) t .idle } := by
  refine ⟨?_, ?_, ?_, ?_⟩
  · refine (Function.forall_update_iff _ fun u (pc : Pc) => pc.holds = true → s.mutex = some u).mpr
      ⟨by simp [Pc.holds], ?_⟩
    intro u _ hu
    refine hs.holds u ?_
    cases hpc : s.threads u <;> simp_all [Pc.wake, Pc.holds]
  · refine (Function.forall_update_iff _ fun _ (pc : Pc) => pc = .waitBlock → s.requested = false).mpr
      ⟨by simp, ?_⟩
    intro u _ hu
    refine hs.block u ?_
    cases hpc : s.threads u <;> simp_all [Pc.wake]
  · -- nobody is left asleep
    intro _ u hu
    by_cases hut : u = t
    · subst hut
      simp only [Function.update_self] at hu
      cases hu
    · simp only [Function.update_of_ne hut] at hu
      exact absurd hu (wake_ne_asleep _)
  · refine (Function.forall_update_iff _ fun _ (pc : Pc) => pc.sawRequest = true →
      s.requested = true).mpr ⟨by simp [Pc.sawRequest], ?_⟩
    intro u _ hu
    refine hs.saw u ?_
    cases hpc : s.threads u <;> simp_all [Pc.wake, Pc.sawRequest]

theorem safe_step {s s' : State ι} {e : ι × Kind} (h : step s e = some s') (hs : Safe s) :
    Safe s' := by
  rcases step_cases h with ⟨r, m, pc, hown, rfl⟩ | ⟨-, -, rfl⟩
  · exact safe_own hown.effect hs
  · exact safe_notify hs

theorem safe_of_reaches {s : State ι} (h : Lts.Reaches step initial s) : Safe s :=
  h.invariant (fun _ _ _ => safe_step) safe_initial

/-! ## The flag stays set -/

theorem requested_step {s s' : State ι} {e : ι × Kind} (h : step s e = some s')
    (hs : s.requested = true) : s'.requested = true := by
  rcases step_cases h with ⟨r, m, pc, hown, rfl⟩ | ⟨-, -, rfl⟩
  · rcases hown.effect.flag with hr | ⟨-, hr, -⟩
    · exact hr.trans hs
    · exact hr
  · exact hs

/-! ## The result of `waitFor` -/

/-- The predicate has been evaluated for the last time, with the value `b`. -/
def Pc.Decided (b : Bool) (pc : Pc) : Prop := pc = .waitUnlock b ∨ pc = .returned b

omit [DecidableEq ι] in
theorem Own.decided {t : ι} {r r' : Bool} {m m' : Option ι} {k : Kind} {pc pc' : Pc} {b : Bool}
    (h : Own t r m k pc r' m' pc') (hb : pc'.Decided b) :
    pc.Decided b ∨ (k = .next ∧ ∃ w, pc = .waitCheck w ∧ r = b) := by
  cases h with
  | checkSet w hr =>
    rcases hb with hb | hb
    · cases hb
      exact .inr ⟨rfl, w, rfl, hr⟩
    · cases hb
  | checkExpired hr =>
    rcases hb with hb | hb
    · cases hb
      exact .inr ⟨rfl, .expired, rfl, hr⟩
    · cases hb
  | unlockWait b' =>
    rcases hb with hb | hb
    · cases hb
    · cases hb
      exact .inl (.inl rfl)
  | _ => rcases hb with hb | hb <;> cases hb

/-- A result comes from a check, or was there before. -/
theorem decided_step {s s' : State ι} {t u : ι} {k : Kind} {b : Bool}
    (h : step s (u, k) = some s') (hb : (s'.threads t).Decided b) :
    (s.threads t).Decided b ∨
      (u = t ∧ k = .next ∧ ∃ w, s.threads t = .waitCheck w ∧ s.requested = b) := by
  rcases step_cases h with ⟨r, m, pc, hown, rfl⟩ | ⟨-, -, rfl⟩
  · by_cases htu : t = u
    · subst htu
      simp only [Function.update_self] at hb
      rcases hown.decided hb with hold | ⟨hk, hcheck⟩
      · exact .inl hold
      · exact .inr ⟨rfl, hk, hcheck⟩
    · simp only [Function.update_of_ne htu] at hb
      exact .inl hb
  · by_cases htu : t = u
    · subst htu
      simp only [Function.update_self] at hb
      rcases hb with hb | hb <;> cases hb
    · simp only [Function.update_of_ne htu] at hb
      refine .inl ?_
      cases hpc : s.threads t <;> simp_all [Pc.wake, Pc.Decided]

/-- Every result goes back to one evaluation of the predicate in the run, under the lock, after
which the thread evaluates it no more. -/
theorem final_check {s : State ι} {as : List (ι × Kind)} {t : ι} {b : Bool}
    (h : Lts.run step initial as = some s) (hb : (s.threads t).Decided b) :
    ∃ bs cs u v w, as = bs ++ (t, .next) :: cs ∧ Lts.run step initial bs = some u ∧
      u.threads t = .waitCheck w ∧ u.mutex = some t ∧ u.requested = b ∧
      step u (t, .next) = some v ∧ Lts.run step v cs = some s ∧
      Lts.Along step (fun s _ => (s.threads t).Decided b) v cs := by
  induction as using List.reverseRecOn generalizing s with
  | nil =>
    cases h
    rcases hb with hb | hb <;> cases hb
  | append_singleton as e ih =>
    obtain ⟨s₀, h₀, he⟩ := Lts.run_concat.mp h
    obtain ⟨u, k⟩ := e
    rcases decided_step he hb with hold | ⟨rfl, rfl, w, hcheck, hflag⟩
    · -- decided before this step: the same check, one step further back
      obtain ⟨bs, cs, u₀, v₀, w, rfl, hbs, hw, hm, hr, hv, hcs, halong⟩ := ih h₀ hold
      refine ⟨bs, cs ++ [(u, k)], u₀, v₀, w, by simp, hbs, hw, hm, hr, hv, ?_, ?_⟩
      · exact Lts.run_concat.mpr ⟨s₀, hcs, he⟩
      · exact halong.concat hcs hold
    · -- this step is the check
      refine ⟨as, [], s₀, s, w, rfl, h₀, hcheck, ?_, hflag, he, rfl, trivial⟩
      exact (safe_of_reaches ⟨as, h₀⟩).holds _ (by rw [hcheck]; rfl)

/-! ## After the flag was set -/

/-- Under the lock with the flag set: on the way to the result `true`. -/
structure Returning (t : ι) (w : Wake) (s : State ι) : Prop where
  requested : s.requested = true
  pc : s.threads t = .waitCheck w ∨ (s.threads t).Decided true

theorem returning_step {s s' : State ι} {t : ι} {w : Wake} {e : ι × Kind}
    (h : step s e = some s') (he : e ≠ (t, .leave)) (hs : Returning t w s) :
    Returning t w s' := by
  refine ⟨requested_step h hs.requested, ?_⟩
  obtain ⟨u, k⟩ := e
  rcases step_cases h with ⟨r, m, pc, hown, rfl⟩ | ⟨-, hn, rfl⟩
  · by_cases htu : t = u
    · subst htu
      simp only [Function.update_self]
      have hset := hs.requested
      rcases hs.pc with hpc | hpc | hpc
      · rw [hpc, hset] at hown
        cases hown with
        | checkSet _ _ => exact .inr (.inl rfl)
        | checkUnset _ hr _ => cases hr
        | checkExpired hr => cases hr
        | timeout _ hpc => rcases hpc with hpc | hpc <;> cases hpc
        | leave _ b hpc => rcases hpc with hpc | hpc <;> cases hpc
      · rw [hpc] at hown
        cases hown with
        | unlockWait _ => exact .inr (.inr rfl)
        | timeout _ hpc => rcases hpc with hpc | hpc <;> cases hpc
        | leave _ b hpc => rcases hpc with hpc | hpc <;> cases hpc
      · rw [hpc] at hown
        cases hown with
        | timeout _ hpc => rcases hpc with hpc | hpc <;> cases hpc
        | leave _ b _ => exact absurd rfl he
    · simp only [Function.update_of_ne htu]
      exact hs.pc
  · -- a notification does not concern a thread that is not asleep
    have htu : t ≠ u := by
      rintro rfl
      rcases hs.pc with hpc | hpc | hpc <;> rw [hpc] at hn <;> cases hn
    have hawake : s.threads t ≠ .asleep := by
      rcases hs.pc with hpc | hpc | hpc <;> simp [hpc]
    simp only [Function.update_of_ne htu, wake_of_ne hawake]
    exact hs.pc

/-- From there the thread needs nobody else: at most two steps of its own. -/
theorem returning_finishes {s : State ι} {t : ι} {w : Wake} (hs : Returning t w s) :
    ∃ k ≤ 2, ∃ s', Lts.run step s (List.replicate k (t, .next)) = some s' ∧
      s'.threads t = .returned true := by
  have hset := hs.requested
  rcases hs.pc with hpc | hpc | hpc
  · refine ⟨2, Nat.le_refl 2, ?_⟩
    simp [Lts.run, List.replicate, step, own, hpc, hset, Pc.checked]
  · refine ⟨1, by decide, ?_⟩
    simp [Lts.run, List.replicate, step, own, hpc]
  · exact ⟨0, by decide, s, rfl, hpc⟩

/-- In every reachable state, for any number of threads: the flag stays set once it is set; a
thread asleep while the flag is set has a `notify_all` still coming; the result of every `waitFor`
is the flag at its last evaluation of the predicate, under the lock; and a `waitFor` that takes
the lock after the flag was set does not sleep and returns `true`, whatever its timeout. -/
theorem no_missed_shutdown {s : State ι} (h : Lts.Reaches step initial s) :
    (∀ s', Lts.Reaches step s s' → s.requested = true → s'.requested = true) ∧
    (∀ t, s.threads t = .asleep → s.requested = true →
      ∃ u, s.threads u = .requestUnlock ∨ s.threads u = .notifyAll) ∧
    (∀ as t b, Lts.run step initial as = some s → s.threads t = .returned b →
      ∃ bs cs u v w, as = bs ++ (t, .next) :: cs ∧ Lts.run step initial bs = some u ∧
        u.threads t = .waitCheck w ∧ u.mutex = some t ∧ u.requested = b ∧
        step u (t, .next) = some v ∧ Lts.run step v cs = some s ∧
        Lts.Along step (fun s _ => (s.threads t).Decided b) v cs) ∧
    (∀ t w s₁, s.threads t = .waitLocking w → s.requested = true →
      step s (t, .acquire) = some s₁ →
      ∀ as s₂, Lts.run step s₁ as = some s₂ → (t, .leave) ∉ as →
        (s₂.threads t = .waitCheck w ∨ (s₂.threads t).Decided true) ∧
        ∃ k ≤ 2, ∃ s₃, Lts.run step s₂ (List.replicate k (t, .next)) = some s₃ ∧
          s₃.threads t = .returned true) := by
  have hs := safe_of_reaches h
  refine ⟨?_, ?_, ?_, ?_⟩
  · intro s' hreach
    exact hreach.invariant (fun _ _ _ => requested_step)
  · intro t ht hr
    obtain ⟨u, hu⟩ := hs.pending hr t ht
    refine ⟨u, ?_⟩
    cases hpc : s.threads u <;> simp_all [Pc.owesNotify]
  · intro as t b hrun hb
    exact final_check hrun (.inr hb)
  · intro t w s₁ ht hr hlock as s₂ hrun hleave
    have hfirst : Returning t w s₁ := by
      refine ⟨requested_step hlock hr, .inl ?_⟩
      rcases step_cases hlock with ⟨r, m, pc, hown, rfl⟩ | ⟨hk, -, -⟩
      · rw [ht] at hown
        cases hown with
        | lockWait _ _ => exact Function.update_self t _ _
      · cases hk
    have hstays : ∀ e ∈ as, e ≠ (t, .leave) := by
      rintro e he rfl
      exact hleave he
    have hreturning : Returning t w s₂ := Lts.run_invariant_along
      (P := fun _ e => e ≠ (t, .leave)) (fun _ _ _ => returning_step) hrun
      (Lts.along_of_forall hstays s₁) hfirst
    exact ⟨hreturning.pc, returning_finishes hreturning⟩

/-- A waiter asleep, a requester that has stored the flag and not notified yet, and a second
waiter that is only now about to take the lock. -/
theorem no_missed_shutdown_three_threads :
    ∃ s : State (Fin 3), Lts.Reaches step initial s ∧ s.requested = true ∧
      s.threads 0 = .asleep ∧ s.threads 2 = .waitLocking .entry ∧
      ∃ u, s.threads u = .requestUnlock ∨ s.threads u = .notifyAll := by
  obtain ⟨s, hrun, hr, h0, h2⟩ := Lts.exists_run step (initial : State (Fin 3))
    [(0, .waitFor), (0, .acquire), (0, .next), (0, .next), (2, .waitFor), (1, .requestShutdown),
      (1, .acquire), (1, .next), (1, .next)]
    (fun s => s.requested = true ∧ s.threads 0 = .asleep ∧ s.threads 2 = .waitLocking .entry)
    (by decide)
  exact ⟨s, ⟨_, hrun⟩, hr, h0, h2, (no_missed_shutdown ⟨_, hrun⟩).2.1 0 h0 hr⟩

end RadarRT.ShutdownToken
