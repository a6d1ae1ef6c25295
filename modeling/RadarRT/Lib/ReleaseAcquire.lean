import Mathlib.Logic.Function.Iterate
import Mathlib.Order.Lattice
import Mathlib.Order.Lattice.Nat

/-!
# Release/acquire memory

A machine for programs whose stores are releases and whose loads are acquires. The memory keeps
every message ever stored, each location in its modification order. A thread has a view: for each
location, the first message it may still read. A store takes any free place after the view of its
thread and carries that view with it; a load reads any message that the view allows and takes over
the view the message carries; a read-modify-write takes the place right after the message it reads
(its read does not acquire, but its message passes on what that message carried). Whatever else
orders two threads (a mutex, starting and joining a thread) is `sync`, by which a thread takes over
any part of the view of another.

Loads may return old values and threads may disagree about the order of stores to different
locations. What remains is coherence (`Effect.views_le`) and publication (`Effect.load_view`).
-/

namespace RadarRT.ReleaseAcquire

variable {ι Λ : Type} {V : Λ → Type}

/-- For each location, the place in its modification order before which nothing is read. -/
abbrev View (Λ : Type) := Λ → ℕ

structure Message (Λ : Type) (α : Type) where
  value : α
  view : View Λ

structure Machine (ι Λ : Type) (V : Λ → Type) where
  memory : ∀ x, ℕ → Option (Message Λ (V x))
  views : ι → View Λ

/-- One access of a thread, with the place it takes or reads. -/
inductive Access (ι Λ : Type) (V : Λ → Type) where
  | load (x : Λ) (k : ℕ)
  | store (x : Λ) (v : V x) (k : ℕ)
  /-- A read-modify-write that reads place `k`. -/
  | fetch (x : Λ) (f : V x → V x) (k : ℕ)
  | sync (u : ι) (w : View Λ)

/-- The location an access writes. -/
def Access.target : Access ι Λ V → Option Λ
  | .store x _ _ | .fetch x _ _ => some x
  | .load _ _ | .sync _ _ => none

namespace Machine

/-- Every location holds its initial value, and everybody knows it. -/
def initial (init : ∀ x, V x) : Machine ι Λ V where
  memory := fun x k => if k = 0 then some ⟨init x, fun _ => 0⟩ else none
  views := fun _ _ => 0

section Views

variable [DecidableEq ι] {m : Machine ι Λ V} {t u : ι}

def setView (m : Machine ι Λ V) (t : ι) (w : View Λ) : Machine ι Λ V :=
  { m with views := Function.update m.views t w }

@[simp] theorem setView_memory (m : Machine ι Λ V) (t : ι) (w : View Λ) :
    (m.setView t w).memory = m.memory := rfl

@[simp] theorem setView_self (m : Machine ι Λ V) (t : ι) (w : View Λ) :
    (m.setView t w).views t = w := by
  simp [setView]

theorem setView_of_ne (m : Machine ι Λ V) (h : u ≠ t) (w : View Λ) :
    (m.setView t w).views u = m.views u := by
  simp [setView, h]

/-- What holds of the new view and of all old ones holds of all views. -/
theorem forall_setView {P : ι → View Λ → Prop} {w : View Λ} (hnew : P t w)
    (hold : ∀ u, P u (m.views u)) (u : ι) : P u ((m.setView t w).views u) := by
  by_cases hu : u = t
  · subst hu
    rwa [setView_self]
  · rw [setView_of_ne m hu]
    exact hold u

end Views

section Memory

variable [DecidableEq Λ] {m : Machine ι Λ V} {x y : Λ} {k l : ℕ}

def write (m : Machine ι Λ V) (x : Λ) (k : ℕ) (msg : Message Λ (V x)) : Machine ι Λ V :=
  { m with memory := Function.update m.memory x (Function.update (m.memory x) k (some msg)) }

@[simp] theorem write_views (m : Machine ι Λ V) (x : Λ) (k : ℕ) (msg : Message Λ (V x)) :
    (m.write x k msg).views = m.views := rfl

@[simp] theorem write_self (m : Machine ι Λ V) (x : Λ) (k : ℕ) (msg : Message Λ (V x)) :
    (m.write x k msg).memory x k = some msg := by
  simp [write]

theorem write_of_ne (m : Machine ι Λ V) (x : Λ) (h : l ≠ k) (msg : Message Λ (V x)) :
    (m.write x k msg).memory x l = m.memory x l := by
  simp [write, h]

theorem write_of_loc_ne (m : Machine ι Λ V) (h : y ≠ x) (k : ℕ) (msg : Message Λ (V x)) :
    (m.write x k msg).memory y = m.memory y := by
  simp [write, h]

/-- What holds of the new message and of all old ones holds of all messages. -/
theorem forall_write {P : ∀ y, ℕ → Message Λ (V y) → Prop} {msg : Message Λ (V x)}
    (hnew : P x k msg) (hold : ∀ y l msg', m.memory y l = some msg' → P y l msg') :
    ∀ y l msg', (m.write x k msg).memory y l = some msg' → P y l msg' := by
  intro y l msg' h
  by_cases hyx : y = x
  · subst hyx
    by_cases hl : l = k
    · subst hl
      rw [write_self] at h
      cases h
      exact hnew
    · rw [write_of_ne m y hl] at h
      exact hold y l msg' h
  · rw [write_of_loc_ne m hyx] at h
    exact hold y l msg' h

end Memory

/-! ## What an access does -/

variable [DecidableEq ι] [DecidableEq Λ]

/-- The machine after an access of `t`, if the places it names are possible. -/
def access (m : Machine ι Λ V) (t : ι) : Access ι Λ V → Option (Machine ι Λ V)
  | .load x k =>
    match m.memory x k with
    | some msg => if m.views t x ≤ k then some (m.setView t (m.views t ⊔ msg.view)) else none
    | none => none
  | .store x v k =>
    let w := Function.update (m.views t) x k
    if m.views t x < k ∧ (m.memory x k).isNone then some ((m.setView t w).write x k ⟨v, w⟩)
    else none
  | .fetch x f k =>
    let w := Function.update (m.views t) x (k + 1)
    match m.memory x k with
    | some msg =>
      if m.views t x ≤ k ∧ (m.memory x (k + 1)).isNone then
        some ((m.setView t w).write x (k + 1) ⟨f msg.value, w ⊔ msg.view⟩)
      else none
    | none => none
  | .sync u w => some (m.setView t (m.views t ⊔ (w ⊓ m.views u)))

/-- The effect of an access that is possible. -/
inductive Effect (m : Machine ι Λ V) (t : ι) : Access ι Λ V → Machine ι Λ V → Prop
  | load {x k msg} : m.memory x k = some msg → m.views t x ≤ k →
    Effect m t (.load x k) (m.setView t (m.views t ⊔ msg.view))
  | store {x v k} : m.views t x < k → m.memory x k = none →
    Effect m t (.store x v k) ((m.setView t (Function.update (m.views t) x k)).write x k
      ⟨v, Function.update (m.views t) x k⟩)
  | fetch {x f k msg} : m.memory x k = some msg → m.views t x ≤ k → m.memory x (k + 1) = none →
    Effect m t (.fetch x f k) ((m.setView t (Function.update (m.views t) x (k + 1))).write x (k + 1)
      ⟨f msg.value, Function.update (m.views t) x (k + 1) ⊔ msg.view⟩)
  | sync {u w} : Effect m t (.sync u w) (m.setView t (m.views t ⊔ (w ⊓ m.views u)))

variable {m m' : Machine ι Λ V} {t u : ι} {a : Access ι Λ V} {x y : Λ} {b k l : ℕ}

theorem access_effect (h : m.access t a = some m') : Effect m t a m' := by
  cases a with
  | load x k =>
    cases hmem : m.memory x k with
    | none => simp [access, hmem] at h
    | some msg =>
      simp only [access, hmem] at h
      obtain ⟨hle, ⟨⟩⟩ := Option.ite_none_right_eq_some.mp h
      exact .load hmem hle
  | store x v k =>
    obtain ⟨⟨hlt, hfree⟩, ⟨⟩⟩ := Option.ite_none_right_eq_some.mp h
    exact .store hlt (Option.isNone_iff_eq_none.mp hfree)
  | fetch x f k =>
    cases hmem : m.memory x k with
    | none => simp [access, hmem] at h
    | some msg =>
      simp only [access, hmem] at h
      obtain ⟨⟨hle, hfree⟩, ⟨⟩⟩ := Option.ite_none_right_eq_some.mp h
      exact .fetch hmem hle (Option.isNone_iff_eq_none.mp hfree)
  | sync u w =>
    cases h
    exact .sync

/-! ## Coherence and publication -/

theorem le_update_view {w : View Λ} (h : w x ≤ k) : w ≤ Function.update w x k := by
  intro y
  by_cases hy : y = x
  · subst hy
    rwa [Function.update_self]
  · rw [Function.update_of_ne hy]

/-- No thread ever forgets what it has seen. -/
theorem Effect.views_le (h : Effect m t a m') (u : ι) : m.views u ≤ m'.views u := by
  have hset : ∀ w : View Λ, m.views t ≤ w → m.views u ≤ (m.setView t w).views u := by
    intro w hw
    exact forall_setView (P := fun u w => m.views u ≤ w) hw (fun _ => le_rfl) u
  cases h with
  | load => exact hset _ le_sup_left
  | store hlt => exact hset _ (le_update_view hlt.le)
  | fetch _ hle => exact hset _ (le_update_view (Nat.le_succ_of_le hle))
  | sync => exact hset _ le_sup_left

theorem Effect.views_of_ne (h : Effect m t a m') (hu : u ≠ t) : m'.views u = m.views u := by
  cases h <;> exact setView_of_ne m hu _

/-- A load takes over what the message it reads carries. -/
theorem Effect.load_view {msg : Message Λ (V x)} (h : Effect m t (.load x k) m')
    (hmsg : m.memory x k = some msg) : msg.view ≤ m'.views t := by
  cases h with
  | load hmem =>
    rw [hmem] at hmsg
    cases hmsg
    rw [setView_self]
    exact le_sup_right

/-- A thread that synchronises with all another thread has seen takes all of it over. -/
theorem Effect.sync_view (h : Effect m t (.sync u (m.views u)) m') : m.views u ≤ m'.views t := by
  cases h with
  | sync =>
    rw [setView_self]
    exact le_sup_of_le_right (le_inf le_rfl le_rfl)

/-- A location changes only by an access that writes it. -/
theorem Effect.memory_eq (h : Effect m t a m') (hx : a.target ≠ some x) :
    m'.memory x = m.memory x := by
  cases h with
  | load => rfl
  | store | fetch => exact write_of_loc_ne _ (fun hxy => hx (by rw [hxy]; rfl)) _ _
  | sync => rfl

/-- A message stays where it is. -/
theorem Effect.memory_mono (h : Effect m t a m') {msg : Message Λ (V x)}
    (hmsg : m.memory x k = some msg) : m'.memory x k = some msg := by
  by_cases hx : a.target = some x
  · cases h with
    | load | sync => cases hx
    | store _ hfree =>
      cases hx
      rw [write_of_ne _ x fun hk => ?_]
      · exact hmsg
      · rw [hk, hfree] at hmsg
        cases hmsg
    | fetch _ _ hfree =>
      cases hx
      rw [write_of_ne _ x fun hk => ?_]
      · exact hmsg
      · rw [hk, hfree] at hmsg
        cases hmsg
  · rw [h.memory_eq hx]
    exact hmsg

/-! ## A location with one writer -/

/-- Nobody has heard of a place of `x` after `b`. -/
structure Within (m : Machine ι Λ V) (x : Λ) (b : ℕ) : Prop where
  places : ∀ k msg, m.memory x k = some msg → k ≤ b
  views : ∀ u, m.views u x ≤ b
  messages : ∀ y k msg, m.memory y k = some msg → msg.view x ≤ b

omit [DecidableEq ι] [DecidableEq Λ] in
theorem within_initial (init : ∀ x, V x) (x : Λ) :
    (initial init : Machine ι Λ V).Within x 0 := by
  refine ⟨fun k msg hmsg => ?_, fun _ => le_rfl, fun y k msg hmsg => ?_⟩
  · obtain ⟨rfl, -⟩ := Option.ite_none_right_eq_some.mp hmsg
    exact le_rfl
  · obtain ⟨-, ⟨⟩⟩ := Option.ite_none_right_eq_some.mp hmsg
    exact le_rfl

/-- An access that does not write `x` spreads what is known of it and adds nothing. -/
theorem Within.keep (hw : m.Within x b) (h : Effect m t a m') (hx : a.target ≠ some x) :
    m'.Within x b := by
  obtain ⟨hp, hv, hm⟩ := hw
  have hset : ∀ w : View Λ, w x ≤ b → ∀ u, (m.setView t w).views u x ≤ b := by
    intro w hle
    exact forall_setView (P := fun _ w => w x ≤ b) hle hv
  refine ⟨by rwa [h.memory_eq hx], ?_, ?_⟩
  · cases h with
    | load hmem => exact hset _ (sup_le (hv t) (hm _ _ _ hmem))
    | store | fetch =>
      refine hset _ ?_
      rw [Function.update_of_ne fun hxy => hx (by rw [hxy]; rfl)]
      exact hv t
    | sync => exact hset _ (sup_le (hv t) (inf_le_right.trans (hv _)))
  · cases h with
    | load | sync => exact hm
    | store =>
      refine forall_write (P := fun _ _ msg => msg.view x ≤ b) ?_ hm
      dsimp only
      rw [Function.update_of_ne fun hxy => hx (by rw [hxy]; rfl)]
      exact hv t
    | fetch hmem =>
      refine forall_write (P := fun _ _ msg => msg.view x ≤ b) (sup_le ?_ (hm _ _ _ hmem)) hm
      rw [Function.update_of_ne fun hxy => hx (by rw [hxy]; rfl)]
      exact hv t

/-- A store by a thread that knows all of `x` becomes the last place of `x`. -/
theorem Within.store {v : V x} (hw : m.Within x (m.views t x))
    (h : Effect m t (.store x v k) m') :
    m.views t x < k ∧ m'.Within x k ∧ m'.views t x = k := by
  obtain ⟨hp, hv, hm⟩ := hw
  cases h with
  | store hlt =>
    have hself : Function.update (m.views t) x k x = k := Function.update_self ..
    refine ⟨hlt, ⟨fun l msg hmsg => ?_, ?_, ?_⟩, ?_⟩
    · by_cases hl : l = k
      · exact hl.le
      · rw [write_of_ne _ x hl] at hmsg
        exact (hp l msg hmsg).trans hlt.le
    · exact forall_setView (P := fun _ w => w x ≤ k) hself.le fun u => (hv u).trans hlt.le
    · exact forall_write (P := fun _ _ msg => msg.view x ≤ k) hself.le
        fun y l msg hmsg => (hm y l msg hmsg).trans hlt.le
    · rw [write_views, setView_self, hself]

/-- Nobody knows more of `x` than its writer `t`. -/
abbrev OwnedBy (m : Machine ι Λ V) (x : Λ) (t : ι) : Prop := m.Within x (m.views t x)

/-- The writer alone moves what it knows of its location. -/
theorem OwnedBy.view_eq (ho : m.OwnedBy x t) (h : Effect m u a m') (hx : a.target ≠ some x) :
    m'.views t x = m.views t x :=
  le_antisymm ((Within.keep ho h hx).views t) (h.views_le t x)

theorem OwnedBy.keep (ho : m.OwnedBy x t) (h : Effect m u a m') (hx : a.target ≠ some x) :
    m'.OwnedBy x t := by
  rw [OwnedBy, ho.view_eq h hx]
  exact Within.keep ho h hx

theorem OwnedBy.store {v : V x} (ho : m.OwnedBy x t) (h : Effect m t (.store x v k) m') :
    m'.OwnedBy x t := by
  obtain ⟨-, hw, hk⟩ := Within.store ho h
  rwa [OwnedBy, hk]

/-! ## A location that is only counted up -/

/-- The places of `x` up to `c` hold the iterates of `f`, and there are no others. -/
structure Chain (m : Machine ι Λ V) (x : Λ) (f : V x → V x) (v : V x) (c : ℕ) : Prop where
  filled : ∀ k ≤ c, (m.memory x k).map Message.value = some (f^[k] v)
  free : ∀ k, c < k → m.memory x k = none

omit [DecidableEq ι] [DecidableEq Λ] in
theorem chain_initial (init : ∀ x, V x) (x : Λ) (f : V x → V x) :
    (initial init : Machine ι Λ V).Chain x f (init x) 0 := by
  refine ⟨fun k hk => ?_, fun k hk => if_neg (by omega)⟩
  obtain rfl : k = 0 := by omega
  rfl

omit [DecidableEq ι] [DecidableEq Λ] in
theorem Chain.value {f : V x → V x} {v : V x} {c : ℕ} (hc : m.Chain x f v c)
    {msg : Message Λ (V x)} (hmsg : m.memory x k = some msg) : k ≤ c ∧ msg.value = f^[k] v := by
  have hk : k ≤ c := by
    by_contra hlt
    rw [hc.free k (by omega)] at hmsg
    cases hmsg
  have hval := hc.filled k hk
  rw [hmsg] at hval
  exact ⟨hk, Option.some.inj hval⟩

/-- A read-modify-write reads the end of the chain, whatever the thread has seen. -/
theorem Chain.fetch {f : V x → V x} {v : V x} {c : ℕ} (hc : m.Chain x f v c)
    (h : Effect m t (.fetch x f k) m') : k = c ∧ m'.Chain x f v (c + 1) := by
  cases h with
  | fetch hmem _ hfree =>
    next msg =>
    obtain ⟨hle, hval⟩ := hc.value hmem
    have hge : c ≤ k := by
      by_contra hlt
      have hfilled := hc.filled (k + 1) (by omega)
      rw [hfree] at hfilled
      cases hfilled
    obtain rfl : k = c := by omega
    refine ⟨rfl, ⟨fun l hl => ?_, fun l hl => ?_⟩⟩
    · by_cases hlk : l = k + 1
      · subst hlk
        rw [write_self, Function.iterate_succ_apply', ← hval]
        rfl
      · rw [write_of_ne _ x hlk]
        exact hc.filled l (by omega)
    · rw [write_of_ne _ x (by omega)]
      exact hc.free l (by omega)

theorem Chain.keep {f : V x → V x} {v : V x} {c : ℕ} (hc : m.Chain x f v c)
    (h : Effect m t a m') (hx : a.target ≠ some x) : m'.Chain x f v c := by
  refine ⟨?_, ?_⟩
  · rw [h.memory_eq hx]
    exact hc.filled
  · rw [h.memory_eq hx]
    exact hc.free

/-! ## Knowing everything -/

/-- A message knows its own place. -/
def Placed (m : Machine ι Λ V) : Prop := ∀ x k msg, m.memory x k = some msg → k ≤ msg.view x

omit [DecidableEq ι] [DecidableEq Λ] in
theorem placed_initial (init : ∀ x, V x) : (initial init : Machine ι Λ V).Placed := by
  intro x k msg hmsg
  obtain ⟨rfl, -⟩ := Option.ite_none_right_eq_some.mp hmsg
  exact Nat.zero_le _

theorem Placed.keep (hm : m.Placed) (h : Effect m t a m') : m'.Placed := by
  cases h with
  | load | sync => exact hm
  | store => exact forall_write (P := fun y l msg => l ≤ msg.view y) (by simp) hm
  | fetch => exact forall_write (P := fun y l msg => l ≤ msg.view y) (by simp) hm

/-- What a thread has loaded once, it does not load an older message of again. -/
theorem Effect.load_le (h : Effect m t (.load x k) m') (hm : m.Placed) :
    m.views t x ≤ k ∧ k ≤ m'.views t x := by
  cases h with
  | load hmem hle =>
    refine ⟨hle, ?_⟩
    rw [setView_self]
    exact (hm x k _ hmem).trans le_sup_right

/-- Every message is known to some thread, the one that stored it for instance. -/
def Known (m : Machine ι Λ V) : Prop :=
  ∀ x k msg, m.memory x k = some msg → ∃ u, k ≤ m.views u x

omit [DecidableEq ι] [DecidableEq Λ] in
theorem known_initial [Nonempty ι] (init : ∀ x, V x) : (initial init : Machine ι Λ V).Known := by
  intro x k msg hmsg
  obtain ⟨rfl, -⟩ := Option.ite_none_right_eq_some.mp hmsg
  exact ⟨Classical.arbitrary ι, le_rfl⟩

theorem Known.keep (hm : m.Known) (h : Effect m t a m') : m'.Known := by
  have hold : ∀ y l msg, m.memory y l = some msg → ∃ u, l ≤ m'.views u y := by
    intro y l msg hmsg
    obtain ⟨u, hu⟩ := hm y l msg hmsg
    exact ⟨u, hu.trans (h.views_le u y)⟩
  cases h with
  | load | sync => exact hold
  | store | fetch =>
    refine forall_write (P := fun y l _ => ∃ u, l ≤ _) ⟨t, ?_⟩ hold
    rw [write_views, setView_self, Function.update_self]

/-- A thread that has caught up with all others reads the last message of a location. -/
theorem Effect.load_last (h : Effect m t (.load x k) m') (hm : m.Known)
    (hall : ∀ u, m.views u ≤ m.views t) {msg : Message Λ (V x)} (hmsg : m.memory x l = some msg) :
    l ≤ k := by
  obtain ⟨u, hu⟩ := hm x l msg hmsg
  cases h with
  | load _ hle => exact (hu.trans (hall u x)).trans hle

end Machine

end RadarRT.ReleaseAcquire
