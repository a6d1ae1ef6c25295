import Mathlib.Data.Nat.Basic
import Mathlib.Tactic.Ring
import RadarRT.Lib.InPlace

/-!
# Locking and prefaulting memory

`RealtimeManager::lockProcessMemory` locks all pages of the process, present and future, and then
writes to a block of the stack and to a block of the heap once every page, so that the pages are
faulted in before the threads start. What it does to memory is the list of the addresses the
compiled program writes to.

The two blocks differ in two ways. The buffer on the stack is `volatile`, so all its stores are
made; the stores to the heap block are dead when it is freed, and an optimising compiler drops
them. And both walks start at the first byte of the block, which need not be the first byte of a
page, so they may end a page too early: `prefaultStack` writes to the last byte as well and misses
nothing, `prefaultHeap` does not.
-/

namespace RadarRT.Realtime

/-! ## The code -/

structure RealtimeResult where
  applied : Bool
  failedCall : Option String
  errorNumber : ℤ
deriving DecidableEq, Repr

def applied : RealtimeResult := ⟨true, none, 0⟩

def failure (call : String) (errorNumber : ℤ) : RealtimeResult := ⟨false, some call, errorNumber⟩

/-- True when no error occurred. -/
def RealtimeResult.ok (r : RealtimeResult) : Bool := r.failedCall.isNone

section pages

variable {page bytes block a : ℕ}

end pages

/-! ## What has been faulted in -/

/-- The page of address `a` has been written to. -/
def Touched (page : ℕ) (touched : List ℕ) (a : ℕ) : Prop := ∃ b ∈ touched, b / page = a / page

theorem Touched.mono {page a : ℕ} {t t' : List ℕ} (h : Touched page t a)
    (hsub : ∀ b ∈ t, b ∈ t') : Touched page t' a := by
  obtain ⟨b, hb, heq⟩ := h
  exact ⟨b, hsub b hb, heq⟩

end RadarRT.Realtime
