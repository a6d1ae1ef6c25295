import Mathlib.Algebra.BigOperators.Group.List.Basic
import Mathlib.Data.List.Forall2

/-!
# Readers

A reader takes a value off the front of a text and leaves the rest. `Takes r text a` says that
`r` takes exactly `text`, whatever follows it, and returns `a`. This is what a format owes its
writer: it is kept by sequencing (`Takes.bind`) and by repetition (`readAll_flatten`), so a
format built from literals and delimited fields is read back field by field.
-/

namespace RadarRT

/-- Takes a value off the front of a list of symbols. -/
abbrev Reader (σ α : Type) := StateT (List σ) Option α

namespace Reader

variable {σ α β : Type} [DecidableEq σ]

/-- Exactly the symbols `t`. -/
def literal (t : List σ) : Reader σ Unit := fun text =>
  if t <+: text then some ((), text.drop t.length) else none

/-- The symbols before the first `sep`, and `sep` itself. -/
def upTo (sep : σ) : Reader σ (List σ) := fun text =>
  match text.dropWhile (· ≠ sep) with
  | [] => none
  | _ :: rest => some (text.takeWhile (· ≠ sep), rest)

/-- The number written with decimal digits, at least one. -/
def natural (digits : List Char) : Option ℕ :=
  if digits ≠ [] ∧ digits.all Char.isDigit then some (Nat.ofDigitChars 10 digits 0) else none

/-- A number with at most a minus sign before it. -/
def decimal (text : List Char) : Option ℤ :=
  if text.head? = some '-' then (natural text.tail).map Int.negOfNat
  else (natural text).map Int.ofNat

/-- A decimal integer, ended by `sep`. -/
def integer (sep : Char) : Reader Char ℤ := do
  let text ← upTo sep
  StateT.lift (decimal text)

/-- Values of `r` until the text is used up, at most `fuel` of them. -/
def repeated (r : Reader σ α) : ℕ → List σ → Option (List α)
  | _, [] => some []
  | 0, _ :: _ => none
  | fuel + 1, x :: text => do
    let (a, rest) ← r (x :: text)
    let as ← repeated r fuel rest
    return a :: as

/-- The whole text as values of `r`, each of which takes at least one symbol. -/
def readAll (r : Reader σ α) (text : List σ) : Option (List α) := repeated r text.length text

/-! ## Reading back what was written -/

/-- `r` takes `t` off the front of any text that begins with it, and returns `a`. -/
def Takes (r : Reader σ α) (t : List σ) (a : α) : Prop :=
  ∀ rest, r.run (t ++ rest) = some (a, rest)

omit [DecidableEq σ] in
theorem Takes.pure (a : α) : Takes (Pure.pure a : Reader σ α) [] a := by
  intro rest
  rfl

omit [DecidableEq σ] in
theorem Takes.bind {r : Reader σ α} {f : α → Reader σ β} {t t' : List σ} {a : α} {b : β}
    (h : Takes r t a) (h' : Takes (f a) t' b) : Takes (r >>= f) (t ++ t') b := by
  intro rest
  rw [StateT.run_bind, List.append_assoc, h]
  exact h' rest

omit [DecidableEq σ] in
/-- A value computed from what was read takes nothing off the text. -/
theorem Takes.lift {o : Option α} {a : α} (h : o = some a) :
    Takes (StateT.lift o : Reader σ α) [] a := by
  intro rest
  subst h
  rfl

theorem Takes.literal (t : List σ) : Takes (Reader.literal t) t () := by
  intro rest
  show (if t <+: t ++ rest then some ((), (t ++ rest).drop t.length) else none) = _
  rw [if_pos (List.prefix_append t rest), List.drop_left]

theorem Takes.upTo {sep : σ} {t : List σ} (h : sep ∉ t) :
    Takes (Reader.upTo sep) (t ++ [sep]) t := by
  intro rest
  have hne : ∀ x ∈ t, decide (x ≠ sep) = true := by
    intro x hx
    simpa using fun he : x = sep => h (he ▸ hx)
  have htext : t ++ [sep] ++ rest = t ++ sep :: rest := by simp
  show (match (t ++ [sep] ++ rest).dropWhile (· ≠ sep) with
    | [] => none
    | _ :: rest' => some ((t ++ [sep] ++ rest).takeWhile (· ≠ sep), rest')) = _
  rw [htext, List.dropWhile_append_of_pos hne, List.takeWhile_append_of_pos hne]
  simp

omit [DecidableEq σ] in
/-- A last step that only computes with what was read. -/
theorem Takes.andThen {r : Reader σ α} {f : α → Reader σ β} {t : List σ} {a : α} {b : β}
    (h : Takes r t a) (h' : Takes (f a) [] b) : Takes (r >>= f) t b := by
  simpa using h.bind h'

theorem natural_toDigits (n : ℕ) : natural (Nat.toDigits 10 n) = some n := by
  have hdigits : (Nat.toDigits 10 n).all Char.isDigit = true :=
    List.all_eq_true.mpr fun c hc => Nat.isDigit_of_mem_toDigits (by decide) (by decide) hc
  rw [natural, if_pos ⟨Nat.toDigits_ne_nil, hdigits⟩, Nat.ofDigitChars_ten_toDigits]

/-- What `toString` makes of an integer. -/
theorem toList_toString_int (n : ℤ) :
    (toString n).toList = (if n < 0 then ['-'] else []) ++ Nat.toDigits 10 n.natAbs := by
  cases n with
  | ofNat m => simp [Int.toString_eq_repr, Int.repr]
  | negSucc m => simp [Int.toString_eq_repr, Int.repr, Int.negSucc_lt_zero]

theorem decimal_toString (n : ℤ) : decimal (toString n).toList = some n := by
  rw [toList_toString_int, decimal]
  split
  · next hneg =>
    show (natural (Nat.toDigits 10 n.natAbs)).map Int.negOfNat = some n
    rw [natural_toDigits, Option.map_some, Int.negOfNat_eq]
    congr 1
    show -(n.natAbs : ℤ) = n
    omega
  · next hpos =>
    have hhead : (Nat.toDigits 10 n.natAbs).head? ≠ some '-' := by
      intro h
      have hdigit := Nat.isDigit_of_mem_toDigits (b := 10) (n := n.natAbs) (by decide) (by decide)
        (List.mem_of_head? h)
      revert hdigit
      decide
    rw [List.nil_append, if_neg hhead, natural_toDigits, Option.map_some]
    congr 1
    show (n.natAbs : ℤ) = n
    omega

theorem Takes.integer {sep : Char} (hdigit : sep.isDigit = false) (hminus : sep ≠ '-') (n : ℤ) :
    Takes (Reader.integer sep) ((toString n).toList ++ [sep]) n := by
  have hsep : sep ∉ (toString n).toList := by
    rw [toList_toString_int, List.mem_append]
    rintro (hmem | hmem)
    · split at hmem
      · exact hminus (List.mem_singleton.mp hmem)
      · cases hmem
    · rw [Nat.isDigit_of_mem_toDigits (by decide) (by decide) hmem] at hdigit
      cases hdigit
  exact (Takes.upTo hsep).andThen (Takes.lift (decimal_toString n))

omit [DecidableEq σ] in
theorem repeated_flatten {r : Reader σ α} {texts : List (List σ)} {as : List α}
    (h : List.Forall₂ (Takes r) texts as) (hne : ∀ t ∈ texts, t ≠ []) :
    ∀ fuel ≥ texts.length, repeated r fuel texts.flatten = some as := by
  induction h with
  | nil =>
    intro fuel _
    cases fuel <;> rfl
  | @cons t a texts as ht hts ih =>
    intro fuel hfuel
    obtain ⟨fuel, rfl⟩ : ∃ n, fuel = n + 1 := ⟨fuel - 1, by simp at hfuel; omega⟩
    obtain ⟨x, t, rfl⟩ := List.exists_cons_of_ne_nil (hne t (by simp))
    have hrest := ih (fun t' ht' => hne t' (by simp [ht'])) fuel (by simpa using hfuel)
    have hfirst : r (x :: (t ++ texts.flatten)) = some (a, texts.flatten) := ht texts.flatten
    simp [repeated, hfirst, hrest]

omit [DecidableEq σ] in
/-- A text made of pieces that `r` reads is read as the list of their values. -/
theorem readAll_flatten {r : Reader σ α} {texts : List (List σ)} {as : List α}
    (h : List.Forall₂ (Takes r) texts as) (hne : ∀ t ∈ texts, t ≠ []) :
    readAll r texts.flatten = some as := by
  refine repeated_flatten h hne _ ?_
  -- a piece is at least one symbol long
  have hpos : ∀ n ∈ texts.map List.length, 1 ≤ n := by
    intro n hn
    obtain ⟨t, ht, rfl⟩ := List.mem_map.mp hn
    exact List.length_pos_of_ne_nil (hne t ht)
  have hle := List.length_le_sum_of_one_le _ hpos
  rw [List.length_flatten]
  rwa [List.length_map] at hle

end Reader

end RadarRT
