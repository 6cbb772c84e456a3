import Mathlib.Order.Lattice

/-!
# The first best of the accepted

A loop that runs through numbered candidates and remembers the best one so far, where a
later one only takes its place by being strictly better.
-/

namespace IteSdk.Lib

universe u

/-- The loop over the candidates below `count`. -/
def firstBest (accept : Nat → Bool) (better : Nat → Nat → Bool) : Nat → Option Nat
  | 0 => none
  | current + 1 =>
    match firstBest accept better current with
    | none => if accept current then some current else none
    | some best =>
      if accept current && better current best then some current else some best

/-- `best` is accepted, no accepted candidate has a lower key, and the accepted ones
with the same key come later. -/
structure IsFirstBest {β : Type u} [LinearOrder β] (accept : Nat → Bool)
    (key : Nat → β) (count best : Nat) : Prop where
  inside : best < count
  accepted : accept best = true
  first :
    ∀ other < count, accept other = true →
      key best < key other ∨ key best = key other ∧ best ≤ other

section Keys

variable {β : Type u} [LinearOrder β] {accept : Nat → Bool} {key : Nat → β}
  {better : Nat → Nat → Bool}
  (byKey : ∀ current best, better current best = decide (key current < key best))

theorem IsFirstBest.unique {count first second : Nat} (isFirst : IsFirstBest accept key count first)
    (isSecond : IsFirstBest accept key count second) :
    first = second := by
  rcases isFirst.first second isSecond.inside isSecond.accepted with less | ⟨same, before⟩
  · rcases isSecond.first first isFirst.inside isFirst.accepted with more | ⟨same, -⟩
    · exact absurd less (lt_asymm more)
    · exact absurd same.symm (ne_of_lt less)
  · rcases isSecond.first first isFirst.inside isFirst.accepted with more | ⟨-, after⟩
    · exact absurd same.symm (ne_of_lt more)
    · exact Nat.le_antisymm before after

theorem firstBest_eq_none_iff {count : Nat} :
    firstBest accept better count = none ↔ ∀ candidate < count, accept candidate = false := by
  induction count with
  | zero => exact ⟨fun _ candidate inside => absurd inside (Nat.not_lt_zero _), fun _ => rfl⟩
  | succ count earlier =>
    rw [firstBest]
    cases found : firstBest accept better count with
    | none =>
      have noneBefore := earlier.mp found
      dsimp only
      constructor
      · intro rejected candidate inside
        rcases Nat.lt_succ_iff_lt_or_eq.mp inside with before | last
        · exact noneBefore candidate before
        · rw [last]
          simpa using rejected
      · intro rejected
        rw [rejected count (Nat.lt_succ_self count)]
        rfl
    | some best =>
      have notNone : ¬ ∀ candidate < count, accept candidate = false := by
        intro noneBefore
        rw [earlier.mpr noneBefore] at found
        cases found
      dsimp only
      constructor
      · intro absent
        split at absent <;> cases absent
      · intro rejected
        exact absurd (fun candidate inside => rejected candidate (Nat.lt_succ_of_lt inside)) notNone

include byKey

theorem isFirstBest_of_firstBest
    {count best : Nat} (found : firstBest accept better count = some best) :
    IsFirstBest accept key count best := by
  induction count generalizing best with
  | zero => cases found
  | succ count earlier =>
    rw [firstBest] at found
    cases before : firstBest accept better count with
    | none =>
      rw [before] at found
      dsimp only at found
      split at found
      · cases found
        refine ⟨Nat.lt_succ_self _, ‹_›, fun other inside accepted => ?_⟩
        rcases Nat.lt_succ_iff_lt_or_eq.mp inside with earlierOne | last
        · rw [firstBest_eq_none_iff.mp before other earlierOne] at accepted
          cases accepted
        · rw [last]
          exact Or.inr ⟨rfl, Nat.le_refl _⟩
      · cases found
    | some old =>
      obtain ⟨oldInside, oldAccepted, oldFirst⟩ := earlier before
      rw [before] at found
      dsimp only at found
      rw [byKey] at found
      split at found
      · rename_i takes
        rw [Bool.and_eq_true, decide_eq_true_eq] at takes
        cases found
        refine ⟨Nat.lt_succ_self _, takes.1, fun other inside accepted => ?_⟩
        rcases Nat.lt_succ_iff_lt_or_eq.mp inside with earlierOne | last
        · rcases oldFirst other earlierOne accepted with less | ⟨same, -⟩
          · exact Or.inl (lt_trans takes.2 less)
          · exact Or.inl (same ▸ takes.2)
        · rw [last]
          exact Or.inr ⟨rfl, Nat.le_refl _⟩
      · rename_i keeps
        rw [Bool.and_eq_true, decide_eq_true_eq, not_and] at keeps
        cases found
        refine ⟨Nat.lt_succ_of_lt oldInside, oldAccepted, fun other inside accepted => ?_⟩
        rcases Nat.lt_succ_iff_lt_or_eq.mp inside with earlierOne | last
        · exact oldFirst other earlierOne accepted
        · subst last
          rcases lt_or_eq_of_le (not_lt.mp (keeps accepted)) with less | same
          · exact Or.inl less
          · exact Or.inr ⟨same, Nat.le_of_lt oldInside⟩

theorem firstBest_eq_some_iff {count best : Nat} :
    firstBest accept better count = some best ↔ IsFirstBest accept key count best := by
  refine ⟨isFirstBest_of_firstBest byKey, fun isBest => ?_⟩
  cases found : firstBest accept better count with
  | none =>
    have rejected := firstBest_eq_none_iff.mp found best isBest.inside
    rw [isBest.accepted] at rejected
    cases rejected
  | some other =>
    rw [(isFirstBest_of_firstBest byKey found).unique isBest]

end Keys

end IteSdk.Lib
