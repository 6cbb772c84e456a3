import Mathlib.Data.Option.Basic

/-!
# Functions that may run out of fuel

`none` stands for no result.  A function extends another if it returns whatever
the other returns; with more fuel a recursive function extends itself, so that
no two amounts of fuel give different results.
-/

namespace IteSdk.Lib

universe u v

variable {α : Type u} {β : Type v}

def Extends (less more : Option α) : Prop := ∀ result, less = some result → more = some result

namespace Extends

theorem refl (x : Option α) : Extends x x := fun _ same => same

theorem trans {x y z : Option α} (first : Extends x y) (second : Extends y z) : Extends x z :=
  fun result returns => second result (first result returns)

theorem of_none (x : Option α) : Extends none x := by
  intro result same
  cases same

theorem bind {x y : Option α} {f g : α → Option β} (first : Extends x y)
    (rest : ∀ a, Extends (f a) (g a)) : Extends (x.bind f) (y.bind g) := by
  intro result returns
  obtain ⟨a, here, later⟩ := Option.bind_eq_some_iff.mp returns
  exact Option.bind_eq_some_iff.mpr ⟨a, first a here, rest a result later⟩

theorem map {x y : Option α} (first : Extends x y) (f : α → β) : Extends (x.map f) (y.map f) := by
  intro result returns
  obtain ⟨a, here, later⟩ := Option.map_eq_some_iff.mp returns
  exact Option.map_eq_some_iff.mpr ⟨a, first a here, later⟩

theorem ite {c : Prop} [Decidable c] {x y x' y' : Option α}
    (ifTrue : Extends x x') (ifFalse : Extends y y') :
    Extends (if c then x else y) (if c then x' else y') := by
  split
  · exact ifTrue
  · exact ifFalse

theorem of_le {f : Nat → Option α}
    (step : ∀ fuel, Extends (f fuel) (f (fuel + 1))) {less more : Nat}
    (le : less ≤ more) : Extends (f less) (f more) := by
  induction le with
  | refl => exact refl _
  | step _ ih =>
    exact ih.trans (step _)

theorem result_unique {f : Nat → Option α}
    (step : ∀ fuel, Extends (f fuel) (f (fuel + 1))) {fuel fuel' : Nat}
    {result result' : α} (returns : f fuel = some result)
    (returns' : f fuel' = some result') : result = result' := by
  have first := of_le step (Nat.le_max_left fuel fuel') result returns
  have second := of_le step (Nat.le_max_right fuel fuel') result' returns'
  exact Option.some.inj (first.symm.trans second)

end Extends

end IteSdk.Lib
