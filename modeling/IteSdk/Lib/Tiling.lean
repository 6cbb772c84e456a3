import Mathlib.Data.List.Basic

/-!
# Tilings of an interval

Blocks of any type with an address and a size.  `Tiles` says that a list of them
covers an interval from one end to the other, in order and without empty blocks.
-/

namespace IteSdk.Lib

universe u

variable {β : Type u} (addr size : β → Nat)

def Tiles (start : Nat) : List β → Nat → Prop
  | [], stop => start = stop
  | block :: rest, stop =>
    addr block = start ∧ 0 < size block ∧ Tiles (start + size block) rest stop

variable {addr size}

theorem tiles_append {start stop : Nat} {front rest : List β} :
    Tiles addr size start (front ++ rest) stop ↔
      ∃ middle, Tiles addr size start front middle ∧ Tiles addr size middle rest stop := by
  induction front generalizing start with
  | nil =>
    constructor
    · exact fun tiles => ⟨start, rfl, tiles⟩
    · rintro ⟨middle, rfl, tiles⟩
      exact tiles
  | cons block front ih =>
    simp only [List.cons_append, Tiles, ih]
    constructor
    · rintro ⟨here, positive, middle, first, second⟩
      exact ⟨middle, ⟨here, positive, first⟩, second⟩
    · rintro ⟨middle, ⟨here, positive, first⟩, second⟩
      exact ⟨here, positive, middle, first, second⟩

namespace Tiles

variable {start stop : Nat} {blocks : List β}

section

variable (tiles : Tiles addr size start blocks stop)

include tiles

theorem le : start ≤ stop := by
  induction blocks generalizing start with
  | nil => exact Nat.le_of_eq tiles
  | cons block rest ih =>
    have restLe := ih tiles.2.2
    omega

theorem bounds {block : β} (member : block ∈ blocks) :
    start ≤ addr block ∧ 0 < size block ∧ addr block + size block ≤ stop := by
  obtain ⟨front, rest, rfl⟩ := List.append_of_mem member
  obtain ⟨middle, first, here, positive, second⟩ := tiles_append.mp tiles
  have firstLe := first.le
  have secondLe := second.le
  omega

theorem pairwise : blocks.Pairwise fun left right => addr left + size left ≤ addr right := by
  induction blocks generalizing start with
  | nil => exact List.Pairwise.nil
  | cons block rest ih =>
    obtain ⟨here, -, restTiles⟩ := tiles
    apply List.Pairwise.cons _ (ih restTiles)
    intro other member
    have bounds := restTiles.bounds member
    omega

end

theorem replace {front part part' rest : List β}
    (tiles : Tiles addr size start (front ++ (part ++ rest)) stop)
    (same : ∀ lower upper, Tiles addr size lower part upper → Tiles addr size lower part' upper) :
    Tiles addr size start (front ++ (part' ++ rest)) stop := by
  obtain ⟨first, frontTiles, partRest⟩ := tiles_append.mp tiles
  obtain ⟨second, partTiles, restTiles⟩ := tiles_append.mp partRest
  exact tiles_append.mpr
    ⟨first, frontTiles, tiles_append.mpr ⟨second, same first second partTiles, restTiles⟩⟩

end Tiles

end IteSdk.Lib
